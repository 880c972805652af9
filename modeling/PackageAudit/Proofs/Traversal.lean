/-
Lists whose items are looked at one after the other, where each look may fail.

Such a traversal succeeds if every look does, and then it gives the results in the order of the
items.  As an equation between lists this says all there is to say: lengths, members and the
items one by one.
-/
import Mathlib.Data.List.Basic

namespace PackageAudit

variable {α β ε : Type} {items : List α}

theorem mapM_eq_some_iff {f : α → Option β} {values : List β} :
    items.mapM f = some values ↔ items.map f = values.map some := by
  induction items generalizing values with
  | nil => cases values <;> simp
  | cons item rest ih =>
      rw [List.mapM_cons, Option.bind_eq_bind, Option.bind_eq_some_iff]
      cases values with
      | nil => simp [Option.bind_eq_some_iff]
      | cons value values => simp [Option.bind_eq_some_iff, ih]

theorem exists_of_mem_of_mapM {f : α → Option β} {values : List β}
    (h : items.mapM f = some values) {item : α} (hmem : item ∈ items) :
    ∃ value ∈ values, f item = some value := by
  have himage := List.mem_map_of_mem (f := f) hmem
  rw [mapM_eq_some_iff.mp h] at himage
  obtain ⟨value, hvalue, heq⟩ := List.mem_map.mp himage
  exact ⟨value, hvalue, heq.symm⟩

theorem exists_mem_of_mapM {f : α → Option β} {values : List β}
    (h : items.mapM f = some values) {value : β} (hmem : value ∈ values) :
    ∃ item ∈ items, f item = some value := by
  have himage := List.mem_map_of_mem (f := some) hmem
  rw [← mapM_eq_some_iff.mp h] at himage
  exact List.mem_map.mp himage

theorem length_of_mapM {f : α → Option β} {values : List β} (h : items.mapM f = some values) :
    items.length = values.length := by
  have hlength := congrArg List.length (mapM_eq_some_iff.mp h)
  rwa [List.length_map, List.length_map] at hlength

/-- If each of some values is found for an item, they are found together. -/
theorem exists_mapM_eq_some {f : α → Option β} {values : List β}
    (h : ∀ value ∈ values, ∃ item, f item = some value) :
    ∃ items : List α, items.mapM f = some values := by
  simp only [mapM_eq_some_iff]
  induction values with
  | nil => exact ⟨[], rfl⟩
  | cons value rest ih =>
      obtain ⟨hvalue, hrest⟩ := List.forall_mem_cons.mp h
      obtain ⟨item, hitem⟩ := hvalue
      obtain ⟨items, hitems⟩ := ih hrest
      exact ⟨item :: items, by rw [List.map_cons, List.map_cons, hitem, hitems]⟩

theorem mapM_eq_ok_iff {f : α → Except ε β} {values : List β} :
    items.mapM f = .ok values ↔ items.map f = values.map .ok := by
  induction items generalizing values with
  | nil => cases values <;> simp [pure, Except.pure]
  | cons item rest ih =>
      rw [List.mapM_cons]
      cases hitem : f item with
      | error e => cases values <;> simp [bind, Except.bind, hitem]
      | ok value =>
          cases hrest : rest.mapM f with
          | error e =>
            simp only [hrest, bind, Except.bind] at ih ⊢
            cases values with
            | nil => simp [hitem]
            | cons value values => simp [hitem, ← ih]
          | ok others =>
            simp only [hrest, bind, Except.bind, Except.ok.injEq] at ih ⊢
            cases values with
            | nil => simp [pure, Except.pure]
            | cons value values => simp [hitem, ← ih, pure, Except.pure]

theorem exists_mapM_eq_ok_iff {f : α → Except ε β} :
    (∃ values, items.mapM f = .ok values) ↔ ∀ item ∈ items, ∃ value, f item = .ok value := by
  simp only [mapM_eq_ok_iff]
  induction items with
  | nil => simp
  | cons item rest ih =>
      rw [List.forall_mem_cons, ← ih]
      refine ⟨?_, ?_⟩
      · rintro ⟨values, hvalues⟩
        cases values with
        | nil => cases hvalues
        | cons value values =>
            obtain ⟨hitem, hrest⟩ := List.cons.inj hvalues
            exact ⟨⟨value, hitem⟩, values, hrest⟩
      · rintro ⟨⟨value, hitem⟩, values, hrest⟩
        exact ⟨value :: values, by rw [List.map_cons, List.map_cons, hitem, hrest]⟩

/-- One step after another succeeds if both do. -/
theorem bind_eq_ok_iff {x : Except ε α} {f : α → Except ε β} {b : β} :
    (x >>= f) = .ok b ↔ ∃ a, x = .ok a ∧ f a = .ok b := by
  cases x with
  | error fault => simp [bind, Except.bind]
  | ok value => simp [bind, Except.bind]

/-- One step after another fails if the first one does, or the second. -/
theorem bind_eq_error_iff {x : Except ε α} {f : α → Except ε β} {error : ε} :
    (x >>= f) = .error error ↔
      x = .error error ∨ ∃ value, x = .ok value ∧ f value = .error error := by
  cases x with
  | error fault => simp [bind, Except.bind]
  | ok value => simp [bind, Except.bind]

/-- What a traversal fails with is what it fails with at one of the items. -/
theorem exists_mem_of_mapM_eq_error {f : α → Except ε β} {error : ε}
    (h : items.mapM f = .error error) : ∃ item ∈ items, f item = .error error := by
  induction items with
  | nil => cases h
  | cons item rest ih =>
      rw [List.mapM_cons, bind_eq_error_iff] at h
      rcases h with hitem | ⟨value, -, hrest⟩
      · exact ⟨item, List.mem_cons_self, hitem⟩
      · rcases bind_eq_error_iff.mp hrest with hrest | ⟨values, -, hpure⟩
        · obtain ⟨found, hfound, herror⟩ := ih hrest
          exact ⟨found, List.mem_cons_of_mem _ hfound, herror⟩
        · cases hpure

/-- Looks that give nothing succeed if each of them does. -/
theorem forM_eq_ok_iff {f : α → Except ε Unit} :
    items.forM f = .ok () ↔ ∀ item ∈ items, f item = .ok () := by
  induction items with
  | nil => exact ⟨fun _ _ hmem => absurd hmem List.not_mem_nil, fun _ => rfl⟩
  | cons item rest ih =>
      show (f item >>= fun _ => rest.forM f) = .ok () ↔ _
      rw [List.forall_mem_cons, ← ih]
      cases f item <;> simp [bind, Except.bind]

/-- Otherwise the first one that fails tells the error. -/
theorem forM_eq_error_iff {f : α → Except ε Unit} {error : ε} :
    items.forM f = .error error ↔ ∃ before item after, items = before ++ item :: after
      ∧ (∀ earlier ∈ before, f earlier = .ok ()) ∧ f item = .error error := by
  induction items with
  | nil =>
      refine ⟨?_, ?_⟩
      · intro h
        cases h
      · rintro ⟨before, item, after, hitems, -⟩
        simp at hitems
  | cons first rest ih =>
      show (f first >>= fun _ => rest.forM f) = .error error ↔ _
      rw [bind_eq_error_iff, ih]
      refine ⟨?_, ?_⟩
      · rintro (hfirst | ⟨⟨⟩, hfirst, before, item, after, rfl, hbefore, hitem⟩)
        · exact ⟨[], first, rest, rfl, by simp, hfirst⟩
        · exact ⟨first :: before, item, after, rfl, List.forall_mem_cons.mpr ⟨hfirst, hbefore⟩,
            hitem⟩
      · rintro ⟨before, item, after, hitems, hbefore, hitem⟩
        cases before with
        | nil =>
            obtain ⟨rfl, -⟩ := List.cons.inj hitems
            exact Or.inl hitem
        | cons head before =>
            obtain ⟨rfl, hrest⟩ := List.cons.inj hitems
            obtain ⟨hfirst, hbefore⟩ := List.forall_mem_cons.mp hbefore
            exact Or.inr ⟨(), hfirst, before, item, after, hrest, hbefore, hitem⟩

end PackageAudit
