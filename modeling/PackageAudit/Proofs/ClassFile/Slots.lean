/-
The slots of a constant pool.

Constants are numbered by slots, and a wide constant takes two, so the number of a constant is
not its place among the constants that were read.  A reader keeps the number of the next slot in
a word of sixteen bits and the slots that are filled in a list, and the two are moved on by
different means: the first step of the number must not overflow, the second, behind a wide
constant, stays at the greatest word if there is no room.  They could drift apart only at the
greatest word, and there the reading ends.

So the run of such a reader is put beside the decoder, which counts the slots that are left and
has no word to overflow, and the two fill the same slots.  What the pool looks like is then a
matter of the list of constants alone: each brings the slots that it takes, in order.
-/
import Mathlib.Data.List.Basic
import PackageAudit.Proofs.ClassFile.Reading

namespace PackageAudit

open Decoder

/-! ### What a decoder gives -/

namespace Decoder

variable {α β : Type} {f : Decoder α} {g : α → Decoder β} {p : β → Prop}

/-- Every value that the decoder gives has the property. -/
def Gives (decoder : Decoder β) (p : β → Prop) : Prop :=
  ∀ cursor value next, decoder cursor = .ok (value, next) → p value

theorem gives_pure {b : β} (h : p b) : (pure b : Decoder β).Gives p := by
  intro cursor value next heq
  obtain ⟨rfl, -⟩ := Prod.mk.inj (Except.ok.inj heq)
  exact h

theorem gives_throw (e : DecodeError) : (throw e : Decoder β).Gives p := fun _ _ _ h => nomatch h

theorem gives_bind (h : ∀ a, (g a).Gives p) : (f >>= g).Gives p := by
  intro cursor value next heq
  obtain ⟨a, middle, -, hsecond⟩ := exists_of_bind_ok heq
  exact h a middle value next hsecond

end Decoder

/-! ### The slots of constants -/

namespace Constant

/-- The slots that a constant takes. -/
def places (constant : Constant) : List Constant :=
  if constant.isWide then [constant, .unusable] else [constant]

theorem places_of_wide {constant : Constant} (h : constant.isWide = true) :
    constant.places = [constant, .unusable] := if_pos h

theorem places_of_not_wide {constant : Constant} (h : ¬ constant.isWide = true) :
    constant.places = [constant] := if_neg h

/-- Whether a wide constant stands at a place. -/
def wideAt (slots : List Constant) (i : Nat) : Bool := slots[i]?.any isWide

/-- The first place holds a constant, and a place behind another one holds none just if that one
is wide. -/
theorem unusable_places {constants : List Constant}
    (h : ∀ constant ∈ constants, constant.isUsable = true) :
    (constants.flatMap places)[0]? ≠ some .unusable ∧
      ∀ i, (constants.flatMap places)[i + 1]? = some .unusable ↔
        wideAt (constants.flatMap places) i = true := by
  induction constants with
  | nil => simp [wideAt]
  | cons constant rest ih =>
      obtain ⟨hfirst, hnext⟩ := ih fun c hc => h c (List.mem_cons_of_mem _ hc)
      have husable : constant ≠ .unusable := by
        intro hc
        have := h constant List.mem_cons_self
        rw [hc] at this
        cases this
      rw [List.flatMap_cons]
      by_cases hwide : constant.isWide = true
      · rw [places_of_wide hwide]
        refine ⟨by simpa using husable, fun i => ?_⟩
        rcases i with _ | _ | i
        · simp [wideAt, hwide]
        · simpa [wideAt, isWide] using hfirst
        · simpa [wideAt] using hnext i
      · rw [places_of_not_wide hwide]
        refine ⟨by simpa using husable, fun i => ?_⟩
        cases i with
        | zero => simpa [wideAt, hwide] using hfirst
        | succ i => simpa [wideAt] using hnext i

/-- A constant stands as far behind its place among the constants as there are wide ones before
it. -/
theorem getElem?_places {constants : List Constant} {k : Nat} {constant : Constant}
    (h : constants[k]? = some constant) :
    (constants.flatMap places)[k + (constants.take k).countP isWide]? = some constant := by
  induction constants generalizing k with
  | nil => cases h
  | cons first rest ih =>
      rw [List.flatMap_cons, places]
      cases k with
      | zero =>
          obtain rfl : first = constant := by simpa using h
          split <;> simp
      | succ k =>
          have hrest := ih (k := k) (by simpa using h)
          rw [List.take_succ_cons, List.countP_cons]
          by_cases hwide : first.isWide = true
          · rw [if_pos hwide, if_pos hwide]
            have hplace : k + 1 + ((rest.take k).countP isWide + 1)
                = k + (rest.take k).countP isWide + 2 := by omega
            rw [hplace]
            exact hrest
          · rw [if_neg hwide, if_neg hwide]
            have hplace : k + 1 + ((rest.take k).countP isWide + 0)
                = k + (rest.take k).countP isWide + 1 := by omega
            rw [hplace]
            exact hrest

theorem filter_places {constants : List Constant}
    (h : ∀ constant ∈ constants, constant.isUsable = true) :
    (constants.flatMap places).filter isUsable = constants := by
  induction constants with
  | nil => rfl
  | cons constant rest ih =>
      have husable := h constant List.mem_cons_self
      rw [List.flatMap_cons, List.filter_append, ih fun c hc => h c (List.mem_cons_of_mem _ hc)]
      rw [places]
      split
      · rw [List.filter_cons_of_pos husable, List.filter_cons_of_neg (by decide), List.filter_nil]
        rfl
      · rw [List.filter_cons_of_pos husable, List.filter_nil]
        rfl

/-- What is read is a constant. -/
theorem gives_decode (index : Nat) : (decode index).Gives (·.isUsable = true) := by
  refine gives_bind fun tag => ?_
  have hone : ∀ {α : Type} (field : Decoder α) (make : α → Constant),
      (∀ a, (make a).isUsable = true) → (do return make (← field)).Gives (·.isUsable = true) :=
    fun field make h => gives_bind fun a => gives_pure (h a)
  split
  case h_1 => exact gives_bind fun _ => hone _ _ fun _ => rfl
  case h_8 | h_9 | h_10 | h_11 | h_12 | h_14 | h_15 =>
    exact gives_bind fun _ => hone _ _ fun _ => rfl
  case h_18 => exact gives_throw _
  all_goals exact hone _ _ fun _ => rfl

end Constant

/-! ### A running number of sixteen bits -/

namespace ConstantPool

theorem toNat_succ {n : UInt16} (h : n.toNat < 65535) : (n + 1).toNat = n.toNat + 1 := by
  have hone : (1 : UInt16).toNat = 1 := rfl
  rw [UInt16.toNat_add, hone]
  omega

/-- The next number of sixteen bits, unless it overflows. -/
def next? (n : UInt16) : Option UInt16 := if n.toNat < 65535 then some (n + 1) else none

/-- The next number of sixteen bits; the greatest one stays. -/
def saturatingNext (n : UInt16) : UInt16 := (next? n).getD n

/-- A pool that is being filled: the running number of the next slot, and the slots so far. -/
structure Filling where
  index : UInt16
  slots : List Constant
  deriving DecidableEq, Repr

/-- Puts in a constant and moves on, unless the running number overflows. -/
def Filling.put? (filling : Filling) (constant : Constant) : Option Filling := do
  let index ← next? filling.index
  return ⟨if constant.isWide then saturatingNext index else index,
    filling.slots ++ constant.places⟩

/-- A run of a reader with a running number, up to the declared number of slots: where it starts
and stands, which constants it reads, and where it ends.  There is no run if the running number
overflows. -/
inductive Fills (count : UInt16) :
    Filling → Cursor → List Constant → Filling → Cursor → Prop
  | done {filling : Filling} {cursor : Cursor} (hend : ¬ filling.index < count) :
      Fills count filling cursor [] filling cursor
  | more {filling next last : Filling} {cursor ahead behind : Cursor} {constant : Constant}
      {constants : List Constant} (hmore : filling.index < count)
      (hread : Constant.decode filling.index.toNat cursor = .ok (constant, ahead))
      (hput : filling.put? constant = some next)
      (hrest : Fills count next ahead constants last behind) :
      Fills count filling cursor (constant :: constants) last behind

/-- Before the declared end there is room for a constant, and the running number moves on by the
slots that it takes, as far as there are words. -/
theorem Filling.exists_put? {filling : Filling} {count : UInt16} (h : filling.index < count)
    (constant : Constant) :
    ∃ next, filling.put? constant = some next ∧ next.slots = filling.slots ++ constant.places
      ∧ next.index.toNat = min (filling.index.toNat + constant.places.length) 65535 := by
  have hlt : filling.index.toNat < count.toNat := UInt16.lt_iff_toNat_lt.mp h
  have hcount : count.toNat < 65536 := count.toNat_lt
  have hroom : filling.index.toNat < 65535 := by omega
  have hnext : (filling.index + 1).toNat = filling.index.toNat + 1 := toNat_succ hroom
  refine ⟨_, by rw [put?, next?, if_pos hroom]; rfl, rfl, ?_⟩
  by_cases hwide : constant.isWide = true
  · -- The second step stays where it is if the first has reached the greatest word.
    simp only [Constant.places, if_pos hwide, saturatingNext, next?, hnext, List.length_cons,
      List.length_nil]
    by_cases hlast : filling.index.toNat + 1 < 65535
    · rw [if_pos hlast, Option.getD_some, toNat_succ (hnext ▸ hlast), hnext]
      omega
    · rw [if_neg hlast, Option.getD_none, hnext]
      omega
  · simp only [Constant.places, if_neg hwide, hnext, List.length_cons, List.length_nil]
    omega

/-! ### Counting slots down and counting them up -/

section Decoding

variable {left index : Nat} {cursor behind : Cursor} {slots : List Constant}

/-- While slots are left, a constant is read, and as many slots are counted off as it takes. -/
theorem exists_of_decodeSlots_succ (h : decodeSlots (left + 1) index cursor = .ok (slots, behind)) :
    ∃ constant ahead others, Constant.decode index cursor = .ok (constant, ahead)
      ∧ decodeSlots (left + 1 - constant.places.length) (index + constant.places.length) ahead
        = .ok (others, behind)
      ∧ slots = constant.places ++ others := by
  rw [decodeSlots] at h
  obtain ⟨constant, ahead, hread, h⟩ := exists_of_bind_ok h
  refine ⟨constant, ahead, ?_⟩
  by_cases hwide : constant.isWide = true
  · rw [if_pos hwide] at h
    rw [Constant.places_of_wide hwide]
    cases left with
    | zero =>
        obtain ⟨rfl, rfl⟩ := Prod.mk.inj (Except.ok.inj h)
        exact ⟨[], hread, rfl, rfl⟩
    | succ left =>
        obtain ⟨others, last, hothers, h⟩ := exists_of_bind_ok h
        obtain ⟨rfl, rfl⟩ := Prod.mk.inj (Except.ok.inj h)
        exact ⟨others, hread, hothers, rfl⟩
  · rw [if_neg hwide] at h
    rw [Constant.places_of_not_wide hwide]
    obtain ⟨others, last, hothers, h⟩ := exists_of_bind_ok h
    obtain ⟨rfl, rfl⟩ := Prod.mk.inj (Except.ok.inj h)
    exact ⟨others, hread, hothers, rfl⟩

theorem eq_nil_of_decodeSlots_zero (h : decodeSlots 0 index cursor = .ok (slots, behind)) :
    slots = [] ∧ cursor = behind := by
  obtain ⟨rfl, rfl⟩ := Prod.mk.inj (Except.ok.inj h)
  exact ⟨rfl, rfl⟩

/-- As many slots are filled as were left, and one more if the last of them holds a wide constant.
The slot before them is counted as well, since none may be left. -/
theorem length_of_decodeSlots (h : decodeSlots left index cursor = .ok (slots, behind)) :
    slots.length = left + (Constant.wideAt (.unusable :: slots) left).toNat := by
  induction left using Nat.strongRecOn generalizing index cursor slots with
  | ind left ih =>
      cases left with
      | zero =>
          obtain ⟨rfl, -⟩ := eq_nil_of_decodeSlots_zero h
          rfl
      | succ left =>
          obtain ⟨constant, ahead, others, -, hothers, rfl⟩ := exists_of_decodeSlots_succ h
          by_cases hwide : constant.isWide = true
          · rw [Constant.places_of_wide hwide] at hothers ⊢
            cases left with
            | zero =>
                obtain ⟨rfl, -⟩ := eq_nil_of_decodeSlots_zero hothers
                simp [Constant.wideAt, hwide]
            | succ left =>
                have hlength := ih left (by omega) hothers
                simp only [List.cons_append, List.nil_append, List.length_cons, hlength,
                  Constant.wideAt, List.getElem?_cons_succ]
                omega
          · rw [Constant.places_of_not_wide hwide] at hothers ⊢
            have hlength := ih left (by omega) hothers
            -- The slot in front of the others holds no wide constant, whichever slot that is.
            have hfront : Constant.wideAt (constant :: others) left
                = Constant.wideAt (.unusable :: others) left := by
              cases left with
              | zero =>
                  have hnone : Constant.unusable.isWide = false := rfl
                  simp [Constant.wideAt, hwide, hnone]
              | succ left => rfl
            have hplace : Constant.wideAt (.unusable :: constant :: others) (left + 1)
                = Constant.wideAt (constant :: others) left := rfl
            rw [List.cons_append, List.nil_append, List.length_cons, hlength, hplace, hfront]
            omega

/-- What the decoder fills, a reader with a running number fills as well. -/
theorem exists_fills {count : UInt16} {filling : Filling}
    (hleft : left = count.toNat - filling.index.toNat)
    (h : decodeSlots left filling.index.toNat cursor = .ok (slots, behind)) :
    ∃ constants last, Fills count filling cursor constants last behind
      ∧ (∀ constant ∈ constants, constant.isUsable = true)
      ∧ slots = constants.flatMap Constant.places ∧ last.slots = filling.slots ++ slots := by
  induction left using Nat.strongRecOn generalizing filling cursor slots with
  | ind left ih =>
      cases left with
      | zero =>
          obtain ⟨rfl, rfl⟩ := eq_nil_of_decodeSlots_zero h
          have hend : ¬ filling.index < count := by
            rw [UInt16.lt_iff_toNat_lt]
            omega
          exact ⟨[], filling, .done hend, by simp, rfl, by simp⟩
      | succ left =>
          have hmore : filling.index < count := by
            rw [UInt16.lt_iff_toNat_lt]
            omega
          obtain ⟨constant, ahead, others, hread, hothers, rfl⟩ := exists_of_decodeSlots_succ h
          obtain ⟨next, hput, hslots, hindex⟩ := Filling.exists_put? hmore constant
          have hcount : count.toNat < 65536 := count.toNat_lt
          have hpositive : 0 < constant.places.length := by
            rw [Constant.places]
            split <;> simp
          -- If the running number stays behind, no slot is left, and then it plays no part.
          have hnext : decodeSlots (left + 1 - constant.places.length) next.index.toNat ahead
              = .ok (others, behind) := by
            rw [hindex]
            by_cases hroom : filling.index.toNat + constant.places.length ≤ 65535
            · rw [Nat.min_eq_left hroom]
              exact hothers
            · have hnone : left + 1 - constant.places.length = 0 := by omega
              rw [hnone] at hothers ⊢
              exact hothers
          obtain ⟨constants, last, hfills, husable, hplaces, hlast⟩ :=
            ih _ (by omega) (by omega) hnext
          refine ⟨constant :: constants, last, .more hmore hread hput hfills, ?_, ?_, ?_⟩
          · intro c hc
            rcases List.mem_cons.mp hc with rfl | hc
            · exact Constant.gives_decode _ _ _ _ hread
            · exact husable c hc
          · rw [List.flatMap_cons, hplaces]
          · rw [hlast, hslots, List.append_assoc]

end Decoding

/-! ### The pool as a whole -/

/-- The usable slots with their numbers as words; a slot whose number is no word is left out. -/
def numbered (pool : ConstantPool) : List (UInt16 × Constant) :=
  pool.entries.filterMap fun entry =>
    if entry.1 ≤ 65535 then some (UInt16.ofNat entry.1, entry.2) else none

/-- What a pool looks like for which `count` slots were declared and `constants` were read. -/
structure IsAligned (pool : ConstantPool) (count : UInt16) (constants : List Constant) : Prop where
  /-- A wide constant in the last declared slot brings one more with it. -/
  size : pool.size = if Constant.wideAt pool.slots.toList (count.toNat - 1) then count.toNat + 1
    else max count.toNat 1
  unusable_iff : ∀ i, pool.slots[i]? = some .unusable ↔
    i = 0 ∨ ∃ j, i = j + 1 ∧ Constant.wideAt pool.slots.toList j = true
  /-- The constant that is read after `k` others is numbered by the slots that they take. -/
  placed : ∀ k constant, constants[k]? = some constant →
    pool.slots[1 + k + (constants.take k).countP Constant.isWide]? = some constant
  mem_numbered : ∀ index constant, (index, constant) ∈ pool.numbered ↔
    pool.get? index = some constant ∧ constant ≠ .unusable
  numbered_increasing : pool.numbered.Pairwise fun first second => first.1 < second.1
  /-- No slot is left out for its number. -/
  numbered_eq : pool.numbered.map (fun entry => (entry.1.toNat, entry.2)) = pool.entries
  constants_eq : pool.numbered.map Prod.snd = constants

variable {pool : ConstantPool}

theorem mem_entries {i : Nat} {constant : Constant} :
    (i, constant) ∈ pool.entries ↔ pool.slots[i]? = some constant ∧ constant ≠ .unusable := by
  have husable : constant.isUsable = true ↔ constant ≠ .unusable := by
    cases constant <;> simp [Constant.isUsable]
  simp only [entries, List.mem_map, List.mem_filter, Prod.exists, List.mem_zipIdx_iff_getElem?,
    Array.getElem?_toList, Prod.mk.injEq]
  refine ⟨?_, ?_⟩
  · rintro ⟨_, _, ⟨hslot, hfound⟩, rfl, rfl⟩
    exact ⟨hslot, husable.mp hfound⟩
  · rintro ⟨hslot, hfound⟩
    exact ⟨constant, i, ⟨hslot, husable.mpr hfound⟩, rfl, rfl⟩

theorem entries_increasing (pool : ConstantPool) :
    pool.entries.Pairwise fun first second => first.1 < second.1 := by
  have hsub : (pool.entries.map Prod.fst).Sublist (pool.slots.toList.zipIdx.map Prod.snd) := by
    rw [entries, List.map_map]
    exact List.filter_sublist.map Prod.snd
  rw [List.zipIdx_map_snd] at hsub
  exact List.pairwise_map.mp (List.Pairwise.sublist hsub List.pairwise_lt_range')

theorem map_numbered (h : pool.size ≤ 65536) :
    pool.numbered.map (fun entry => (entry.1.toNat, entry.2)) = pool.entries := by
  have hword : ∀ entry ∈ pool.entries, entry.1 ≤ 65535 := by
    intro entry hentry
    have hslot := (mem_entries.mp hentry).1
    have hlt : entry.1 < pool.slots.size := (Array.getElem?_eq_some_iff.mp hslot).1
    have hsize : pool.slots.size ≤ 65536 := h
    omega
  have hmap : pool.numbered
      = pool.entries.map fun entry => (UInt16.ofNat entry.1, entry.2) := by
    rw [numbered, ← List.filterMap_eq_map]
    exact List.filterMap_congr fun entry hentry => if_pos (hword entry hentry)
  rw [hmap, List.map_map]
  refine (List.map_congr_left fun entry hentry => ?_).trans (List.map_id _)
  have hback : (UInt16.ofNat entry.1).toNat = entry.1 :=
    UInt16.toNat_ofNat_of_lt' (Nat.lt_succ_of_le (hword entry hentry))
  simp only [Function.comp_apply, hback, Prod.eta, id]

theorem map_snd_entries (pool : ConstantPool) :
    pool.entries.map Prod.snd = pool.slots.toList.filter Constant.isUsable := by
  have hslots : (pool.slots.toList.zipIdx.map Prod.fst).filter Constant.isUsable
      = pool.slots.toList.filter Constant.isUsable := by rw [List.zipIdx_map_fst]
  rw [← hslots, List.filter_map, entries, List.map_map]
  rfl

section Places

variable {count : UInt16} {constants : List Constant}

theorem getElem?_slots (hslots : pool.slots.toList = .unusable :: constants.flatMap Constant.places)
    (i : Nat) : pool.slots[i]? = (.unusable :: constants.flatMap Constant.places)[i]? := by
  rw [← hslots, Array.getElem?_toList]

theorem unusable_iff_of_places (husable : ∀ constant ∈ constants, constant.isUsable = true)
    (hslots : pool.slots.toList = .unusable :: constants.flatMap Constant.places) (i : Nat) :
    pool.slots[i]? = some .unusable ↔
      i = 0 ∨ ∃ j, i = j + 1 ∧ Constant.wideAt pool.slots.toList j = true := by
  obtain ⟨hfirst, hnext⟩ := Constant.unusable_places husable
  rw [getElem?_slots hslots, hslots]
  rcases i with _ | _ | i
  · simp
  · have hnone : Constant.unusable.isWide = false := rfl
    simpa [Constant.wideAt, hnone] using hfirst
  · simpa [Constant.wideAt] using hnext i

/-- The slots are as many as declared, with those that no declaration speaks of: slot 0, and the
second slot of a wide constant in the last one. -/
theorem size_of_places (hslots : pool.slots.toList = .unusable :: constants.flatMap Constant.places)
    (hlength : (constants.flatMap Constant.places).length
      = count.toNat - 1 + (Constant.wideAt pool.slots.toList (count.toNat - 1)).toNat) :
    pool.size = if Constant.wideAt pool.slots.toList (count.toNat - 1) then count.toNat + 1
      else max count.toNat 1 := by
  have hsize : pool.size = count.toNat - 1
      + (Constant.wideAt pool.slots.toList (count.toNat - 1)).toNat + 1 := by
    rw [size, ← Array.length_toList, ← hlength, hslots, List.length_cons]
  cases hwide : Constant.wideAt pool.slots.toList (count.toNat - 1) with
  | false =>
      rw [hsize, hwide, Bool.toNat_false, if_neg Bool.false_ne_true]
      omega
  | true =>
      -- Slot 0 holds no wide constant, so a slot was declared.
      have hpositive : 0 < count.toNat := by
        refine Nat.pos_of_ne_zero fun hzero => ?_
        rw [hzero, hslots] at hwide
        cases hwide
      rw [hsize, hwide, Bool.toNat_true, if_pos rfl]
      omega

theorem isAligned_of_places (husable : ∀ constant ∈ constants, constant.isUsable = true)
    (hslots : pool.slots.toList = .unusable :: constants.flatMap Constant.places)
    (hlength : (constants.flatMap Constant.places).length
      = count.toNat - 1 + (Constant.wideAt pool.slots.toList (count.toNat - 1)).toNat) :
    pool.IsAligned count constants := by
  have hsize := size_of_places hslots hlength
  have hbound : pool.size ≤ 65536 := by
    have hcount : count.toNat < 65536 := count.toNat_lt
    rw [hsize]
    split <;> omega
  have hmap := map_numbered hbound
  have hinjective : Function.Injective
      (fun entry : UInt16 × Constant => (entry.1.toNat, entry.2)) := by
    intro first second heq
    obtain ⟨hindex, hconstant⟩ := Prod.mk.inj heq
    exact Prod.ext (UInt16.toNat_inj.mp hindex) hconstant
  refine ⟨hsize, unusable_iff_of_places husable hslots, ?_, ?_, ?_, hmap, ?_⟩
  · intro k constant hconstant
    rw [getElem?_slots hslots, Nat.add_assoc, Nat.add_comm 1, List.getElem?_cons_succ]
    exact Constant.getElem?_places hconstant
  · intro index constant
    rw [← List.mem_map_of_injective hinjective, hmap, mem_entries, get?]
  · have hincreasing := pool.entries_increasing
    rw [← hmap, List.pairwise_map] at hincreasing
    exact hincreasing.imp UInt16.lt_iff_toNat_lt.mpr
  · have hsnd : pool.numbered.map Prod.snd = pool.entries.map Prod.snd := by
      rw [← hmap, List.map_map]
      rfl
    rw [hsnd, map_snd_entries, hslots, List.filter_cons_of_neg (by decide),
      Constant.filter_places husable]

end Places

/-- **Constants stand in the slots that they are numbered by.**  A pool that is read fills the slots
that a reader with a running number of sixteen bits fills, without an overflow and up to the same
byte; and what it holds is aligned with the number of slots that its bytes declare. -/
theorem decode_aligned {cursor behind : Cursor}
    (h : ConstantPool.decode cursor = .ok (pool, behind)) :
    ∃ count ahead constants last, Decoder.u16 cursor = .ok (count, ahead)
      ∧ Fills count ⟨1, [.unusable]⟩ ahead constants last behind
      ∧ last.slots = pool.slots.toList ∧ pool.IsAligned count constants := by
  obtain ⟨count, ahead, hcount, h⟩ := exists_of_bind_ok h
  obtain ⟨slots, last, hdecode, h⟩ := exists_of_bind_ok h
  obtain ⟨rfl, rfl⟩ := Prod.mk.inj (Except.ok.inj h)
  have hlength := length_of_decodeSlots hdecode
  let start : Filling := ⟨1, [.unusable]⟩
  have hleft : count.toNat - 1 = count.toNat - start.index.toNat := rfl
  have hstart : decodeSlots (count.toNat - 1) start.index.toNat ahead = .ok (slots, last) := hdecode
  obtain ⟨constants, filled, hfills, husable, rfl, hfilled⟩ := exists_fills hleft hstart
  exact ⟨count, ahead, constants, filled, hcount, hfills, hfilled,
    isAligned_of_places husable rfl hlength⟩

/-- A pool of two declared slots, the second of which holds a wide constant. -/
def wideEnd : List UInt8 := [0, 2, 5, 0, 0, 0, 0, 0, 0, 0, 7]

theorem wideEnd_aligned : ∃ pool behind, ConstantPool.decode ⟨0, wideEnd⟩ = .ok (pool, behind)
    ∧ pool.size = 3 ∧ pool.numbered = [(1, .long 7)]
    ∧ ∃ count ahead constants last, Decoder.u16 ⟨0, wideEnd⟩ = .ok (count, ahead)
      ∧ Fills count ⟨1, [.unusable]⟩ ahead constants last behind
      ∧ last.slots = pool.slots.toList ∧ pool.IsAligned count constants := by
  have hdecode : ConstantPool.decode ⟨0, wideEnd⟩
      = .ok (⟨#[.unusable, .long 7, .unusable]⟩, ⟨11, []⟩) := by decide +kernel
  exact ⟨_, _, hdecode, by decide +kernel, by decide +kernel, decode_aligned hdecode⟩

end ConstantPool

end PackageAudit
