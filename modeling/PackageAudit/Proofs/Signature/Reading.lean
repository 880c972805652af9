/-
What the parts of the signature reader take.

For each reader there is a type of trees, and the reader takes exactly what these trees spell: it
succeeds on a text if and only if the text starts with the spelling of a tree, and then it gives
what the tree stands for and leaves the rest.  Some readers look at the rest to know where to
stop, so which rests a tree may stand before belongs to the statement.

Statements of this form compose.  A list of items is read by reading the items, each of them
before the spelling of those behind it, and no reader has to be opened twice.
-/
import Mathlib.Data.List.TakeWhile
import PackageAudit.Proofs.Signature.Grammar

namespace PackageAudit.Signature

variable {α β τ : Type} {input rest : List Char}

/-- Whether a reader takes from an input the spelling of a tree, and from every spelling of a tree
just that.  A tree is read only before a rest that `before` admits. -/
structure Reads (reader : Reader α) (text : τ → List Char) (value : τ → α)
    (before : τ → List Char → Prop) : Prop where
  sound : ∀ {input a rest}, reader input = .ok (a, rest) →
    ∃ tree, before tree rest ∧ input = text tree ++ rest ∧ value tree = a
  complete : ∀ tree rest, before tree rest → reader (text tree ++ rest) = .ok (value tree, rest)

/-- What may stand behind a tree can be said in another way. -/
theorem Reads.congr {reader : Reader α} {text : τ → List Char} {value : τ → α}
    {before before' : τ → List Char → Prop} (h : Reads reader text value before)
    (hiff : ∀ tree rest, before tree rest ↔ before' tree rest) :
    Reads reader text value before' where
  sound hread := by
    obtain ⟨tree, hbefore, hspells⟩ := h.sound hread
    exact ⟨tree, (hiff _ _).mp hbefore, hspells⟩
  complete tree rest hbefore := h.complete tree rest ((hiff _ _).mpr hbefore)

/-! ### Steps of a reader -/

theorem bind_eq_ok_iff {m : Reader α} {f : α → Reader β} {b : β} :
    (m >>= f) input = .ok (b, rest) ↔
      ∃ a mid, m input = .ok (a, mid) ∧ f a mid = .ok (b, rest) := by
  show (m input >>= fun result => f result.1 result.2) = .ok (b, rest) ↔ _
  cases hm : m input with
  | error e =>
      simp only [reduceCtorEq, false_and, exists_false, iff_false]
      exact fun h => nomatch h
  | ok result =>
      obtain ⟨a, mid⟩ := result
      simp only [Except.ok.injEq, Prod.mk.injEq]
      refine ⟨fun h => ⟨a, mid, ⟨rfl, rfl⟩, h⟩, ?_⟩
      rintro ⟨a', mid', ⟨rfl, rfl⟩, h⟩
      exact h

theorem pure_eq_ok_iff {a b : α} :
    (pure a : Reader α) input = .ok (b, rest) ↔ a = b ∧ input = rest := by
  show Except.ok (a, input) = Except.ok (b, rest) ↔ _
  simp

theorem expect_eq_ok_iff {c : Char} {expected : Expected} {u : Unit} :
    expect c expected input = .ok (u, rest) ↔ input = c :: rest := by
  unfold expect
  cases input with
  | nil => simp
  | cons d tail =>
      by_cases hd : d = c
      · simp [hd]
      · simp [hd]

theorem advance_eq_ok_iff {u : Unit} : advance input = .ok (u, rest) ↔ input.drop 1 = rest := by
  unfold advance
  simp

@[simp] theorem startsWith_cons (c d : Char) : startsWith c (d :: rest) = (d == c) := rfl

theorem startsWith_iff {c : Char} : startsWith c input = true ↔ ∃ tail, input = c :: tail := by
  cases input with
  | nil => simp [startsWith]
  | cons d tail => simp

/-! ### Identifiers -/

/-- Whether an identifier ends before a rest. -/
def EndsName (rest : List Char) : Prop := ∀ c tail, rest = c :: tail → isDelimiter c = true

theorem endsName_cons {c : Char} (h : isDelimiter c = true) : EndsName (c :: rest) := by
  rintro d tail heq
  obtain ⟨rfl, -⟩ := List.cons.inj heq
  exact h

theorem reads_identifier :
    Reads identifier Identifier.text Identifier.text fun _ rest => EndsName rest where
  sound := by
    intro input name rest h
    unfold identifier at h
    split at h
    · simp at h
    · rename_i hne
      simp only [Except.ok.injEq, Prod.mk.injEq] at h
      obtain ⟨rfl, rfl⟩ := h
      refine ⟨⟨_, hne, ?_⟩, ?_, List.takeWhile_append_dropWhile.symm, rfl⟩
      · intro c hc
        rw [← isDelimiter_iff]
        simpa using List.mem_takeWhile_imp hc
      · intro c tail heq
        have hhead := List.head?_dropWhile_not (fun c => !isDelimiter c) input
        rw [heq] at hhead
        simpa using hhead
  complete := by
    intro name rest hrest
    have hall : ∀ c ∈ name.text, (!isDelimiter c) = true := by
      intro c hc
      simp [name.isDelimiter_eq_false hc]
    have hstop : rest.takeWhile (fun c => !isDelimiter c) = []
        ∧ rest.dropWhile (fun c => !isDelimiter c) = rest := by
      cases rest with
      | nil => simp
      | cons c tail => simp [hrest c tail rfl]
    unfold identifier
    rw [List.takeWhile_append_of_pos hall, List.dropWhile_append_of_pos hall, hstop.1, hstop.2,
      List.append_nil]
    split
    · rename_i hnil
      exact absurd hnil name.ne_nil
    · rfl

/-! ### Lists of items -/

/-- Whether each of some trees stands before a rest that it may stand before. -/
def Followed (text : τ → List Char) (before : τ → List Char → Prop) :
    List τ → List Char → Prop
  | [], _ => True
  | tree :: trees, rest =>
    before tree (trees.flatMap text ++ rest) ∧ Followed text before trees rest

/-- If what a tree may stand before can be seen from how the next one starts, then only the last
tree needs to look at the rest. -/
theorem followed_iff_forall {text : τ → List Char} {before : τ → List Char → Prop} {p : τ → Prop}
    {trees : List τ} (start : List Char → Prop) (htext : ∀ tree rest, start (text tree ++ rest))
    (hrest : start rest) (hbefore : ∀ tree rest, start rest → (before tree rest ↔ p tree)) :
    Followed text before trees rest ↔ ∀ tree ∈ trees, p tree := by
  induction trees with
  | nil => simp [Followed]
  | cons tree trees ih =>
      have hnext : start (trees.flatMap text ++ rest) := by
        cases trees with
        | nil => exact hrest
        | cons next trees =>
            rw [List.flatMap_cons, List.append_assoc]
            exact htext next _
      rw [Followed, hbefore tree _ hnext, ih, List.forall_mem_cons]

theorem followed_const {text : τ → List Char} {p : τ → Prop} {trees : List τ} :
    Followed text (fun tree _ => p tree) trees rest ↔ ∀ tree ∈ trees, p tree :=
  followed_iff_forall (fun _ => True) (fun _ _ => trivial) trivial fun _ _ _ => Iff.rfl

section RepeatWhile

variable {continues : List Char → Bool} {item : Reader α} {text : τ → List Char}
  {value : τ → α} {before : τ → List Char → Prop}

/-- Items are read one after the other, up to where reading is not to go on. -/
theorem reads_repeatWhile
    (hsound : ∀ {input a rest}, continues input = true → item input = .ok (a, rest) →
      ∃ tree, before tree rest ∧ input = text tree ++ rest ∧ value tree = a)
    (hcomplete : ∀ tree rest, before tree rest →
      item (text tree ++ rest) = .ok (value tree, rest))
    (hne : ∀ tree, text tree ≠ [])
    (hstart : ∀ tree rest, continues (text tree ++ rest) = true) :
    Reads (repeatWhile continues item) (List.flatMap text) (List.map value)
      fun trees rest => Followed text before trees rest ∧ continues rest = false := by
  have hlt : ∀ tree (rest : List Char), rest.length < (text tree ++ rest).length := by
    intro tree rest
    have hpos := List.length_pos_iff.mpr (hne tree)
    rw [List.length_append]
    omega
  refine ⟨?_, ?_⟩
  · -- Following the recursion of the reader: each round adds a tree in front.
    intro input values rest h
    fun_induction repeatWhile continues item input generalizing values with
    | case1 => simp at h
    | case2 => simp at h
    | case3 input hcont a mid hread _ as rest' hmore ih =>
        simp only [Except.ok.injEq, Prod.mk.injEq] at h
        obtain ⟨rfl, rfl⟩ := h
        obtain ⟨trees, ⟨hfollowed, hstop⟩, rfl, rfl⟩ := ih hmore
        obtain ⟨tree, hbefore, rfl, rfl⟩ := hsound hcont hread
        exact ⟨tree :: trees, ⟨⟨hbefore, hfollowed⟩, hstop⟩, by simp, by simp⟩
    | case4 input hcont a mid hread hnot =>
        obtain ⟨tree, -, rfl, -⟩ := hsound hcont hread
        exact absurd (hlt tree mid) hnot
    | case5 input hcont =>
        simp only [Except.ok.injEq, Prod.mk.injEq] at h
        obtain ⟨rfl, rfl⟩ := h
        exact ⟨[], ⟨trivial, by simpa using hcont⟩, by simp, by simp⟩
  · rintro trees rest ⟨hfollowed, hstop⟩
    induction trees with
    | nil =>
        rw [repeatWhile]
        simp [hstop]
    | cons tree trees ih =>
        obtain ⟨hbefore, hfollowed⟩ := hfollowed
        rw [List.flatMap_cons, List.append_assoc, repeatWhile, if_pos (hstart tree _),
          hcomplete tree _ hbefore]
        simp only [if_pos (hlt tree _), ih hfollowed, List.map_cons]

theorem Reads.repeated (h : Reads item text value before) (continues : List Char → Bool)
    (hne : ∀ tree, text tree ≠ [])
    (hstart : ∀ tree rest, continues (text tree ++ rest) = true) :
    Reads (repeatWhile continues item) (List.flatMap text) (List.map value)
      fun trees rest => Followed text before trees rest ∧ continues rest = false :=
  reads_repeatWhile (fun _ => h.sound) h.complete hne hstart

/-- Items that each stand behind a character are read as long as that character comes next. -/
theorem Reads.repeatBehind (h : Reads item text value before) (c : Char) :
    Reads (repeatWhile (startsWith c) (advance >>= fun _ => item))
      (List.flatMap fun tree => c :: text tree) (List.map value) fun trees rest =>
        Followed (fun tree => c :: text tree) before trees rest ∧ startsWith c rest = false := by
  refine reads_repeatWhile ?_ ?_ (fun tree => List.cons_ne_nil _ _) (fun tree rest => by simp)
  · intro input a rest hc hread
    obtain ⟨tail, rfl⟩ := startsWith_iff.mp hc
    obtain ⟨_, mid, hmid, hread⟩ := bind_eq_ok_iff.mp hread
    obtain rfl : tail = mid := advance_eq_ok_iff.mp hmid
    obtain ⟨tree, hbefore, rfl, rfl⟩ := h.sound hread
    exact ⟨tree, hbefore, rfl, rfl⟩
  · intro tree rest hbefore
    exact bind_eq_ok_iff.mpr ⟨(), _, advance_eq_ok_iff.mpr rfl, h.complete tree rest hbefore⟩

end RepeatWhile

section Brackets

variable {item : Reader (List String)} {text : τ → List Char} {value : τ → List String}
  {before : τ → List Char → Prop}

/-- What may stand behind items in angle brackets: without any, no angle bracket. -/
def BeforeBrackets (text : τ → List Char) (before : τ → List Char → Prop) (trees : List τ)
    (rest : List Char) : Prop :=
  if trees.isEmpty then startsWith '<' rest = false else Followed text before trees ('>' :: rest)

theorem reads_inBrackets (hitem : Reads item text value before) (hne : ∀ tree, text tree ≠ [])
    (hstart : ∀ tree rest, startsWith '>' (text tree ++ rest) = false) :
    Reads (inBrackets item) (fun trees => bracketed (trees.map text)) (List.flatMap value)
      (BeforeBrackets text before) := by
  have hothers := hitem.repeated (fun rest => !startsWith '>' rest) hne
    (fun tree rest => by simp [hstart tree rest])
  refine ⟨?_, ?_⟩
  · intro input names rest hread
    unfold inBrackets at hread
    split at hread
    · rename_i hopen
      obtain ⟨tail, rfl⟩ := startsWith_iff.mp hopen
      simp only [bind_eq_ok_iff, advance_eq_ok_iff, pure_eq_ok_iff] at hread
      obtain ⟨-, mid, rfl, first, mid', hfirst, others, mid'', hmore, -, close, hclose, rfl, rfl⟩ :=
        hread
      obtain ⟨trees, ⟨hfollowed, hstop⟩, rfl, rfl⟩ := hothers.sound hmore
      obtain ⟨tree, hbefore, htail, rfl⟩ := hitem.sound hfirst
      obtain ⟨end_, rfl⟩ := startsWith_iff.mp (by simpa using hstop)
      rw [List.drop_succ_cons, List.drop_zero] at htail hclose
      subst hclose
      refine ⟨tree :: trees, ⟨hbefore, hfollowed⟩, ?_, ?_⟩
      · simp [bracketed, htail, List.flatMap_def]
      · simp [List.flatMap_def]
    · rename_i hclosed
      simp only [Except.ok.injEq, Prod.mk.injEq] at hread
      obtain ⟨rfl, rfl⟩ := hread
      exact ⟨[], by simpa [BeforeBrackets] using hclosed, by simp [bracketed], by simp⟩
  · intro trees rest hbefore
    unfold inBrackets
    cases trees with
    | nil =>
        have hclosed : startsWith '<' rest = false := hbefore
        simp [bracketed, hclosed]
    | cons tree trees =>
        obtain ⟨hbefore, hfollowed⟩ := hbefore
        have htext : bracketed ((tree :: trees).map text) ++ rest
            = '<' :: (text tree ++ (trees.flatMap text ++ '>' :: rest)) := by
          simp [bracketed, List.flatMap_def]
        rw [htext, startsWith_cons, beq_self_eq_true, if_pos rfl]
        simp only [bind_eq_ok_iff, advance_eq_ok_iff, pure_eq_ok_iff]
        refine ⟨(), _, rfl, value tree, _, hitem.complete tree _ hbefore, trees.map value, _,
          hothers.complete trees ('>' :: rest) ⟨hfollowed, by simp⟩, (), rest, rfl, ?_, rfl⟩
        simp [List.flatMap_def]

end Brackets

end PackageAudit.Signature
