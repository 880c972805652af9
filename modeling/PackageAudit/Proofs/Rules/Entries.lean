/-
Where sealing stops.

Sealing reads one text after the other.  It stops at the first one that is no pattern, or with
which a dependency is both allowed and denied.  What was read before is then without fault, so
that the dependency is the one that this text speaks of.
-/
import Mathlib.Data.List.Induction
import Mathlib.Data.List.Pairwise
import PackageAudit.Proofs.Rules.Patterns
import PackageAudit.Proofs.Rules.Sealing

namespace PackageAudit

/-! ### Texts and patterns -/

namespace PackagePattern

/-- The pattern of a text, if it is one. -/
def ofText? (text : String) : Option PackagePattern := (parse text).toOption

/-- Whether a text can be read as a pattern: without the white space at its ends it is not empty,
and it has no asterisk but at its end. -/
def IsText (text : String) : Prop :=
  Text.trim text.toList ≠ [] ∧ '*' ∉ (Text.trim text.toList).dropLast

theorem ofText?_eq_some_iff {text : String} {pattern : PackagePattern} :
    ofText? text = some pattern ↔ parse text = .ok pattern := by
  unfold ofText?
  cases parse text <;> simp [Except.toOption]

/-- An asterisk before the end of a text is one in its stem. -/
theorem mem_stem_iff (text : List Char) :
    '*' ∈ (if text.getLast? = some '*' then text.dropLast else text) ↔ '*' ∈ text.dropLast := by
  by_cases hlast : text.getLast? = some '*'
  · rw [if_pos hlast]
  · rw [if_neg hlast]
    induction text using List.reverseRecOn with
    | nil => rfl
    | append_singleton text c =>
        rw [List.getLast?_concat, Option.some.injEq] at hlast
        rw [List.dropLast_concat, List.mem_append, List.mem_singleton]
        have hne : '*' ≠ c := fun hc => hlast hc.symm
        simp [hne]

theorem isText_iff {text : String} : IsText text ↔ ∃ pattern, parse text = .ok pattern := by
  unfold IsText parse ofTrimmed
  rw [← mem_stem_iff]
  generalize Text.trim text.toList = trimmed
  generalize (if trimmed.getLast? = some '*' then trimmed.dropLast else trimmed) = stem
  by_cases hempty : trimmed = []
  · simp [hempty]
  · by_cases hstar : '*' ∈ stem
    · simp [hempty, hstar]
    · -- All the cases that are left give a pattern.
      simp only [List.isEmpty_iff, List.contains_iff_mem, hempty, hstar, if_false]
      refine ⟨fun _ => ?_, fun _ => ⟨hempty, fun hc => hc⟩⟩
      split
      · split
        · exact ⟨_, rfl⟩
        · split <;> exact ⟨_, rfl⟩
      · exact ⟨_, rfl⟩

/-- A pattern has the text that it is read from, without the white space at its ends. -/
theorem text_of_ofText? {text : String} {pattern : PackagePattern}
    (h : ofText? text = some pattern) :
    pattern.text = String.ofList (Text.trim text.toList) := by
  have hspells := parse_eq_ok_iff_spells.mp (ofText?_eq_some_iff.mp h)
  generalize Text.trim text.toList = trimmed at hspells ⊢
  cases hspells with
  | exact => rfl
  | every => rfl
  | below => simp [PackagePattern.text]
  | starting => simp [PackagePattern.text]

/-- Patterns that are read are told by their texts. -/
theorem text_inj_of_ofText? {text text' : String} {pattern pattern' : PackagePattern}
    (h : ofText? text = some pattern) (h' : ofText? text' = some pattern')
    (heq : pattern.text = pattern'.text) : pattern = pattern' := by
  rw [text_of_ofText? h, text_of_ofText? h', String.ofList_inj] at heq
  rw [ofText?_eq_some_iff, parse] at h h'
  rw [heq] at h
  exact Except.ok.inj (h.symm.trans h')

end PackagePattern

/-! ### Reading one text after the other -/

/-- A text of declarations, with where it stands.  A target comes with the pattern and the kind of
its relation. -/
inductive Entry where
  | rule (i : Nat) (text : String)
  | relation (i : Nat) (text : String)
  | target (i : Nat) (pattern : PackagePattern) (kind : RelationKind) (j : Nat) (text : String)
  | external (i : Nat) (text : String)

namespace Entry

/-- The pattern that is written in an entry. -/
def text : Entry → String
  | .rule _ text | .relation _ text | .target _ _ _ _ text | .external _ text => text

/-- Where an entry stands. -/
def site : Entry → PatternSite
  | .rule i _ => .rule i
  | .relation i _ => .relation i
  | .target i _ kind j _ => .target i kind j
  | .external i _ => .external i

/-- The dependency that the entry speaks of. -/
def edge? : Entry → Option DeclaredEdge
  | .target _ pattern kind _ text => (PackagePattern.ofText? text).map (Sealing.edgeOf pattern kind)
  | _ => none

/-- The move of the entry, none if its text is no pattern. -/
def moves : Entry → List Move
  | .rule _ text | .relation _ text => Sealing.ruleMoves text
  | .target _ pattern kind _ text => Sealing.targetMoves pattern kind text
  | .external _ text => Sealing.externalMoves text

theorem filterMap_edge?_moves (entry : Entry) :
    entry.moves.filterMap Move.edge? = entry.edge?.toList := by
  cases entry with
  | rule i text | relation i text | external i text =>
      simp only [moves, edge?, Sealing.ruleMoves, Sealing.externalMoves, Sealing.movesOf]
      split <;> rfl
  | target i pattern kind j text =>
      simp only [moves, edge?, Sealing.targetMoves, Sealing.movesOf, PackagePattern.ofText?]
      cases PackagePattern.parse text <;> rfl

theorem filterMap_edge?_flatMap_moves (entries : List Entry) :
    (entries.flatMap moves).filterMap Move.edge? = entries.filterMap edge? := by
  rw [List.filterMap_flatMap, List.filterMap_eq_flatMap_toList]
  simp only [filterMap_edge?_moves]

end Entry

namespace Sealing

/-- Takes up one entry. -/
def read (state : Sealing) : Entry → Except RuleSetError Sealing
  | .rule i text => addRule state (text, i)
  | .relation i text => do
    let pattern ← parseAt (.relation i) text
    return { state with rules := changeRule state.rules pattern id }
  | .target i pattern kind j text => addTarget i pattern kind state (text, j)
  | .external i text => addExternal state (text, i)

theorem takes_read {state : Sealing} (hagree : Agree state.edges) (entry : Entry) :
    Takes (read state entry) state (IsPattern entry.text) entry.moves := by
  cases entry with
  | rule i text => exact takes_addRule hagree (text, i)
  | relation i text =>
      have h : Takes (read state (.relation i text)) state (IsPattern text ∧ True)
          (ruleMoves text) :=
        Takes.parse fun pattern => Takes.silent { pattern } hagree rfl rfl
      rwa [and_true] at h
  | target i pattern kind j text => exact takes_addTarget hagree i pattern kind (text, j)
  | external i text => exact takes_addExternal hagree (text, i)

/-- Entries that can be read and do not contradict each other. -/
structure IsFaultless (entries : List Entry) : Prop where
  texts : ∀ entry ∈ entries, PackagePattern.IsText entry.text
  agree : Agree (entries.filterMap Entry.edge?)

theorem foldlM_read_eq_ok_iff (entries : List Entry) (state : Sealing) :
    entries.foldlM read {} = .ok state ↔
      IsFaultless entries ∧ state = takeAll {} (entries.flatMap Entry.moves) := by
  have hstart : Agree ({} : Sealing).edges := List.Pairwise.nil
  have htakes := Takes.foldlM (fun _ entry hstate => takes_read hstate entry) entries hstart state
  rw [edges_takeAll, Entry.filterMap_edge?_flatMap_moves] at htakes
  rw [htakes, ← and_assoc]
  refine and_congr_left fun _ => ⟨?_, ?_⟩
  · rintro ⟨htexts, hagree⟩
    exact ⟨fun entry hentry => PackagePattern.isText_iff.mpr (htexts entry hentry), hagree⟩
  · rintro ⟨htexts, hagree⟩
    exact ⟨fun entry hentry => PackagePattern.isText_iff.mp (htexts entry hentry), hagree⟩

/-- A run of steps fails at the first step that fails. -/
theorem foldlM_eq_error_iff {ε α β : Type} {step : β → α → Except ε β} {error : ε}
    (items : List α) (start : β) : items.foldlM step start = .error error ↔
      ∃ before item after, items = before ++ item :: after ∧
        ∃ state, before.foldlM step start = .ok state ∧ step state item = .error error := by
  induction items generalizing start with
  | nil =>
      refine ⟨?_, ?_⟩
      · intro h
        cases h
      · rintro ⟨before, item, after, hitems, -⟩
        simp at hitems
  | cons first rest ih =>
      rw [List.foldlM_cons]
      cases hstep : step start first with
      | error fault =>
          refine ⟨?_, ?_⟩
          · intro h
            exact ⟨[], first, rest, rfl, start, rfl, hstep.trans h⟩
          · rintro ⟨before, item, after, hitems, state, hbefore, hitem⟩
            cases before with
            | nil =>
                obtain ⟨rfl, -⟩ := List.cons.inj hitems
                obtain rfl := Except.ok.inj hbefore
                exact hstep.symm.trans hitem
            | cons head before =>
                obtain ⟨rfl, -⟩ := List.cons.inj hitems
                rw [List.foldlM_cons, hstep] at hbefore
                cases hbefore
      | ok next =>
          show rest.foldlM step next = .error error ↔ _
          rw [ih]
          refine ⟨?_, ?_⟩
          · rintro ⟨before, item, after, rfl, state, hbefore, hitem⟩
            refine ⟨first :: before, item, after, rfl, state, ?_, hitem⟩
            rw [List.foldlM_cons, hstep]
            exact hbefore
          · rintro ⟨before, item, after, hitems, state, hbefore, hitem⟩
            cases before with
            | nil =>
                obtain ⟨rfl, -⟩ := List.cons.inj hitems
                obtain rfl := Except.ok.inj hbefore
                rw [hstep] at hitem
                cases hitem
            | cons head before =>
                obtain ⟨rfl, hrest⟩ := List.cons.inj hitems
                rw [List.foldlM_cons, hstep] at hbefore
                exact ⟨before, item, after, hrest, state, hbefore, hitem⟩

/-! ### Contradictions -/

/-- The kind of the first relation that allows, or denies, a dependency. -/
def firstKind? (edges : List DeclaredEdge) (source target : PackagePattern) (denial : Bool) :
    Option RelationKind :=
  (edges.find? fun e => e.source == source && e.target == target && e.kind.isDenial == denial).map
    (·.kind)

theorem agree_iff {edges : List DeclaredEdge} :
    Agree edges ↔ ∀ e ∈ edges, ∀ f ∈ edges, ¬e.Contradicts f := by
  refine ⟨?_, ?_⟩
  · intro hagree e he f hf
    have hsymm : Std.Symm fun e f : DeclaredEdge => ¬e.Contradicts f :=
      ⟨fun _ _ hnot hc => hnot hc.symm⟩
    exact hagree.forall_of_forall (fun _ _ hself => hself.2.2 rfl) he hf
  · intro h
    exact List.pairwise_of_forall_mem_list h

section FirstKind

variable {edges : List DeclaredEdge} {source target : PackagePattern} {denial : Bool}

theorem exists_mem_of_firstKind? {kind : RelationKind}
    (h : firstKind? edges source target denial = some kind) :
    ⟨source, target, kind⟩ ∈ edges ∧ kind.isDenial = denial := by
  obtain ⟨e, hfind, rfl⟩ := Option.map_eq_some_iff.mp h
  have hmem := List.mem_of_find?_eq_some hfind
  have he := List.find?_some hfind
  simp only [Bool.and_eq_true, beq_iff_eq] at he
  obtain ⟨⟨rfl, rfl⟩, hdenial⟩ := he
  exact ⟨hmem, hdenial⟩

theorem firstKind?_concat (edge : DeclaredEdge) : firstKind? (edges ++ [edge]) source target denial
    = (firstKind? edges source target denial).or
      (if edge.source = source ∧ edge.target = target ∧ edge.kind.isDenial = denial
        then some edge.kind else none) := by
  unfold firstKind?
  rw [List.find?_append, Option.map_or]
  congr 1
  by_cases h : edge.source = source ∧ edge.target = target ∧ edge.kind.isDenial = denial
  · simp [h]
  · rw [if_neg h]
    simpa [and_assoc] using h

/-- A dependency with an allowing and a denying kind. -/
theorem not_agree_of_firstKind? {allowed denied : RelationKind}
    (hallowed : firstKind? edges source target false = some allowed)
    (hdenied : firstKind? edges source target true = some denied) : ¬Agree edges := by
  intro hagree
  obtain ⟨hmem, hallows⟩ := exists_mem_of_firstKind? hallowed
  obtain ⟨hmem', hdenies⟩ := exists_mem_of_firstKind? hdenied
  refine agree_iff.mp hagree _ hmem _ hmem' ⟨rfl, rfl, ?_⟩
  show allowed.isDenial ≠ denied.isDenial
  rw [hallows, hdenies]
  exact Bool.false_ne_true

/-- The kinds of the dependency of an edge that contradicts an earlier one. -/
theorem firstKind?_of_contradicting? {edge earlier : DeclaredEdge} (hagree : Agree edges)
    (h : contradicting? edges edge = some earlier) :
    firstKind? (edges ++ [edge]) edge.source edge.target denial
      = some (if denial = edge.kind.isDenial then edge.kind else earlier.kind) := by
  have hmem := List.mem_of_find?_eq_some h
  have hearlier : earlier.Contradicts edge := by
    simpa [DeclaredEdge.Contradicts, and_assoc] using List.find?_some h
  rw [firstKind?_concat]
  by_cases hdenial : denial = edge.kind.isDenial
  · -- An earlier relation that agrees with the new one would contradict the one found.
    have hnone : firstKind? edges edge.source edge.target denial = none := by
      cases hfirst : firstKind? edges edge.source edge.target denial with
      | none => rfl
      | some kind =>
          obtain ⟨hkind, hsame⟩ := exists_mem_of_firstKind? hfirst
          have hcontra : earlier.Contradicts ⟨edge.source, edge.target, kind⟩ :=
            ⟨hearlier.1, hearlier.2.1, by rw [hsame, hdenial]; exact hearlier.2.2⟩
          exact absurd hcontra (agree_iff.mp hagree _ hmem _ hkind)
    rw [hnone]
    simp [hdenial]
  · have hfound : firstKind? edges edge.source edge.target denial = some earlier.kind := by
      have hpredicate : ∀ e : DeclaredEdge, (e.kind.isDenial == denial)
          = (e.kind.isDenial != edge.kind.isDenial) := by
        intro e
        revert hdenial
        cases e.kind.isDenial <;> cases denial <;> cases edge.kind.isDenial <;> decide
      unfold firstKind?
      simp only [hpredicate]
      exact congrArg (Option.map (·.kind)) h
    simp [hfound, hdenial]

/-- If one more edge brings a dependency with an allowing and a denying kind, it is its own. -/
theorem exists_contradicting?_of_firstKind? {edge : DeclaredEdge} {allowed denied : RelationKind}
    (hagree : Agree edges)
    (hallowed : firstKind? (edges ++ [edge]) source target false = some allowed)
    (hdenied : firstKind? (edges ++ [edge]) source target true = some denied) :
    edge.source = source ∧ edge.target = target ∧
      ∃ earlier, contradicting? edges edge = some earlier := by
  have hpair : edge.source = source ∧ edge.target = target := by
    by_contra hother
    have hskip : ∀ denial, ¬(edge.source = source ∧ edge.target = target
        ∧ edge.kind.isDenial = denial) := fun _ hc => hother ⟨hc.1, hc.2.1⟩
    rw [firstKind?_concat, if_neg (hskip _), Option.or_none] at hallowed hdenied
    exact not_agree_of_firstKind? hallowed hdenied hagree
  refine ⟨hpair.1, hpair.2, ?_⟩
  cases hnone : contradicting? edges edge with
  | none =>
      exact absurd (agree_concat_iff.mpr ⟨hagree, hnone⟩)
        (not_agree_of_firstKind? hallowed hdenied)
  | some earlier => exact ⟨earlier, rfl⟩

end FirstKind

/-- The error with which an entry stops the reading after some others: its text is no pattern, or
with it a dependency is both allowed and denied. -/
inductive Stops (before : List Entry) (entry : Entry) : RuleSetError → Prop
  | unreadable (cause : PatternError) (h : PackagePattern.parse entry.text = .error cause) :
      Stops before entry (.invalidPattern entry.site cause)
  | conflicting (source target : PackagePattern) (allowed denied : RelationKind)
      (hallowed : firstKind? ((before ++ [entry]).filterMap Entry.edge?) source target false
        = some allowed)
      (hdenied : firstKind? ((before ++ [entry]).filterMap Entry.edge?) source target true
        = some denied) :
      Stops before entry (.conflict source target allowed denied)

section Stops

variable {before : List Entry} {state : Sealing} {error : RuleSetError}

/-- An entry that speaks of no dependency stops the reading only if it can not be read. -/
theorem stops_iff_of_edge?_eq_none {entry : Entry} (hagree : Agree (before.filterMap Entry.edge?))
    (hedge : entry.edge? = none) : Stops before entry error ↔
      ∃ cause, PackagePattern.parse entry.text = .error cause
        ∧ error = .invalidPattern entry.site cause := by
  refine ⟨?_, ?_⟩
  · intro hstops
    cases hstops with
    | unreadable cause h => exact ⟨cause, h, rfl⟩
    | conflicting source target allowed denied hallowed hdenied =>
        simp only [List.filterMap_append, List.filterMap_cons, hedge, List.filterMap_nil,
          List.append_nil] at hallowed hdenied
        exact absurd hagree (not_agree_of_firstKind? hallowed hdenied)
  · rintro ⟨cause, h, rfl⟩
    exact .unreadable cause h

theorem parseAt_bind_eq_error_iff {α : Type} {site : PatternSite} {text : String}
    {next : PackagePattern → α} :
    (parseAt site text >>= fun pattern => .ok (next pattern)) = .error error ↔
      ∃ cause, PackagePattern.parse text = .error cause ∧ error = .invalidPattern site cause := by
  unfold parseAt
  cases PackagePattern.parse text with
  | ok pattern => simp [Bind.bind, Except.bind]
  | error cause => simp [Bind.bind, Except.bind, eq_comm]

/-- A target stops the reading if it contradicts what was read before. -/
theorem stops_target_iff {i j : Nat} {pattern target : PackagePattern} {kind : RelationKind}
    {text : String} (hagree : Agree (before.filterMap Entry.edge?))
    (htext : PackagePattern.parse text = .ok target) :
    Stops before (.target i pattern kind j text) error ↔
      ∃ earlier, contradicting? (before.filterMap Entry.edge?) (edgeOf pattern kind target)
          = some earlier
        ∧ error = .conflict (edgeOf pattern kind target).source (edgeOf pattern kind target).target
          (if kind.isDenial then earlier.kind else kind)
          (if kind.isDenial then kind else earlier.kind) := by
  have hkind : (edgeOf pattern kind target).kind = kind := by
    unfold edgeOf
    split <;> rfl
  have hedges : (before ++ [Entry.target i pattern kind j text]).filterMap Entry.edge?
      = before.filterMap Entry.edge? ++ [edgeOf pattern kind target] := by
    simp [Entry.edge?, PackagePattern.ofText?_eq_some_iff.mpr htext]
  have hfirst : ∀ {earlier}, contradicting? (before.filterMap Entry.edge?)
        (edgeOf pattern kind target) = some earlier → ∀ denial,
      firstKind? (before.filterMap Entry.edge? ++ [edgeOf pattern kind target])
          (edgeOf pattern kind target).source (edgeOf pattern kind target).target denial
        = some (if denial = kind.isDenial then kind else earlier.kind) := by
    intro earlier hearlier denial
    rw [firstKind?_of_contradicting? hagree hearlier, hkind]
  refine ⟨?_, ?_⟩
  · intro hstops
    cases hstops with
    | unreadable cause h =>
        rw [Entry.text, htext] at h
        cases h
    | conflicting source target' allowed denied hallowed hdenied =>
        rw [hedges] at hallowed hdenied
        obtain ⟨rfl, rfl, earlier, hearlier⟩ :=
          exists_contradicting?_of_firstKind? hagree hallowed hdenied
        rw [hfirst hearlier, Option.some.injEq] at hallowed hdenied
        refine ⟨earlier, hearlier, ?_⟩
        rw [← hallowed, ← hdenied]
        cases kind.isDenial <;> rfl
  · rintro ⟨earlier, hearlier, rfl⟩
    refine .conflicting _ _ _ _ ?_ ?_
    · rw [hedges, hfirst hearlier]
      cases kind.isDenial <;> rfl
    · rw [hedges, hfirst hearlier]
      cases kind.isDenial <;> rfl

/-- Reading an entry fails with the error with which the entry stops the reading. -/
theorem read_eq_error_iff (hagree : Agree (before.filterMap Entry.edge?))
    (hedges : state.edges = before.filterMap Entry.edge?) (entry : Entry) :
    read state entry = .error error ↔ Stops before entry error := by
  cases entry with
  | rule i text | relation i text | external i text =>
      rw [stops_iff_of_edge?_eq_none hagree rfl]
      exact parseAt_bind_eq_error_iff
  | target i pattern kind j text =>
      show (parseAt _ text >>= _) = .error error ↔ _
      cases htext : PackagePattern.parse text with
      | error cause =>
          have hedge : (Entry.target i pattern kind j text).edge? = none := by
            simp [Entry.edge?, PackagePattern.ofText?, htext, Except.toOption]
          rw [stops_iff_of_edge?_eq_none hagree hedge]
          simp [parseAt, htext, Entry.text, Entry.site, Bind.bind, Except.bind, eq_comm]
      | ok target =>
          rw [stops_target_iff hagree htext, ← hedges]
          simp only [parseAt, htext, Bind.bind, Except.bind]
          cases contradicting? state.edges (edgeOf pattern kind target) with
          | none => simp [Pure.pure, Except.pure]
          | some earlier =>
              cases kind.isDenial <;> simp [throw, throwThe, MonadExceptOf.throw, eq_comm]

end Stops

end Sealing

end PackageAudit
