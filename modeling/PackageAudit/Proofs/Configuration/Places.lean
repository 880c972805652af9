/-
The places of a document where the patterns of packages stand.

A place is looked up by its path.  The paths are ordered as they follow each other in a
document, and the list that is checked goes through exactly the places that hold a text, in that
order.  So the first fault of the list is the first one of the document.
-/
import Mathlib.Data.List.Pairwise
import PackageAudit.Configuration.Document
import PackageAudit.Proofs.Rules.Entries
import PackageAudit.Proofs.Traversal

namespace PackageAudit

/-- The targets of a kind. -/
def PackageSection.targets (document : PackageSection) : RelationKind → List String
  | ⟨.uses, .may⟩ => document.mayUse
  | ⟨.uses, .must⟩ => document.mustUse
  | ⟨.uses, .mustNot⟩ => document.mustNotUse
  | ⟨.usedBy, .may⟩ => document.mayBeUsedBy
  | ⟨.usedBy, .must⟩ => document.mustBeUsedBy
  | ⟨.usedBy, .mustNot⟩ => document.mustNotBeUsedBy

theorem PackageSection.relations_eq (document : PackageSection) :
    document.relations = RelationKind.all.map fun kind => (kind, document.targets kind) := rfl

theorem RelationKind.mem_all (kind : RelationKind) : kind ∈ all := by
  obtain ⟨direction, modality⟩ := kind
  cases direction <;> cases modality <;> decide

/-- The text at a place, if there is one. -/
def RulesSection.textAt? (document : RulesSection) : RulesSite → Option String
  | .external i => document.externals[i]?
  | .package i => document.packages[i]?.map (·.pattern)
  | .target i kind j => document.packages[i]?.bind fun package => (package.targets kind)[j]?

/-- A place as the numbers that lead to it: the externals come before the packages, the pattern of a
package before its targets, and the kinds of targets in their order. -/
def RulesSite.heading : RulesSite → List Nat
  | .external i => [0, i]
  | .package i => [1, i]
  | .target i kind j => [1, i, RelationKind.all.idxOf kind, j]

/-- A place where a text is no pattern, with none before it. -/
structure RulesSection.IsFirstFault (document : RulesSection) (site : RulesSite) (text : String) :
    Prop where
  here : document.textAt? site = some text
  fault : ¬PackagePattern.IsText text
  before : ∀ earlier valid, document.textAt? earlier = some valid →
    earlier.heading < site.heading → PackagePattern.IsText valid

/-! ### The list of places -/

theorem pairwise_zipIdx {α : Type} (items : List α) :
    items.zipIdx.Pairwise fun a b => a.2 < b.2 := by
  rw [← List.pairwise_map (f := Prod.snd), List.zipIdx_map_snd]
  exact List.pairwise_lt_range' ..

theorem PackageSection.mem_patterns {document : PackageSection} {i : Nat} {site : RulesSite}
    {text : String} : (site, text) ∈ document.patterns i ↔
      (site = .package i ∧ text = document.pattern)
        ∨ ∃ kind j, site = .target i kind j ∧ (document.targets kind)[j]? = some text := by
  simp only [patterns, relations_eq, List.flatMap_map, List.mem_cons, Prod.mk.injEq,
    List.mem_flatMap, List.mem_map, RelationKind.mem_all, true_and, Prod.exists,
    List.mem_zipIdx_iff_getElem?]
  refine or_congr_right (exists_congr fun kind => ?_)
  refine ⟨?_, ?_⟩
  · rintro ⟨target, j, htarget, rfl, rfl⟩
    exact ⟨j, rfl, htarget⟩
  · rintro ⟨j, rfl, htarget⟩
    exact ⟨text, j, htarget, rfl, rfl⟩

theorem PackageSection.pairwise_patterns (document : PackageSection) (i : Nat) :
    (document.patterns i).Pairwise fun a b => a.1.heading < b.1.heading := by
  have hkinds : RelationKind.all.Pairwise fun a b =>
      RelationKind.all.idxOf a < RelationKind.all.idxOf b := by decide
  rw [patterns, List.pairwise_cons, relations_eq, List.flatMap_map, List.pairwise_flatMap]
  refine ⟨?_, ?_, ?_⟩
  · intro placed hplaced
    obtain ⟨kind, -, hplaced⟩ := List.mem_flatMap.mp hplaced
    obtain ⟨target, -, rfl⟩ := List.mem_map.mp hplaced
    simp [RulesSite.heading]
  · intro kind _
    rw [List.pairwise_map]
    refine (pairwise_zipIdx _).imp ?_
    intro a b hlt
    simpa [RulesSite.heading, List.cons_lt_cons_iff] using hlt
  · refine hkinds.imp ?_
    intro kind other hlt placed hplaced later hlater
    obtain ⟨target, -, rfl⟩ := List.mem_map.mp hplaced
    obtain ⟨target', -, rfl⟩ := List.mem_map.mp hlater
    simp [RulesSite.heading, List.cons_lt_cons_iff, hlt]

namespace RulesSection

variable {document : RulesSection} {site : RulesSite} {text : String}

theorem mem_patterns : (site, text) ∈ document.patterns ↔ document.textAt? site = some text := by
  simp only [patterns, List.mem_append, List.mem_map, List.mem_flatMap, Prod.exists,
    PackageSection.mem_patterns, List.mem_zipIdx_iff_getElem?, Prod.mk.injEq]
  cases site with
  | external i => simp [textAt?]
  | package i => simp [textAt?, Option.map_eq_some_iff, eq_comm (a := text)]
  | target i kind j => simp [textAt?, Option.bind_eq_some_iff]

theorem pairwise_patterns (document : RulesSection) :
    document.patterns.Pairwise fun a b => a.1.heading < b.1.heading := by
  rw [patterns, List.pairwise_append, List.pairwise_map, List.pairwise_flatMap]
  refine ⟨?_, ⟨fun placed _ => placed.1.pairwise_patterns placed.2, ?_⟩, ?_⟩
  · refine (pairwise_zipIdx _).imp ?_
    intro a b hlt
    simpa [RulesSite.heading, List.cons_lt_cons_iff] using hlt
  · refine (pairwise_zipIdx _).imp ?_
    rintro a b hlt ⟨site, text⟩ hplaced ⟨site', text'⟩ hlater
    rcases PackageSection.mem_patterns.mp hplaced with ⟨rfl, -⟩ | ⟨kind, j, rfl, -⟩ <;>
      rcases PackageSection.mem_patterns.mp hlater with ⟨rfl, -⟩ | ⟨kind', j', rfl, -⟩ <;>
      simp [RulesSite.heading, List.cons_lt_cons_iff, hlt]
  · rintro external hexternal ⟨site, text⟩ hlater
    obtain ⟨placed, -, rfl⟩ := List.mem_map.mp hexternal
    obtain ⟨package, -, hlater⟩ := List.mem_flatMap.mp hlater
    rcases PackageSection.mem_patterns.mp hlater with ⟨rfl, -⟩ | ⟨kind, j, rfl, -⟩ <;>
      simp [RulesSite.heading, List.cons_lt_cons_iff]

/-! ### The first fault -/

theorem checkPattern_eq_ok_iff :
    checkPattern (site, text) = .ok () ↔ PackagePattern.IsText text := by
  rw [PackagePattern.isText_iff, checkPattern]
  cases PackagePattern.parse text <;> simp

theorem checkPattern_eq_error_iff {error : LoadError} : checkPattern (site, text) = .error error ↔
    ∃ cause, PackagePattern.parse text = .error cause ∧ error = .pattern site cause := by
  rw [checkPattern]
  cases PackagePattern.parse text <;> simp [eq_comm]

theorem forM_checkPattern_eq_ok_iff : document.patterns.forM checkPattern = .ok () ↔
    ∀ site text, document.textAt? site = some text → PackagePattern.IsText text := by
  simp only [forM_eq_ok_iff, Prod.forall, checkPattern_eq_ok_iff, mem_patterns]

/-- If some text is no pattern, checking stops at the first one in the document. -/
theorem exists_isFirstFault (h : document.textAt? site = some text)
    (hfault : ¬PackagePattern.IsText text) :
    ∃ site text cause, document.IsFirstFault site text ∧ PackagePattern.parse text = .error cause
      ∧ document.patterns.forM checkPattern = .error (.pattern site cause) := by
  cases hcheck : document.patterns.forM checkPattern with
  | ok _ => exact absurd (forM_checkPattern_eq_ok_iff.mp hcheck site text h) hfault
  | error error =>
      obtain ⟨before, ⟨first, found⟩, after, hpatterns, hbefore, herror⟩ :=
        forM_eq_error_iff.mp hcheck
      obtain ⟨cause, hcause, rfl⟩ := checkPattern_eq_error_iff.mp herror
      have hmem : (first, found) ∈ document.patterns := by simp [hpatterns]
      refine ⟨first, found, cause, ⟨mem_patterns.mp hmem, ?_, ?_⟩, hcause, rfl⟩
      · intro htext
        obtain ⟨pattern, hpattern⟩ := PackagePattern.isText_iff.mp htext
        cases hpattern.symm.trans hcause
      · intro earlier valid hearlier hlt
        have hsorted := document.pairwise_patterns
        rw [hpatterns, List.pairwise_append, List.pairwise_cons] at hsorted
        rw [← mem_patterns, hpatterns, List.mem_append, List.mem_cons] at hearlier
        rcases hearlier with hearlier | heq | hlater
        · exact checkPattern_eq_ok_iff.mp (hbefore _ hearlier)
        · obtain ⟨rfl, -⟩ := Prod.mk.inj heq
          exact absurd hlt (List.lt_irrefl _)
        · exact absurd hlt (List.lt_asymm (hsorted.2.1.1 _ hlater))

end RulesSection

end PackageAudit
