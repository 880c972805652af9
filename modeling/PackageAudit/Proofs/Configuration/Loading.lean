/-
Which documents make a configuration, and what becomes of their rules.

A document is loaded if each of its settings is valid by itself and its packages do not contradict
each other.  The patterns of the rules are read twice, by the check of the document and when
the rules are sealed.  All texts that sealing reads stand at some place of the document, so that
the check finds every fault of a pattern first, and sealing can fail for a conflict only.
-/
import PackageAudit.Proofs.Configuration.Places
import PackageAudit.Proofs.Rules.SealedRules
import PackageAudit.Proofs.Screening

namespace PackageAudit

/-! ### Valid settings -/

/-- Whether the languages are known ones, in either case of letters. -/
def ModelSection.HasLanguages (document : ModelSection) : Prop :=
  ∀ names ∈ document.languages, ∀ name ∈ names,
    Language.lowered name ∈ ["java", "kotlin", "kt"]

/-- Whether the closure mode is one, if it is given. -/
def RulesSection.HasMode (document : RulesSection) : Prop :=
  ∀ name ∈ document.mode, ∃ mode : ClosureMode, mode.name = name

/-- Whether the scope is one, if it is given. -/
def CyclesSection.HasScope (document : CyclesSection) : Prop :=
  ∀ name ∈ document.scope, ∃ scope : CycleScope, scope.name = name

/-- Whether a text without white space at its ends can be read as a pattern for locations: it is not
empty, not just two asterisks, and has no asterisk but at its ends. -/
def LocationPattern.IsText (text : List Char) : Prop :=
  text ≠ [] ∧ text ≠ ['*', '*'] ∧ '*' ∉ text.tail.dropLast

/-- Whether each side of a text can be read as a pattern for locations. -/
def IgnorePattern.IsText (written : String) : Prop :=
  LocationPattern.IsText (sides written.toList).1
    ∧ ∀ target ∈ (sides written.toList).2, LocationPattern.IsText target

theorem exists_bind_eq_ok_iff {ε α β : Type} {x : Except ε α} {f : α → β} :
    (∃ value, (x >>= fun a => .ok (f a)) = .ok value) ↔ ∃ a, x = .ok a := by
  cases x with
  | error e => simp [bind, Except.bind]
  | ok a => simp [bind, Except.bind]

theorem forall_mem_zipIdx_iff {α : Type} {items : List α} {P : α → Prop} :
    (∀ item i, (item, i) ∈ items.zipIdx → P item) ↔ ∀ item ∈ items, P item := by
  refine ⟨?_, fun h item i hmem => h item (List.fst_mem_of_mem_zipIdx hmem)⟩
  intro h item hmem
  obtain ⟨i, hi⟩ := List.mem_iff_getElem?.mp hmem
  exact h item i (List.mem_zipIdx_iff_getElem?.mpr hi)

theorem ModelSection.exists_loadLanguage_iff {name : String} {i : Nat} :
    (∃ language, loadLanguage (name, i) = .ok language) ↔
      Language.lowered name ∈ ["java", "kotlin", "kt"] := by
  unfold loadLanguage Language.parse
  split
  · next language hname =>
      split at hname <;> simp_all
  · next e hname =>
      split at hname <;> simp_all

theorem ModelSection.exists_load_iff (document : ModelSection) :
    (∃ settings, document.load = .ok settings) ↔ document.HasLanguages := by
  unfold load HasLanguages
  cases document.languages with
  | none => simp [bind, Except.bind, pure, Except.pure]
  | some names =>
      refine exists_bind_eq_ok_iff.trans ?_
      simp only [exists_mapM_eq_ok_iff, Prod.forall, exists_loadLanguage_iff,
        forall_mem_zipIdx_iff, Option.mem_some_iff, forall_eq']

theorem RulesSection.exists_loadMode_iff (document : RulesSection) :
    (∃ mode, document.loadMode = .ok mode) ↔ document.HasMode := by
  unfold loadMode HasMode
  cases document.mode with
  | none => simp
  | some name =>
      simp only [Option.mem_some_iff, forall_eq']
      refine ⟨?_, ?_⟩
      · rintro ⟨mode, hmode⟩
        split at hmode
        · next hname => exact ⟨_, hname.symm⟩
        · split at hmode
          · next hname => exact ⟨_, hname.symm⟩
          · cases hmode
      · rintro ⟨mode, rfl⟩
        cases mode <;> exact ⟨_, rfl⟩

theorem CyclesSection.exists_load_iff (document : CyclesSection) :
    (∃ settings, document.load = .ok settings) ↔ document.HasScope := by
  unfold load HasScope
  cases document.scope with
  | none => simp [bind, Except.bind, pure, Except.pure]
  | some name =>
      simp only [Option.mem_some_iff, forall_eq']
      refine ⟨?_, ?_⟩
      · rintro ⟨settings, hload⟩
        split at hload
        · next hname => exact ⟨_, hname.symm⟩
        · split at hload
          · next hname => exact ⟨_, hname.symm⟩
          · cases hload
      · rintro ⟨scope, rfl⟩
        cases scope <;> exact ⟨_, rfl⟩

/-- A text without the asterisks at its ends. -/
def LocationPattern.inner (text : List Char) : List Char :=
  let tail := if text.head? = some '*' then text.drop 1 else text
  if tail.getLast? = some '*' then tail.dropLast else tail

theorem LocationPattern.mem_inner_iff (text : List Char) :
    '*' ∈ inner text ↔ '*' ∈ text.tail.dropLast := by
  refine (PackagePattern.mem_stem_iff _).trans ?_
  cases text with
  | nil => rfl
  | cons c rest =>
      by_cases hc : c = '*'
      · simp [hc]
      · have hopen : (c :: rest).head? ≠ some '*' := by simpa using hc
        rw [if_neg hopen]
        cases rest with
        | nil => rfl
        | cons d rest => simp [Ne.symm hc]

theorem LocationPattern.isText_iff {text : List Char} :
    IsText text ↔ ∃ pattern, ofTrimmed text = .ok pattern := by
  have hcases : ofTrimmed text =
      if text.isEmpty then .error .empty
      else if text = ['*', '*'] || (inner text).contains '*' then
        .error (.misplacedWildcard (String.ofList text))
      else if text = ['*'] then .ok .every
      else if text.head? = some '*' && text.getLast? = some '*' then
        .ok (.containing (String.ofList (inner text)))
      else if text.head? = some '*' then .ok (.ending (String.ofList (inner text)))
      else if text.getLast? = some '*' then .ok (.starting (String.ofList (inner text)))
      else .ok (.exact (String.ofList text)) := rfl
  rw [IsText, ← mem_inner_iff, hcases]
  generalize inner text = part
  by_cases hempty : text = []
  · simp [hempty]
  · by_cases hstars : text = ['*', '*']
    · simp [hstars]
    · by_cases hpart : '*' ∈ part
      · simp [hempty, hstars, hpart]
      · -- All the cases that are left give a pattern.
        simp only [List.isEmpty_iff, hempty, hstars, hpart, List.contains_iff_mem, if_false,
          Bool.or_eq_true, decide_eq_true_eq, or_self, ne_eq, not_false_eq_true, and_self, true_iff]
        split
        · exact ⟨_, rfl⟩
        · split
          · exact ⟨_, rfl⟩
          · split
            · exact ⟨_, rfl⟩
            · split <;> exact ⟨_, rfl⟩

theorem IgnorePattern.isText_iff {written : String} :
    IsText written ↔ ∃ pattern, parse written = .ok pattern := by
  rw [IsText, LocationPattern.isText_iff]
  simp only [parse_eq_ok_iff, LocationPattern.isText_iff]
  cases (sides written.toList).2 with
  | none =>
      refine ⟨?_, ?_⟩
      · rintro ⟨⟨source, hsource⟩, -⟩
        exact ⟨⟨_, source, none⟩, rfl, hsource, rfl⟩
      · rintro ⟨pattern, -, hsource, -⟩
        exact ⟨⟨_, hsource⟩, by simp⟩
  | some target =>
      refine ⟨?_, ?_⟩
      · rintro ⟨⟨source, hsource⟩, htarget⟩
        obtain ⟨location, hlocation⟩ := htarget target rfl
        exact ⟨⟨_, source, some location⟩, rfl, hsource, by rw [Option.mapM_some, hlocation]; rfl⟩
      · rintro ⟨pattern, -, hsource, htarget⟩
        refine ⟨⟨_, hsource⟩, ?_⟩
        rintro _ ⟨⟩
        rw [Option.mapM_some] at htarget
        cases hlocation : LocationPattern.ofTrimmed target with
        | ok location => exact ⟨location, rfl⟩
        | error cause =>
            rw [hlocation] at htarget
            cases htarget

/-! ### Declared rules -/

namespace RuleDeclarations

variable {declarations : RuleDeclarations}

theorem text_mem_texts {entry : Entry} (h : entry ∈ declarations.entries) :
    entry.text ∈ declarations.texts := by
  simp only [entries, Relation.entries, List.mem_append, List.mem_map, List.mem_flatMap,
    List.mem_cons, Option.mem_toList] at h
  simp only [texts, List.mem_append, List.mem_flatMap, List.mem_cons]
  rcases h with (⟨declared, hdeclared, rfl⟩ | ⟨declared, hdeclared, rfl | hrest⟩)
    | ⟨declared, hdeclared, rfl⟩
  · exact Or.inl (Or.inl (List.fst_mem_of_mem_zipIdx hdeclared))
  · exact Or.inl (Or.inr ⟨declared.1, List.fst_mem_of_mem_zipIdx hdeclared, Or.inl rfl⟩)
  · obtain ⟨pattern, -, target, htarget, rfl⟩ := hrest
    exact Or.inl (Or.inr ⟨declared.1, List.fst_mem_of_mem_zipIdx hdeclared,
      Or.inr (List.fst_mem_of_mem_zipIdx htarget)⟩)
  · exact Or.inr (List.fst_mem_of_mem_zipIdx hdeclared)

/-- Where all texts are patterns, nothing but a conflict can be wrong. -/
theorem exists_conflict_of_seal (htexts : ∀ text ∈ declarations.texts, PackagePattern.IsText text)
    {error : RuleSetError} (h : declarations.seal = .error error) :
    ∃ source target allowed denied, error = .conflict source target allowed denied := by
  obtain ⟨before, entry, after, hentries, -, hstops⟩ := declarations.seal_eq_error_iff.mp h
  cases hstops with
  | unreadable cause hcause =>
      have hentry : entry ∈ declarations.entries := by simp [hentries]
      obtain ⟨pattern, hpattern⟩ :=
        PackagePattern.isText_iff.mp (htexts _ (text_mem_texts hentry))
      cases hpattern.symm.trans hcause
  | conflicting source target allowed denied _ _ => exact ⟨source, target, allowed, denied, rfl⟩

end RuleDeclarations

theorem flatMap_filter_of_forall {α β : Type} {keep : α → Bool} {f : α → List β}
    (h : ∀ item, keep item = false → f item = []) (items : List α) :
    (items.filter keep).flatMap f = items.flatMap f := by
  induction items with
  | nil => rfl
  | cons item rest ih =>
      cases hkeep : keep item with
      | true => rw [List.filter_cons_of_pos hkeep, List.flatMap_cons, List.flatMap_cons, ih]
      | false =>
          rw [List.filter_cons_of_neg (by simp [hkeep]), List.flatMap_cons, h item hkeep, ih,
            List.nil_append]

namespace PackageSection

variable {document : PackageSection}

/-- A relation without targets is not declared. -/
theorem mem_declarations {relation : Relation} : relation ∈ document.declarations ↔
    ∃ kind, document.targets kind ≠ []
      ∧ relation = ⟨document.pattern, kind, document.targets kind⟩ := by
  simp only [declarations, relations_eq, List.mem_map, List.mem_filter]
  refine ⟨?_, ?_⟩
  · rintro ⟨_, ⟨⟨kind, -, rfl⟩, htargets⟩, rfl⟩
    exact ⟨kind, by simpa using htargets, rfl⟩
  · rintro ⟨kind, htargets, rfl⟩
    exact ⟨_, ⟨⟨kind, kind.mem_all, rfl⟩, by simpa using htargets⟩, rfl⟩

/-- Nothing is lost by leaving out the relations without targets. -/
theorem flatMap_targetsOf_declarations (pattern : PackagePattern) (kind : RelationKind) :
    document.declarations.flatMap (·.targetsOf pattern kind)
      = if PackagePattern.ofText? document.pattern = some pattern then
          (document.targets kind).filterMap PackagePattern.ofText?
        else [] := by
  have hempty : ∀ declared : RelationKind × List String, (!declared.2.isEmpty) = false →
      Relation.targetsOf ⟨document.pattern, declared.1, declared.2⟩ pattern kind = [] := by
    intro declared hnone
    have htargets : declared.2 = [] := by simpa using hnone
    rw [Relation.targetsOf, htargets, List.filterMap_nil, ite_self]
  rw [declarations, List.flatMap_map]
  refine (flatMap_filter_of_forall hempty _).trans ?_
  rw [relations_eq, List.flatMap_map]
  by_cases hpattern : PackagePattern.ofText? document.pattern = some pattern
  · simp only [Relation.targetsOf, hpattern, true_and, if_true]
    obtain ⟨direction, modality⟩ := kind
    cases direction <;> cases modality <;> simp [RelationKind.all]
  · simp [Relation.targetsOf, hpattern]

end PackageSection

namespace RulesSection

variable (document : RulesSection)

/-- Whether a package declares a dependency, on the side that uses or on the side that is used. -/
def Declares (edge : DeclaredEdge) : Prop :=
  ∃ package ∈ document.packages, ∃ kind, ∃ text ∈ package.targets kind, ∃ pattern target,
    PackagePattern.ofText? package.pattern = some pattern
      ∧ PackagePattern.ofText? text = some target ∧ edge = Sealing.edgeOf pattern kind target

/-- Whether no dependency is declared both allowed and denied. -/
def IsConsistent : Prop :=
  ∀ source target allowed denied, document.Declares ⟨source, target, allowed⟩ →
    document.Declares ⟨source, target, denied⟩ → allowed.isDenial = denied.isDenial

/-- The patterns of the packages. -/
def packagePatterns : List PackagePattern :=
  document.packages.filterMap fun package => PackagePattern.ofText? package.pattern

/-- The patterns of the externals. -/
def externalPatterns : List PackagePattern :=
  document.externals.filterMap PackagePattern.ofText?

/-- The targets that are declared for a pattern with a kind.  Everyone may use an external
package. -/
def targetsOf (pattern : PackagePattern) (kind : RelationKind) : List PackagePattern :=
  document.packages.flatMap (fun package =>
      if PackagePattern.ofText? package.pattern = some pattern then
        (package.targets kind).filterMap PackagePattern.ofText?
      else [])
    ++ if kind = ⟨.usedBy, .may⟩ ∧ pattern ∈ document.externalPatterns then [.every] else []

/-- The rules of a document: one for each pattern of a package, then one for each external that is
none of them, each with the declared targets. -/
structure Yields (rules : RuleSet) : Prop where
  mode : rules.mode.name = document.mode.getD ClosureMode.denyByDefault.name
  allowIntraPackageCycles : rules.allowIntraPackageCycles = document.allowIntraPackageCycles
  patterns : rules.rules.map (·.pattern) = document.packagePatterns.eraseDups
    ++ (document.externalPatterns.filter (· ∉ document.packagePatterns)).eraseDups
  targets : ∀ rule ∈ rules.rules, ∀ kind,
    rule.targets kind = (document.targetsOf rule.pattern kind).eraseDups
  optional : ∀ rule ∈ rules.rules, rule.optional = true ↔ rule.pattern ∈ document.externalPatterns

variable {document}

theorem declares_declarations_iff {mode : ClosureMode} {edge : DeclaredEdge} :
    (document.declarations mode).Declares edge ↔ document.Declares edge := by
  simp only [RuleDeclarations.Declares, declarations, List.mem_flatMap,
    PackageSection.mem_declarations, Relation.Declares]
  refine ⟨?_, ?_⟩
  · rintro ⟨_, ⟨package, hpackage, kind, -, rfl⟩, pattern, hpattern, text, htext, target, htarget,
      rfl⟩
    exact ⟨package, hpackage, kind, text, htext, pattern, target, hpattern, htarget, rfl⟩
  · rintro ⟨package, hpackage, kind, text, htext, pattern, target, hpattern, htarget, rfl⟩
    exact ⟨_, ⟨package, hpackage, kind, List.ne_nil_of_mem htext, rfl⟩, pattern, hpattern, text,
      htext, target, htarget, rfl⟩

theorem consistent_declarations_iff {mode : ClosureMode} :
    (document.declarations mode).Consistent ↔ document.IsConsistent := by
  simp only [RuleDeclarations.Consistent, IsConsistent, declares_declarations_iff]

/-- Whatever sealing reads stands somewhere in the document. -/
theorem exists_textAt?_of_mem_texts {mode : ClosureMode} {text : String}
    (h : text ∈ (document.declarations mode).texts) :
    ∃ site, document.textAt? site = some text := by
  simp only [RuleDeclarations.texts, declarations, List.mem_append, List.mem_map, List.mem_flatMap,
    PackageSection.mem_declarations, List.mem_cons] at h
  rcases h with (⟨package, hpackage, rfl⟩ | ⟨_, ⟨package, hpackage, kind, -, rfl⟩, rfl | htarget⟩)
    | hexternal
  · obtain ⟨i, hi⟩ := List.mem_iff_getElem?.mp hpackage
    exact ⟨.package i, by simp [textAt?, hi]⟩
  · obtain ⟨i, hi⟩ := List.mem_iff_getElem?.mp hpackage
    exact ⟨.package i, by simp [textAt?, hi]⟩
  · obtain ⟨i, hi⟩ := List.mem_iff_getElem?.mp hpackage
    obtain ⟨j, hj⟩ := List.mem_iff_getElem?.mp htarget
    exact ⟨.target i kind j, by simp [textAt?, hi, hj]⟩
  · obtain ⟨i, hi⟩ := List.mem_iff_getElem?.mp hexternal
    exact ⟨.external i, hi⟩

/-- The relations bring in no pattern that is not one of a package. -/
theorem eraseDups_patterns_declarations (mode : ClosureMode) :
    (document.declarations mode).patterns.eraseDups = document.packagePatterns.eraseDups
      ++ (document.externalPatterns.filter (· ∉ document.packagePatterns)).eraseDups := by
  have hpackages : document.packages.map (·.pattern) = (document.declarations mode).rules := rfl
  have hrules : (document.declarations mode).rules.filterMap PackagePattern.ofText?
      = document.packagePatterns := by
    rw [← hpackages, List.filterMap_map]
    rfl
  have hrelations : ∀ pattern ∈ ((document.declarations mode).relations.map (·.pattern)).filterMap
      PackagePattern.ofText?, pattern ∈ document.packagePatterns := by
    intro pattern hpattern
    obtain ⟨text, htext, hpattern⟩ := List.mem_filterMap.mp hpattern
    obtain ⟨relation, hrelation, rfl⟩ := List.mem_map.mp htext
    obtain ⟨package, hpackage, hrelation⟩ := List.mem_flatMap.mp hrelation
    obtain ⟨kind, -, rfl⟩ := PackageSection.mem_declarations.mp hrelation
    exact List.mem_filterMap.mpr ⟨package, hpackage, hpattern⟩
  have hfirst : (document.packagePatterns
      ++ ((document.declarations mode).relations.map (·.pattern)).filterMap
        PackagePattern.ofText?).eraseDups = document.packagePatterns.eraseDups := by
    rw [List.eraseDups_append, List.removeAll, List.filter_eq_nil_iff.mpr, List.eraseDups_nil,
      List.append_nil]
    intro pattern hpattern
    simpa using hrelations pattern hpattern
  rw [RuleDeclarations.patterns, List.filterMap_append, hrules,
    eraseDups_append_congr hfirst rfl, List.eraseDups_append, List.removeAll]
  simp only [List.elem_eq_mem, decide_not]
  rfl

theorem targetsOf_declarations (mode : ClosureMode) (pattern : PackagePattern)
    (kind : RelationKind) :
    (document.declarations mode).targetsOf pattern kind = document.targetsOf pattern kind := by
  rw [RuleDeclarations.targetsOf, targetsOf, declarations, List.flatMap_assoc]
  simp only [PackageSection.flatMap_targetsOf_declarations]
  rfl

theorem yields_sealedRules {mode : ClosureMode} (hmode : document.loadMode = .ok mode) :
    document.Yields (document.declarations mode).sealedRules where
  mode := by
    show mode.name = _
    unfold loadMode at hmode
    split at hmode
    · next hnone =>
        obtain rfl := Except.ok.inj hmode
        rw [hnone]
        rfl
    · next name hsome =>
        rw [hsome, Option.getD_some]
        split at hmode
        · next hname =>
            obtain rfl := Except.ok.inj hmode
            exact hname.symm
        · split at hmode
          · next hname =>
              obtain rfl := Except.ok.inj hmode
              exact hname.symm
          · cases hmode
  allowIntraPackageCycles := rfl
  patterns := by
    rw [← eraseDups_patterns_declarations mode, RuleDeclarations.sealedRules, List.map_map]
    exact List.map_id _
  targets := by
    intro rule hrule kind
    obtain ⟨pattern, -, rfl⟩ := List.mem_map.mp hrule
    rw [RuleDeclarations.targets_ruleOf, targetsOf_declarations]
    rfl
  optional := by
    intro rule hrule
    obtain ⟨pattern, -, rfl⟩ := List.mem_map.mp hrule
    exact decide_eq_true_iff

/-! ### Loading rules -/

theorem loadMode_ne_rules (cause : RuleSetError) : document.loadMode ≠ .error (.rules cause) := by
  unfold loadMode
  split
  · simp
  · split
    · simp
    · split <;> simp

theorem load_eq : document.load = document.loadMode >>= fun mode =>
    document.patterns.forM checkPattern >>= fun _ =>
      (document.declarations mode).seal.mapError .rules := by
  unfold load
  refine congrArg (document.loadMode >>= ·) (funext fun mode => ?_)
  refine congrArg (document.patterns.forM checkPattern >>= ·) (funext fun _ => ?_)
  cases (document.declarations mode).seal <;> rfl

theorem mapError_eq_ok_iff {ε ε' α : Type} {x : Except ε α} {f : ε → ε'} {value : α} :
    x.mapError f = .ok value ↔ x = .ok value := by
  cases x <;> simp [Except.mapError]

theorem load_eq_ok_iff {rules : RuleSet} : document.load = .ok rules ↔
    ∃ mode, document.loadMode = .ok mode
      ∧ (∀ site text, document.textAt? site = some text → PackagePattern.IsText text)
      ∧ document.IsConsistent ∧ rules = (document.declarations mode).sealedRules := by
  simp only [load_eq, bind_eq_ok_iff, mapError_eq_ok_iff,
    RuleDeclarations.seal_eq_ok_iff_sealedRules, consistent_declarations_iff]
  refine exists_congr fun mode => and_congr_right fun _ => ?_
  refine ⟨?_, ?_⟩
  · rintro ⟨⟨⟩, hcheck, -, hconsistent, heq⟩
    exact ⟨forM_checkPattern_eq_ok_iff.mp hcheck, hconsistent, heq⟩
  · rintro ⟨htexts, hconsistent, heq⟩
    refine ⟨(), forM_checkPattern_eq_ok_iff.mpr htexts, ?_, hconsistent, heq⟩
    intro text htext
    obtain ⟨site, hsite⟩ := exists_textAt?_of_mem_texts htext
    exact htexts site text hsite

theorem exists_load_iff : (∃ rules, document.load = .ok rules) ↔ document.HasMode
    ∧ (∀ site text, document.textAt? site = some text → PackagePattern.IsText text)
    ∧ document.IsConsistent := by
  simp only [load_eq_ok_iff, ← exists_loadMode_iff]
  refine ⟨?_, ?_⟩
  · rintro ⟨_, mode, hmode, htexts, hconsistent, -⟩
    exact ⟨⟨mode, hmode⟩, htexts, hconsistent⟩
  · rintro ⟨⟨mode, hmode⟩, htexts, hconsistent⟩
    exact ⟨_, mode, hmode, htexts, hconsistent, rfl⟩

/-- If sealing fails, that is for a conflict between packages. -/
theorem conflict_of_load {cause : RuleSetError} (h : document.load = .error (.rules cause)) :
    ∃ source target allowed denied, cause = .conflict source target allowed denied ∧
      document.Declares ⟨source, target, allowed⟩ ∧ allowed.isDenial = false ∧
      document.Declares ⟨source, target, denied⟩ ∧ denied.isDenial = true := by
  rw [load_eq, bind_eq_error_iff] at h
  rcases h with hmode | ⟨mode, -, h⟩
  · exact absurd hmode (loadMode_ne_rules cause)
  · rcases bind_eq_error_iff.mp h with hcheck | ⟨⟨⟩, hcheck, hseal⟩
    · obtain ⟨-, ⟨site, text⟩, -, -, -, hfault⟩ := forM_eq_error_iff.mp hcheck
      obtain ⟨_, -, hpattern⟩ := checkPattern_eq_error_iff.mp hfault
      cases hpattern
    · have hsealed : (document.declarations mode).seal = .error cause := by
        cases hsealed : (document.declarations mode).seal with
        | ok rules =>
            rw [hsealed] at hseal
            cases hseal
        | error fault =>
            rw [hsealed] at hseal
            exact congrArg Except.error (LoadError.rules.inj (Except.error.inj hseal))
      obtain ⟨source, target, allowed, denied, rfl⟩ :=
        RuleDeclarations.exists_conflict_of_seal (fun text htext => by
          obtain ⟨site, hsite⟩ := exists_textAt?_of_mem_texts htext
          exact forM_checkPattern_eq_ok_iff.mp hcheck site text hsite) hsealed
      obtain ⟨hallowed, hallows, hdenied, hdenies⟩ :=
        (document.declarations mode).declares_of_conflict hsealed
      exact ⟨source, target, allowed, denied, rfl, declares_declarations_iff.mp hallowed, hallows,
        declares_declarations_iff.mp hdenied, hdenies⟩

/-- A text that is no pattern is reported with its place, whatever else is wrong with the rules. -/
theorem exists_load_eq_error (hmode : document.HasMode) {site : RulesSite} {text : String}
    (h : document.textAt? site = some text) (hfault : ¬PackagePattern.IsText text) :
    ∃ site text cause, document.IsFirstFault site text ∧ PackagePattern.parse text = .error cause
      ∧ document.load = .error (.pattern site cause) := by
  obtain ⟨mode, hmode⟩ := document.exists_loadMode_iff.mpr hmode
  obtain ⟨first, found, cause, hfirst, hcause, hcheck⟩ := exists_isFirstFault h hfault
  refine ⟨first, found, cause, hfirst, hcause, ?_⟩
  rw [load_eq, hmode]
  show document.patterns.forM checkPattern >>= _ = _
  rw [hcheck]
  rfl

end RulesSection

/-! ### Loading documents -/

theorem IgnoreSection.exists_load_iff {document : IgnoreSection} {i : Nat} :
    (∃ entry, load (document, i) = .ok entry) ↔
      ∀ text ∈ document.patterns, IgnorePattern.IsText text := by
  have hpattern : ∀ text j, (∃ pattern, loadPattern i (text, j) = .ok pattern) ↔
      IgnorePattern.IsText text := by
    intro text j
    rw [IgnorePattern.isText_iff, loadPattern]
    cases IgnorePattern.parse text <;> simp
  refine exists_bind_eq_ok_iff.trans ?_
  simp only [exists_mapM_eq_ok_iff, Prod.forall, hpattern, forall_mem_zipIdx_iff]

theorem ModelSection.load_ne_rules (document : ModelSection) (cause : RuleSetError) :
    document.load ≠ .error (.rules cause) := by
  unfold load
  intro h
  cases hnames : document.languages with
  | none =>
      rw [hnames] at h
      cases h
  | some names =>
      rw [hnames] at h
      rcases bind_eq_error_iff.mp h with hnames | ⟨languages, -, h⟩
      · obtain ⟨named, -, hname⟩ := exists_mem_of_mapM_eq_error hnames
        unfold loadLanguage at hname
        split at hname <;> cases hname
      · cases h

theorem CyclesSection.load_ne_rules (document : CyclesSection) (cause : RuleSetError) :
    document.load ≠ .error (.rules cause) := by
  unfold load
  cases document.scope with
  | none => simp [bind, Except.bind, pure, Except.pure]
  | some name =>
      intro h
      simp only at h
      split at h
      · cases h
      · split at h <;> cases h

theorem IgnoreSection.load_ne_rules (placed : IgnoreSection × Nat) (cause : RuleSetError) :
    load placed ≠ .error (.rules cause) := by
  intro h
  rcases bind_eq_error_iff.mp h with hpatterns | ⟨patterns, -, h⟩
  · obtain ⟨named, -, hpattern⟩ := exists_mem_of_mapM_eq_error hpatterns
    unfold loadPattern at hpattern
    split at hpattern <;> cases hpattern
  · cases h

namespace ConfigurationDocument

/-- A document that makes a configuration. -/
structure IsValid (document : ConfigurationDocument) : Prop where
  languages : document.model.HasLanguages
  mode : ∀ rules ∈ document.rules, rules.HasMode
  patterns : ∀ rules ∈ document.rules, ∀ site text, rules.textAt? site = some text →
    PackagePattern.IsText text
  consistent : ∀ rules ∈ document.rules, rules.IsConsistent
  scope : document.cycles.HasScope
  ignores : ∀ entry ∈ document.ignores, ∀ text ∈ entry.patterns, IgnorePattern.IsText text

variable {document : ConfigurationDocument}

theorem load_eq_ok_iff {config : Configuration} : document.load = .ok config ↔
    document.model.load = .ok config.model ∧
      document.rules.mapM RulesSection.load = .ok config.rules ∧
      document.cycles.load = .ok config.cycles ∧
      document.ignores.zipIdx.mapM IgnoreSection.load = .ok config.ignores := by
  simp only [load, bind_eq_ok_iff]
  refine ⟨?_, ?_⟩
  · rintro ⟨model, hmodel, rules, hrules, cycles, hcycles, ignores, hignores, hconfig⟩
    obtain rfl := Except.ok.inj hconfig
    exact ⟨hmodel, hrules, hcycles, hignores⟩
  · rintro ⟨hmodel, hrules, hcycles, hignores⟩
    exact ⟨_, hmodel, _, hrules, _, hcycles, _, hignores, rfl⟩

/-- Rules that are left out load as none, and others as what they make. -/
theorem mapM_load_eq_ok_iff {given : Option RulesSection} {loaded : Option RuleSet} :
    given.mapM RulesSection.load = .ok loaded ↔
      given.map RulesSection.load = loaded.map .ok := by
  cases given with
  | none => cases loaded <;> simp [pure, Except.pure]
  | some rules =>
      cases hload : rules.load <;> cases loaded <;> simp [hload, Functor.map, Except.map]

theorem exists_load_iff : (∃ config, document.load = .ok config) ↔ document.IsValid := by
  have hrules : (∃ loaded, document.rules.mapM RulesSection.load = .ok loaded) ↔
      ∀ rules ∈ document.rules, rules.HasMode
        ∧ (∀ site text, rules.textAt? site = some text → PackagePattern.IsText text)
        ∧ rules.IsConsistent := by
    simp only [mapM_load_eq_ok_iff, ← RulesSection.exists_load_iff]
    cases document.rules with
    | none => exact ⟨fun _ _ hmem => absurd hmem (Option.not_mem_none _), fun _ => ⟨none, rfl⟩⟩
    | some rules =>
        simp only [Option.mem_some_iff, forall_eq']
        refine ⟨?_, ?_⟩
        · rintro ⟨loaded, hload⟩
          cases loaded with
          | none => cases hload
          | some sealedRules => exact ⟨sealedRules, Option.some.inj hload⟩
        · rintro ⟨sealedRules, hload⟩
          exact ⟨some sealedRules, congrArg some hload⟩
  have hignores : (∃ loaded, document.ignores.zipIdx.mapM IgnoreSection.load = .ok loaded) ↔
      ∀ entry ∈ document.ignores, ∀ text ∈ entry.patterns, IgnorePattern.IsText text := by
    simp only [exists_mapM_eq_ok_iff, Prod.forall, IgnoreSection.exists_load_iff,
      forall_mem_zipIdx_iff]
  refine ⟨?_, ?_⟩
  · rintro ⟨config, hload⟩
    obtain ⟨hmodel, hloaded, hcycles, hentries⟩ := load_eq_ok_iff.mp hload
    have hvalid := hrules.mp ⟨_, hloaded⟩
    exact {
      languages := document.model.exists_load_iff.mp ⟨_, hmodel⟩
      mode := fun rules hmem => (hvalid rules hmem).1
      patterns := fun rules hmem => (hvalid rules hmem).2.1
      consistent := fun rules hmem => (hvalid rules hmem).2.2
      scope := document.cycles.exists_load_iff.mp ⟨_, hcycles⟩
      ignores := hignores.mp ⟨_, hentries⟩ }
  · intro h
    obtain ⟨model, hmodel⟩ := document.model.exists_load_iff.mpr h.languages
    obtain ⟨rules, hloaded⟩ := hrules.mpr fun rules hmem =>
      ⟨h.mode rules hmem, h.patterns rules hmem, h.consistent rules hmem⟩
    obtain ⟨cycles, hcycles⟩ := document.cycles.exists_load_iff.mpr h.scope
    obtain ⟨ignores, hentries⟩ := hignores.mpr h.ignores
    exact ⟨⟨model, rules, cycles, ignores⟩, load_eq_ok_iff.mpr ⟨hmodel, hloaded, hcycles, hentries⟩⟩

theorem load_eq_error_of_rules (hlanguages : document.model.HasLanguages) {rules : RulesSection}
    (hrules : document.rules = some rules) {error : LoadError} (h : rules.load = .error error) :
    document.load = .error error := by
  obtain ⟨model, hmodel⟩ := document.model.exists_load_iff.mpr hlanguages
  rw [load, hmodel, hrules, Option.mapM_some, h]
  rfl

/-- Only the rules can fail with an error of the rules. -/
theorem exists_load_eq_rules {cause : RuleSetError} (h : document.load = .error (.rules cause)) :
    ∃ rules, document.rules = some rules ∧ rules.load = .error (.rules cause) := by
  rw [load, bind_eq_error_iff] at h
  rcases h with hmodel | ⟨model, -, h⟩
  · exact absurd hmodel (document.model.load_ne_rules cause)
  rcases bind_eq_error_iff.mp h with hrules | ⟨rules, -, h⟩
  · cases hdocument : document.rules with
    | none =>
        rw [hdocument] at hrules
        cases hrules
    | some rules =>
        refine ⟨rules, rfl, ?_⟩
        rw [hdocument, Option.mapM_some] at hrules
        cases hload : rules.load with
        | ok loaded =>
            rw [hload] at hrules
            cases hrules
        | error fault =>
            rw [hload] at hrules
            exact congrArg Except.error (Except.error.inj hrules)
  rcases bind_eq_error_iff.mp h with hcycles | ⟨cycles, -, h⟩
  · exact absurd hcycles (document.cycles.load_ne_rules cause)
  rcases bind_eq_error_iff.mp h with hignores | ⟨ignores, -, h⟩
  · obtain ⟨entry, -, hentry⟩ := exists_mem_of_mapM_eq_error hignores
    exact absurd hentry (IgnoreSection.load_ne_rules entry cause)
  · cases h

/-- **Loading finds the first fault of a document, and rules that are as declared.**  It succeeds if
and only if every setting is valid and no package contradicts another.  With valid languages and a
valid mode, a text of the rules that is no pattern is reported with the first place where there is
one, so that a fault in the rules as a whole is always a conflict.  Loaded rules are those of
the packages in their order, then those of the other externals, with the declared targets. -/
theorem load_exact (document : ConfigurationDocument) :
    ((∃ config, document.load = .ok config) ↔ document.IsValid) ∧
    (∀ rules ∈ document.rules, document.model.HasLanguages → rules.HasMode →
      ∀ site text, rules.textAt? site = some text → ¬PackagePattern.IsText text →
        ∃ first found cause, rules.IsFirstFault first found
          ∧ PackagePattern.parse found = .error cause
          ∧ document.load = .error (.pattern first cause)) ∧
    (∀ cause, document.load = .error (.rules cause) →
      ∃ rules ∈ document.rules, ∃ source target allowed denied,
        cause = .conflict source target allowed denied ∧
          rules.Declares ⟨source, target, allowed⟩ ∧ allowed.isDenial = false ∧
          rules.Declares ⟨source, target, denied⟩ ∧ denied.isDenial = true) ∧
    ∀ config, document.load = .ok config →
      config.rules.isSome = document.rules.isSome ∧
        ∀ rules ∈ document.rules, ∀ loaded ∈ config.rules, rules.Yields loaded := by
  refine ⟨exists_load_iff, ?_, ?_, ?_⟩
  · intro rules hrules hlanguages hmode site text htext hfault
    obtain ⟨first, found, cause, hfirst, hcause, hload⟩ :=
      RulesSection.exists_load_eq_error hmode htext hfault
    exact ⟨first, found, cause, hfirst, hcause, load_eq_error_of_rules hlanguages hrules hload⟩
  · intro cause hload
    obtain ⟨rules, hrules, hload⟩ := exists_load_eq_rules hload
    exact ⟨rules, hrules, RulesSection.conflict_of_load hload⟩
  · intro config hload
    have hloaded := mapM_load_eq_ok_iff.mp (load_eq_ok_iff.mp hload).2.1
    refine ⟨?_, ?_⟩
    · simpa using (congrArg Option.isSome hloaded).symm
    · intro rules hrules loaded hmem
      rw [show document.rules = some rules from hrules, show config.rules = some loaded from hmem]
        at hloaded
      obtain ⟨mode, hmode, -, -, rfl⟩ := RulesSection.load_eq_ok_iff.mp (Option.some.inj hloaded)
      exact RulesSection.yields_sealedRules hmode

/-- Rules with several texts that are no patterns, and with a conflict. -/
def faultyRules : RulesSection where
  mode := some "allow-by-default"
  externals := ["java.*", " * "]
  packages := [
    { pattern := "app.api", mayUse := ["lib"], mustUse := ["x", " "], mustNotUse := ["lib"] },
    { pattern := "", mayUse := ["**"] }]

/-- A document with these rules, and with faults in what comes behind them. -/
def faulty : ConfigurationDocument where
  model := { languages := some ["Java", "kt"] }
  rules := some faultyRules
  cycles := { scope := some "all" }
  ignores := [⟨"legacy", ["->"]⟩]

theorem faulty_load : faulty.model.HasLanguages ∧ faultyRules.HasMode ∧
    faultyRules.textAt? (.package 1) = some "" ∧
    ∃ first found cause, faultyRules.IsFirstFault first found
      ∧ PackagePattern.parse found = .error cause
      ∧ faulty.load = .error (.pattern first cause)
      ∧ first.text = "rules.package[0].must-use[1]" := by
  have hlanguages : faulty.model.HasLanguages := by
    rintro _ ⟨⟩
    decide +kernel
  have hmode : faultyRules.HasMode := by
    rintro _ ⟨⟩
    exact ⟨.allowByDefault, rfl⟩
  have hload : faulty.load = .error (.pattern (.target 0 ⟨.uses, .must⟩ 1) .empty) := by
    decide +kernel
  obtain ⟨first, found, cause, hfirst, hcause, hfaulty⟩ :=
    (load_exact faulty).2.1 faultyRules rfl hlanguages hmode (.package 1) "" rfl
      fun htext => htext.1 (by decide +kernel)
  obtain ⟨rfl, rfl⟩ := LoadError.pattern.inj (Except.error.inj (hfaulty.symm.trans hload))
  exact ⟨hlanguages, hmode, rfl, _, found, _, hfirst, hcause, hfaulty, by decide +kernel⟩

end ConfigurationDocument

end PackageAudit
