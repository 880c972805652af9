/-
Signatures and their derivations.

A signature can be read exactly if a tree of its kind spells it, as long as the tree is not
nested too deep and no type parameter is mistaken for a bound.  The classes that are reported are
then those that the tree mentions, whatever the tree; so no class is missed, and a type variable
is never taken for a class.
-/
import PackageAudit.Proofs.Ascending
import PackageAudit.Proofs.Orders
import PackageAudit.Proofs.Signature.Types

namespace PackageAudit.Signature

variable {input rest : List Char}

theorem get_eq_ok_iff {s : List Char} :
    (get : Reader (List Char)) input = .ok (s, rest) ↔ input = s ∧ input = rest := by
  show Except.ok (input, input) = Except.ok (s, rest) ↔ _
  simp

/-! ### Type parameters -/

theorem Identifier.exists_text_eq (name : Identifier) :
    ∃ c tail, name.text = c :: tail ∧ isDelimiter c = false := by
  obtain ⟨c, tail, htext⟩ := List.exists_cons_of_ne_nil name.ne_nil
  exact ⟨c, tail, htext, name.isDelimiter_eq_false (by simp [htext])⟩

theorem TypeParameter.exists_text_eq (parameter : TypeParameter) :
    ∃ c tail, parameter.text = c :: tail ∧ isDelimiter c = false
      ∧ parameter.name.text.head? = some c := by
  obtain ⟨c, tail, htext, hc⟩ := parameter.name.exists_text_eq
  exact ⟨c, _, by rw [TypeParameter.text, htext, List.cons_append], hc, by simp [htext]⟩

/-- What may stand behind a type parameter.  One without a bound must not be followed by what looks
like one. -/
def TypeParameter.Before (parameter : TypeParameter) (rest : List Char) : Prop :=
  parameter.depth ≤ maxDepth ∧ startsWith ':' rest = false
    ∧ (parameter.Unbounded → startsReference rest = false)

theorem reads_interfaceBounds :
    Reads (repeatWhile (startsWith ':') (advance >>= fun _ => referenceType maxDepth))
      (List.flatMap fun bound : ReferenceType => ':' :: bound.text)
      (List.map ReferenceType.mentions)
      fun bounds rest => (∀ bound ∈ bounds, bound.depth ≤ maxDepth)
        ∧ startsWith ':' rest = false :=
  ((reads_referenceType maxDepth).repeatBehind ':').congr fun _ _ =>
    and_congr_left fun _ => followed_const

theorem reads_classBound :
    Reads classBound (fun bound : Option ReferenceType => bound.elim [] ReferenceType.text)
      (fun bound => bound.elim [] ReferenceType.mentions)
      fun bound rest => bound.elim 0 ReferenceType.depth ≤ maxDepth
        ∧ (bound = none → startsReference rest = false) := by
  refine ⟨?_, ?_⟩
  · intro input names rest hread
    unfold classBound at hread
    split at hread
    · obtain ⟨bound, hdepth, rfl, rfl⟩ := (reads_referenceType maxDepth).sound hread
      exact ⟨some bound, ⟨hdepth, by simp⟩, rfl, rfl⟩
    · rename_i hstart
      simp only [Except.ok.injEq, Prod.mk.injEq] at hread
      obtain ⟨rfl, rfl⟩ := hread
      exact ⟨none, ⟨Nat.zero_le _, by simpa using hstart⟩, rfl, rfl⟩
  · rintro bound rest ⟨hdepth, hstart⟩
    unfold classBound
    cases bound with
    | none => simp [hstart rfl]
    | some bound =>
        simp only [Option.elim_some, startsReference_text, if_true]
        exact (reads_referenceType maxDepth).complete bound rest hdepth

theorem reads_typeParameter :
    Reads typeParameter TypeParameter.text TypeParameter.mentions TypeParameter.Before := by
  refine ⟨?_, ?_⟩
  · intro input names rest hread
    simp only [typeParameter, bind_eq_ok_iff, expect_eq_ok_iff, pure_eq_ok_iff] at hread
    obtain ⟨_, _, hname, -, _, rfl, _, _, hclass, _, _, hinterfaces, rfl, rfl⟩ := hread
    obtain ⟨interfaces, ⟨hdepth, hcolon⟩, rfl, rfl⟩ := reads_interfaceBounds.sound hinterfaces
    obtain ⟨bound, ⟨hbound, hstart⟩, rfl, rfl⟩ := reads_classBound.sound hclass
    obtain ⟨name, -, rfl, rfl⟩ := reads_identifier.sound hname
    refine ⟨⟨name, bound, interfaces⟩, ⟨?_, hcolon, ?_⟩, ?_, ?_⟩
    · rw [TypeParameter.depth, Nat.max_le, deepest_le_iff]
      exact ⟨hbound, by simpa using hdepth⟩
    · rintro ⟨hnone, hnil⟩
      obtain rfl : interfaces = [] := hnil
      exact hstart hnone
    · simp [TypeParameter.text]
    · simp [TypeParameter.mentions, List.flatMap_def]
  · rintro ⟨name, bound, interfaces⟩ rest ⟨hdepth, hcolon, hunbounded⟩
    rw [TypeParameter.depth, Nat.max_le, deepest_le_iff] at hdepth
    have hstart : bound = none →
        startsReference (interfaces.flatMap (fun bound => ':' :: bound.text) ++ rest) = false := by
      intro hnone
      cases interfaces with
      | nil => exact hunbounded ⟨hnone, rfl⟩
      | cons interface interfaces => simp [startsReference]
    have htext : (TypeParameter.mk name bound interfaces).text ++ rest
        = name.text ++ ':' :: (bound.elim [] ReferenceType.text
          ++ (interfaces.flatMap (fun bound => ':' :: bound.text) ++ rest)) := by
      simp [TypeParameter.text]
    rw [htext]
    simp only [typeParameter, bind_eq_ok_iff, expect_eq_ok_iff, pure_eq_ok_iff]
    refine ⟨_, _, reads_identifier.complete name _ (endsName_cons (by decide)), (), _, rfl, _, _,
      reads_classBound.complete bound _ ⟨hdepth.1, hstart⟩, _, _,
      reads_interfaceBounds.complete interfaces rest ⟨by simpa using hdepth.2, hcolon⟩, ?_, rfl⟩
    simp [TypeParameter.mentions, List.flatMap_def]

/-- Type parameters in a row are read as they are meant if none without a bound stands before one
that looks like a bound. -/
theorem followed_parameters {parameters : List TypeParameter} :
    Followed TypeParameter.text TypeParameter.Before parameters ('>' :: rest) ↔
      (∀ parameter ∈ parameters, parameter.depth ≤ maxDepth) ∧ Separated parameters := by
  unfold Separated
  induction parameters with
  | nil => simp [Followed]
  | cons parameter parameters ih =>
      rw [Followed, ih, List.forall_mem_cons, TypeParameter.Before]
      cases parameters with
      | nil => simp [startsReference]
      | cons next parameters =>
          obtain ⟨c, tail, htext, hc, hhead⟩ := next.exists_text_eq
          have hcolon : startsWith ':' (((next :: parameters).flatMap TypeParameter.text)
              ++ '>' :: rest) = false := by
            have hne : c ≠ ':' := by
              rintro rfl
              simp [isDelimiter] at hc
            simp [htext, hne]
          have hstart : startsReference (((next :: parameters).flatMap TypeParameter.text)
              ++ '>' :: rest) = false
              ↔ next.name.text.head? ≠ some 'L' ∧ next.name.text.head? ≠ some 'T' := by
            have hne : c ≠ '[' := by
              rintro rfl
              simp [isDelimiter] at hc
            simp [htext, hhead, startsReference, hne]
          rw [hcolon, hstart, List.isChain_cons_cons]
          tauto

theorem reads_typeParameters :
    Reads typeParameters
      (fun parameters : List TypeParameter => bracketed (parameters.map TypeParameter.text))
      (List.flatMap TypeParameter.mentions)
      fun parameters rest => ((∀ parameter ∈ parameters, parameter.depth ≤ maxDepth)
        ∧ Separated parameters) ∧ (parameters = [] → startsWith '<' rest = false) := by
  have hread := reads_inBrackets reads_typeParameter
    (fun parameter => by
      obtain ⟨c, tail, htext, -⟩ := parameter.exists_text_eq
      simp [htext])
    (fun parameter rest => by
      obtain ⟨c, tail, htext, hc, -⟩ := parameter.exists_text_eq
      have hne : c ≠ '>' := by
        rintro rfl
        simp [isDelimiter] at hc
      simp [htext, hne])
  refine hread.congr ?_
  intro parameters rest
  unfold BeforeBrackets
  rw [followed_parameters]
  cases parameters with
  | nil => simp [Separated]
  | cons parameter parameters => simp

/-! ### Signatures of classes -/

/-- Class types follow each other up to the end of the text. -/
theorem reads_interfaces :
    Reads (repeatWhile (fun rest => !rest.isEmpty) (classType (referenceType maxDepth)))
      (List.flatMap ClassType.text) (List.map ClassType.mentions)
      fun types rest => (∀ type ∈ types, type.depth ≤ maxDepth) ∧ rest = [] := by
  have hitem := reads_classType (reads_referenceType maxDepth)
  have hread := hitem.repeated (fun rest => !rest.isEmpty)
    (fun type => by
      obtain ⟨tail, htext⟩ := type.exists_text_eq
      simp [htext])
    (fun type rest => by
      obtain ⟨tail, htext⟩ := type.exists_text_eq
      simp [htext])
  refine hread.congr ?_
  intro types rest
  rw [followed_const]
  simp

theorem reads_classSignature :
    Reads classSignature ClassSignature.text ClassSignature.mentions fun signature rest =>
      signature.depth ≤ maxDepth ∧ Separated signature.parameters ∧ rest = [] := by
  have hclass := reads_classType (reads_referenceType maxDepth)
  refine ⟨?_, ?_⟩
  · intro input names rest hread
    simp only [classSignature, bind_eq_ok_iff, pure_eq_ok_iff] at hread
    obtain ⟨_, _, hparameters, _, _, hsuperclass, _, _, hinterfaces, rfl, rfl⟩ := hread
    obtain ⟨interfaces, ⟨hinterfaceDepth, hend⟩, rfl, rfl⟩ := reads_interfaces.sound hinterfaces
    obtain ⟨superclass, hdepth, rfl, rfl⟩ := hclass.sound hsuperclass
    obtain ⟨parameters, ⟨⟨hparameterDepth, hseparated⟩, -⟩, rfl, rfl⟩ :=
      reads_typeParameters.sound hparameters
    refine ⟨⟨parameters, superclass, interfaces⟩, ⟨?_, hseparated, hend⟩, ?_, ?_⟩
    · simp only [ClassSignature.depth, Nat.max_le, deepest_le_iff, List.forall_mem_map]
      exact ⟨hparameterDepth, hdepth, hinterfaceDepth⟩
    · simp [ClassSignature.text]
    · simp [ClassSignature.mentions, List.flatMap_def]
  · rintro ⟨parameters, superclass, interfaces⟩ rest ⟨hdepth, hseparated, hend⟩
    simp only [ClassSignature.depth, Nat.max_le, deepest_le_iff, List.forall_mem_map] at hdepth
    obtain ⟨hparameterDepth, hsuperclassDepth, hinterfaceDepth⟩ := hdepth
    have hopen : startsWith '<' (superclass.text ++ (interfaces.flatMap ClassType.text ++ rest))
        = false := by
      obtain ⟨tail, htext⟩ := superclass.exists_text_eq
      simp [htext]
    have htext : (ClassSignature.mk parameters superclass interfaces).text ++ rest
        = bracketed (parameters.map TypeParameter.text)
          ++ (superclass.text ++ (interfaces.flatMap ClassType.text ++ rest)) := by
      simp [ClassSignature.text]
    rw [htext]
    simp only [classSignature, bind_eq_ok_iff, pure_eq_ok_iff]
    refine ⟨_, _, reads_typeParameters.complete parameters _
        ⟨⟨hparameterDepth, hseparated⟩, fun _ => hopen⟩,
      _, _, hclass.complete superclass _ hsuperclassDepth,
      _, _, reads_interfaces.complete interfaces rest ⟨hinterfaceDepth, hend⟩, ?_, rfl⟩
    simp [ClassSignature.mentions, List.flatMap_def]

/-! ### Signatures of methods -/

theorem reads_arguments :
    Reads (repeatWhile (fun rest => !startsWith ')' rest) (get >>= fun rest =>
        if rest.isEmpty then fail .closeParenthesis else javaType (referenceType maxDepth)))
      (List.flatMap JavaType.text) (List.map JavaType.mentions)
      fun types rest => (∀ type ∈ types, type.depth ≤ maxDepth)
        ∧ startsWith ')' rest = true := by
  have htype := reads_javaType (reads_referenceType maxDepth)
  have hitem : Reads (get >>= fun rest => if rest.isEmpty then fail .closeParenthesis
      else javaType (referenceType maxDepth)) JavaType.text JavaType.mentions
      fun type _ => type.depth ≤ maxDepth := by
    refine ⟨?_, ?_⟩
    · intro input names rest hread
      simp only [bind_eq_ok_iff, get_eq_ok_iff] at hread
      obtain ⟨_, _, ⟨rfl, rfl⟩, hread⟩ := hread
      split at hread
      · exact nomatch hread
      · exact htype.sound hread
    · intro type rest hdepth
      obtain ⟨c, tail, htext, -⟩ := type.exists_text_eq
      have hne : (type.text ++ rest).isEmpty = false := by simp [htext]
      refine bind_eq_ok_iff.mpr ⟨_, _, get_eq_ok_iff.mpr ⟨rfl, rfl⟩, ?_⟩
      rw [hne, if_neg Bool.false_ne_true]
      exact htype.complete type rest hdepth
  have hread := hitem.repeated (fun rest => !startsWith ')' rest)
    (fun type => by
      obtain ⟨c, tail, htext, -⟩ := type.exists_text_eq
      simp [htext])
    (fun type rest => by
      obtain ⟨c, tail, htext, hc, -⟩ := type.exists_text_eq
      simp [htext, hc])
  refine hread.congr ?_
  intro types rest
  rw [followed_const]
  simp

theorem reads_resultType :
    Reads resultType ResultType.text ResultType.mentions fun type _ => type.depth ≤ maxDepth := by
  have htype := reads_javaType (reads_referenceType maxDepth)
  refine ⟨?_, ?_⟩
  · intro input names rest hread
    unfold resultType at hread
    split at hread
    · simp only [Except.ok.injEq, Prod.mk.injEq] at hread
      obtain ⟨rfl, rfl⟩ := hread
      exact ⟨.void, Nat.zero_le _, rfl, rfl⟩
    · obtain ⟨type, hdepth, rfl, rfl⟩ := htype.sound hread
      exact ⟨.value type, hdepth, rfl, rfl⟩
  · intro type rest hdepth
    cases type with
    | void => rfl
    | value type =>
        have hread := htype.complete type rest hdepth
        obtain ⟨c, tail, htext, -, hc⟩ := type.exists_text_eq
        unfold resultType
        rw [ResultType.text, ResultType.mentions]
        rw [htext, List.cons_append] at hread ⊢
        split
        · rename_i heq
          exact absurd (List.cons.inj heq).1 hc
        · exact hread

theorem reads_thrownType :
    Reads thrownType ThrownType.text ThrownType.mentions fun type _ => type.depth ≤ maxDepth := by
  have hclass := reads_classType (reads_referenceType maxDepth)
  refine ⟨?_, ?_⟩
  · intro input names rest hread
    unfold thrownType at hread
    split at hread
    · obtain ⟨type, hdepth, htext, hnames⟩ := hclass.sound hread
      exact ⟨.classType type, hdepth, htext, hnames⟩
    · obtain ⟨name, -, htext, hnames⟩ := reads_typeVariable.sound hread
      exact ⟨.typeVariable name, Nat.zero_le _, htext, hnames⟩
    · exact nomatch hread
  · intro type rest hdepth
    cases type with
    | classType type =>
        have hread := hclass.complete type rest hdepth
        obtain ⟨tail, htail⟩ := type.exists_text_eq
        rw [ThrownType.text, ThrownType.mentions]
        rw [htail] at hread ⊢
        exact hread
    | typeVariable name => exact reads_typeVariable.complete name rest trivial

theorem reads_thrownTypes :
    Reads (repeatWhile (startsWith '^') (advance >>= fun _ => thrownType))
      (List.flatMap fun type : ThrownType => '^' :: type.text) (List.map ThrownType.mentions)
      fun types rest => (∀ type ∈ types, type.depth ≤ maxDepth)
        ∧ startsWith '^' rest = false :=
  (reads_thrownType.repeatBehind '^').congr fun _ _ => and_congr_left fun _ => followed_const

theorem reads_methodSignature :
    Reads methodSignature MethodSignature.text MethodSignature.mentions fun signature rest =>
      signature.depth ≤ maxDepth ∧ Separated signature.parameters
        ∧ startsWith '^' rest = false := by
  refine ⟨?_, ?_⟩
  · intro input names rest hread
    simp only [methodSignature, bind_eq_ok_iff, expect_eq_ok_iff, advance_eq_ok_iff,
      pure_eq_ok_iff] at hread
    obtain ⟨_, _, hparameters, -, _, rfl, _, _, harguments, -, _, hclose, _, _, hresult, _, _,
      hthrown, rfl, rfl⟩ := hread
    obtain ⟨thrown, ⟨hthrownDepth, hend⟩, rfl, rfl⟩ := reads_thrownTypes.sound hthrown
    obtain ⟨result, hresultDepth, rfl, rfl⟩ := reads_resultType.sound hresult
    obtain ⟨arguments, ⟨hargumentDepth, hclosed⟩, rfl, rfl⟩ := reads_arguments.sound harguments
    obtain ⟨parameters, ⟨⟨hparameterDepth, hseparated⟩, -⟩, rfl, rfl⟩ :=
      reads_typeParameters.sound hparameters
    obtain ⟨tail, rfl⟩ := startsWith_iff.mp hclosed
    rw [List.drop_succ_cons, List.drop_zero] at hclose
    refine ⟨⟨parameters, arguments, result, thrown⟩, ⟨?_, hseparated, hend⟩, ?_, ?_⟩
    · simp only [MethodSignature.depth, Nat.max_le, deepest_le_iff, List.forall_mem_map]
      exact ⟨hparameterDepth, hargumentDepth, hresultDepth, hthrownDepth⟩
    · simp [MethodSignature.text, hclose]
    · simp [MethodSignature.mentions, List.flatMap_def]
  · rintro ⟨parameters, arguments, result, thrown⟩ rest ⟨hdepth, hseparated, hend⟩
    simp only [MethodSignature.depth, Nat.max_le, deepest_le_iff, List.forall_mem_map] at hdepth
    obtain ⟨hparameterDepth, hargumentDepth, hresultDepth, hthrownDepth⟩ := hdepth
    have htext : (MethodSignature.mk parameters arguments result thrown).text ++ rest
        = bracketed (parameters.map TypeParameter.text) ++ '(' ::
          (arguments.flatMap JavaType.text ++ ')' :: (result.text
            ++ (thrown.flatMap (fun type => '^' :: type.text) ++ rest))) := by
      simp [MethodSignature.text]
    rw [htext]
    simp only [methodSignature, bind_eq_ok_iff, expect_eq_ok_iff, advance_eq_ok_iff, pure_eq_ok_iff]
    refine ⟨_, _, reads_typeParameters.complete parameters _
        ⟨⟨hparameterDepth, hseparated⟩, fun _ => by simp⟩, (), _, rfl,
      _, _, reads_arguments.complete arguments _ ⟨hargumentDepth, by simp⟩, (), _, rfl,
      _, _, reads_resultType.complete result _ hresultDepth,
      _, _, reads_thrownTypes.complete thrown rest ⟨hthrownDepth, hend⟩, ?_, rfl⟩
    simp [MethodSignature.mentions, List.flatMap_def]

/-! ### Whole signatures -/

/-- A signature is read up to its end. -/
theorem reader_eq_ok_iff {kind : SignatureKind} {names : List String} :
    reader kind input = .ok (names, rest) ↔ grammar kind input = .ok (names, []) ∧ rest = [] := by
  simp only [reader, bind_eq_ok_iff, get_eq_ok_iff]
  refine ⟨?_, ?_⟩
  · rintro ⟨found, left, hread, _, _, ⟨rfl, rfl⟩, hend⟩
    split at hend
    · rename_i hempty
      obtain rfl : left = [] := List.isEmpty_iff.mp hempty
      obtain ⟨rfl, rfl⟩ := pure_eq_ok_iff.mp hend
      exact ⟨hread, rfl⟩
    · exact nomatch hend
  · rintro ⟨hread, rfl⟩
    exact ⟨names, [], hread, [], [], ⟨rfl, rfl⟩, rfl⟩

/-- Each grammar takes whole texts of its trees. -/
theorem grammar_eq_ok_iff {kind : SignatureKind} {names : List String} :
    grammar kind input = .ok (names, []) ↔ ∃ tree : Derivation kind,
      tree.text = input ∧ tree.Separated ∧ tree.depth ≤ maxDepth ∧ tree.mentions = names := by
  cases kind with
  | classType =>
      refine ⟨?_, ?_⟩
      · intro hread
        obtain ⟨signature, ⟨hdepth, hseparated, -⟩, htext, hnames⟩ :=
          reads_classSignature.sound hread
        exact ⟨.classType signature, by rw [htext, List.append_nil]; rfl, hseparated, hdepth,
          hnames⟩
      · rintro ⟨tree, rfl, hseparated, hdepth, rfl⟩
        cases tree with
        | classType signature =>
            have hread := reads_classSignature.complete signature [] ⟨hdepth, hseparated, rfl⟩
            rwa [List.append_nil] at hread
  | field =>
      refine ⟨?_, ?_⟩
      · intro hread
        obtain ⟨type, hdepth, htext, hnames⟩ := (reads_referenceType maxDepth).sound hread
        exact ⟨.field type, by rw [htext, List.append_nil]; rfl, trivial, hdepth, hnames⟩
      · rintro ⟨tree, rfl, -, hdepth, rfl⟩
        cases tree with
        | field type =>
            have hread := (reads_referenceType maxDepth).complete type [] hdepth
            rwa [List.append_nil] at hread
  | method =>
      refine ⟨?_, ?_⟩
      · intro hread
        obtain ⟨signature, ⟨hdepth, hseparated, -⟩, htext, hnames⟩ :=
          reads_methodSignature.sound hread
        exact ⟨.method signature, by rw [htext, List.append_nil]; rfl, hseparated, hdepth, hnames⟩
      · rintro ⟨tree, rfl, hseparated, hdepth, rfl⟩
        cases tree with
        | method signature =>
            have hread := reads_methodSignature.complete signature [] ⟨hdepth, hseparated, rfl⟩
            rwa [List.append_nil] at hread

/-- Whether a tree is a derivation of a signature that can be followed from left to right. -/
structure Derivation.Derives {kind : SignatureKind} (tree : Derivation kind) (signature : String) :
    Prop where
  text_eq : tree.text = signature.toList
  separated : tree.Separated
  depth_le : tree.depth ≤ 256

theorem referencedClasses_eq_ok_iff {kind : SignatureKind} {signature : String}
    {classes : List String} :
    referencedClasses kind signature = .ok classes ↔ ∃ tree : Derivation kind,
      tree.Derives signature ∧ Ascending.ofList tree.mentions = classes := by
  have hread : referencedClasses kind signature = .ok classes ↔
      ∃ names rest, reader kind signature.toList = .ok (names, rest)
        ∧ Ascending.ofList names = classes := by
    unfold referencedClasses
    cases reader kind signature.toList with
    | error failure => simp
    | ok result =>
        obtain ⟨names, rest⟩ := result
        simp
  rw [hread]
  simp only [reader_eq_ok_iff, grammar_eq_ok_iff]
  refine ⟨?_, ?_⟩
  · rintro ⟨names, rest, ⟨⟨tree, htext, hseparated, hdepth, rfl⟩, -⟩, hclasses⟩
    exact ⟨tree, ⟨htext, hseparated, hdepth⟩, hclasses⟩
  · rintro ⟨tree, ⟨htext, hseparated, hdepth⟩, hclasses⟩
    exact ⟨_, [], ⟨⟨tree, htext, hseparated, hdepth, rfl⟩, rfl⟩, hclasses⟩

/-- **A signature is accepted exactly if it has a derivation, and what is reported are the classes
that the derivation mentions**, each once and in order. -/
theorem referencedClasses_exact (kind : SignatureKind) (signature : String) :
    ((∃ classes, referencedClasses kind signature = .ok classes) ↔
        ∃ tree : Derivation kind, tree.Derives signature)
      ∧ ∀ tree : Derivation kind, tree.Derives signature →
        ∃ classes, referencedClasses kind signature = .ok classes ∧ classes.Pairwise (· < ·)
          ∧ ∀ name, name ∈ classes ↔ name ∈ tree.mentions := by
  refine ⟨⟨?_, ?_⟩, ?_⟩
  · rintro ⟨classes, haccepted⟩
    obtain ⟨tree, hderives, -⟩ := referencedClasses_eq_ok_iff.mp haccepted
    exact ⟨tree, hderives⟩
  · rintro ⟨tree, hderives⟩
    exact ⟨_, referencedClasses_eq_ok_iff.mpr ⟨tree, hderives, rfl⟩⟩
  · intro tree hderives
    refine ⟨Ascending.ofList tree.mentions,
      referencedClasses_eq_ok_iff.mpr ⟨tree, hderives, rfl⟩, ?_, fun name => Ascending.mem_ofList⟩
    exact (Ascending.isAscending_ofList tree.mentions).imp compare_string_lt.mp

/-- The tree of a class inside another whose argument is an array of a type variable or below. -/
def sampleTree : Derivation .field :=
  .field (.classType (.mk [⟨['p', 'k', 'g'], by simp, by simp⟩]
    (.mk ⟨['O', 'u', 't', 'e', 'r'], by simp, by simp⟩
      [.bounded .below
        (.array (.reference (.typeVariable ⟨['X'], by simp, by simp⟩)))])
    [.mk ⟨['I', 'n'], by simp, by simp⟩ []]))

/-- The classes of the sample: the outer one and the inner one, and not the type variable. -/
theorem sampleTree_classes :
    sampleTree.Derives "Lpkg/Outer<+[TX;>.In;" ∧ sampleTree.depth = 3
      ∧ ∃ classes, referencedClasses .field "Lpkg/Outer<+[TX;>.In;" = .ok classes
        ∧ ∀ name, name ∈ classes ↔ name = "pkg.Outer" ∨ name = "pkg.Outer$In" := by
  have hdepth : sampleTree.depth = 3 := by
    simp [sampleTree, Derivation.depth, ReferenceType.depth, ClassType.depth,
      SimpleClassType.depth, TypeArgument.depth, JavaType.depth, deepest]
  have hderives : sampleTree.Derives "Lpkg/Outer<+[TX;>.In;" := by
    refine ⟨?_, trivial, by omega⟩
    simp [sampleTree, Derivation.text, ReferenceType.text, ClassType.text, SimpleClassType.text,
      TypeArgument.text, JavaType.text, Variance.text, bracketed]
  have hmentions : sampleTree.mentions = ["pkg.Outer", "pkg.Outer$In"] := by
    simp [sampleTree, Derivation.mentions, ReferenceType.mentions, ClassType.mentions,
      SimpleClassType.mentions, TypeArgument.mentions, JavaType.mentions, ClassType.names,
      SimpleClassType.name]
  obtain ⟨classes, haccepted, -, hclasses⟩ := (referencedClasses_exact _ _).2 sampleTree hderives
  refine ⟨hderives, hdepth, classes, haccepted, fun name => ?_⟩
  rw [hclasses, hmentions]
  simp

-- A type parameter without a bound before one whose name looks like one.
example : (referencedClasses .classType "<A:LB:>LC;").isOk = false := by decide +kernel

end PackageAudit.Signature
