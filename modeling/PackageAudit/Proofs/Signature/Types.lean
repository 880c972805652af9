/-
How types are read.

Types lie inside one another, and the reader of reference types is given the number of levels
that are left.  So the trees that it takes are those that are not deeper than that number, and
the proof goes by induction on it: what is said here of class types, arrays and type arguments
holds for any reader of the reference types inside them.
-/
import PackageAudit.Proofs.Signature.Reading

namespace PackageAudit.Signature

variable {input rest : List Char} {levels : Nat}

/-! ### How the text of a type starts -/

theorem isPrimitive_iff {c : Char} : isPrimitive c = true ↔ ∃ type : Primitive, type.mark = c := by
  unfold isPrimitive
  simp only [Bool.or_eq_true, beq_iff_eq]
  refine ⟨?_, ?_⟩
  · rintro (((((((rfl | rfl) | rfl) | rfl) | rfl) | rfl) | rfl) | rfl)
    · exact ⟨.byte, rfl⟩
    · exact ⟨.char, rfl⟩
    · exact ⟨.double, rfl⟩
    · exact ⟨.float, rfl⟩
    · exact ⟨.int, rfl⟩
    · exact ⟨.long, rfl⟩
    · exact ⟨.short, rfl⟩
    · exact ⟨.boolean, rfl⟩
  · rintro ⟨type, rfl⟩
    cases type <;> simp [Primitive.mark]

theorem ClassType.exists_text_eq (type : ClassType) : ∃ tail, type.text = 'L' :: tail := by
  obtain ⟨package, outer, suffixes⟩ := type
  rw [ClassType.text]
  exact ⟨_, by simp only [List.cons_append]; rfl⟩

theorem ReferenceType.exists_text_eq (type : ReferenceType) :
    ∃ c tail, type.text = c :: tail ∧ (c = 'L' ∨ c = 'T' ∨ c = '[') := by
  cases type with
  | classType type =>
      obtain ⟨tail, htail⟩ := type.exists_text_eq
      exact ⟨'L', tail, by rw [ReferenceType.text, htail], by simp⟩
  | typeVariable name => exact ⟨'T', _, by rw [ReferenceType.text, List.cons_append], by simp⟩
  | array element => exact ⟨'[', _, by rw [ReferenceType.text], by simp⟩

theorem startsReference_text (type : ReferenceType) (rest : List Char) :
    startsReference (type.text ++ rest) = true := by
  obtain ⟨c, tail, htext, rfl | rfl | rfl⟩ := type.exists_text_eq <;>
  · rw [htext]
    simp [startsReference]

theorem TypeArgument.exists_text_eq (argument : TypeArgument) :
    ∃ c tail, argument.text = c :: tail ∧ c ≠ '>' := by
  cases argument with
  | wildcard => exact ⟨'*', [], by rw [TypeArgument.text], by decide⟩
  | bounded variance type =>
      obtain ⟨c, tail, htext, hc⟩ := type.exists_text_eq
      cases variance with
      | exact =>
          refine ⟨c, tail, by rw [TypeArgument.text, htext]; rfl, ?_⟩
          rcases hc with rfl | rfl | rfl <;> decide
      | below => exact ⟨'+', _, by rw [TypeArgument.text]; rfl, by decide⟩
      | above => exact ⟨'-', _, by rw [TypeArgument.text]; rfl, by decide⟩

theorem JavaType.exists_text_eq (type : JavaType) :
    ∃ c tail, type.text = c :: tail ∧ c ≠ ')' ∧ c ≠ 'V' := by
  cases type with
  | primitive type => exact ⟨type.mark, [], by rw [JavaType.text], by cases type <;> decide⟩
  | reference type =>
      obtain ⟨c, tail, htext, hc⟩ := type.exists_text_eq
      refine ⟨c, tail, by rw [JavaType.text, htext], ?_⟩
      rcases hc with rfl | rfl | rfl <;> decide

theorem deepest_le_iff {depths : List Nat} {n : Nat} :
    deepest depths ≤ n ↔ ∀ depth ∈ depths, depth ≤ n := by
  unfold deepest
  induction depths with
  | nil => simp
  | cons depth depths ih => rw [List.foldr_cons, Nat.max_le, ih, List.forall_mem_cons]

/-! ### Types inside types -/

theorem reads_typeVariable :
    Reads typeVariable (fun name : Identifier => 'T' :: name.text ++ [';']) (fun _ => [])
      fun _ _ => True where
  sound := by
    intro input names rest h
    simp only [typeVariable, bind_eq_ok_iff, expect_eq_ok_iff, pure_eq_ok_iff] at h
    obtain ⟨-, mid, rfl, _, mid', hname, -, end_, rfl, rfl, rfl⟩ := h
    obtain ⟨name, -, rfl, rfl⟩ := reads_identifier.sound hname
    exact ⟨name, trivial, by simp, rfl⟩
  complete := by
    intro name rest _
    simp only [typeVariable, bind_eq_ok_iff, expect_eq_ok_iff, pure_eq_ok_iff]
    refine ⟨(), name.text ++ ';' :: rest, by simp, name.text, ';' :: rest, ?_, (), rest, rfl,
      trivial, rfl⟩
    exact reads_identifier.complete name _ (endsName_cons (by decide))

/-! ### The name of a class -/

theorem exists_path (first : Identifier) (segments : List Identifier) :
    ∃ package name, package ++ [name] = first :: segments :=
  ⟨_, _, List.dropLast_append_getLast (List.cons_ne_nil first segments)⟩

/-- A path is the same whether the separator is counted to the part before or behind it. -/
theorem path_text (c : Char) {package : List Identifier} {name first : Identifier}
    {segments : List Identifier} (h : package ++ [name] = first :: segments) :
    package.flatMap (fun part => part.text ++ [c]) ++ name.text
      = first.text ++ segments.flatMap fun part => c :: part.text := by
  induction package generalizing first segments with
  | nil =>
      obtain ⟨rfl, rfl⟩ := List.cons.inj h
      simp
  | cons part package ih =>
      obtain ⟨rfl, htail⟩ := List.cons.inj h
      cases segments with
      | nil => simp at htail
      | cons next segments =>
          have hpath := ih htail
          simp only [List.flatMap_cons, List.append_assoc] at hpath ⊢
          rw [hpath]
          simp

theorem suffixNames_eq (name : List Char) (suffixes : List SimpleClassType) :
    suffixNames name (suffixes.map fun suffix => suffix.name.text)
      = suffixes.inits.map fun steps => String.ofList
          (name ++ steps.flatMap fun step => '$' :: step.name.text) := by
  induction suffixes generalizing name with
  | nil => simp [suffixNames]
  | cons suffix suffixes ih => simp [suffixNames, ih, Function.comp_def]

theorem names_eq {package : List Identifier} {name first : Identifier}
    {segments : List Identifier} (h : package ++ [name] = first :: segments)
    (arguments : List TypeArgument) (suffixes : List SimpleClassType) :
    (ClassType.mk package (.mk name arguments) suffixes).names
      = suffixNames (first.text ++ segments.flatMap fun part => '.' :: part.text)
          (suffixes.map fun suffix => suffix.name.text) := by
  rw [suffixNames_eq, ClassType.names, SimpleClassType.name, path_text '.' h]

/-- Behind a class inside another comes either the next one or the end of the class type. -/
theorem followed_suffixes {suffixes : List SimpleClassType} :
    Followed (fun suffix : SimpleClassType => '.' :: suffix.text)
        (fun type rest => type.depth ≤ levels
          ∧ (type.arguments = [] → EndsName rest ∧ startsWith '<' rest = false))
        suffixes (';' :: rest)
      ↔ ∀ suffix ∈ suffixes, suffix.depth ≤ levels := by
  refine followed_iff_forall (fun rest => EndsName rest ∧ startsWith '<' rest = false)
    ?_ ?_ ?_
  · exact fun suffix rest => ⟨endsName_cons (by decide), by simp⟩
  · exact ⟨endsName_cons (by decide), by simp⟩
  · exact fun suffix rest hrest => and_iff_left fun _ => hrest

section Inner

variable {reference : Reader (List String)}
  (h : Reads reference ReferenceType.text ReferenceType.mentions fun type _ => type.depth ≤ levels)
include h

theorem reads_javaType :
    Reads (javaType reference) JavaType.text JavaType.mentions
      fun type _ => type.depth ≤ levels := by
  refine ⟨?_, ?_⟩
  · intro input names rest hread
    have hreference : reference input = .ok (names, rest) → ∃ type : JavaType,
        type.depth ≤ levels ∧ input = type.text ++ rest ∧ type.mentions = names := by
      intro hread
      obtain ⟨type, hdepth, htext, hnames⟩ := h.sound hread
      exact ⟨.reference type, by rwa [JavaType.depth], by rwa [JavaType.text],
        by rwa [JavaType.mentions]⟩
    unfold javaType at hread
    split at hread
    · split at hread
      · rename_i c tail hc
        obtain ⟨primitive, rfl⟩ := isPrimitive_iff.mp hc
        simp only [Except.ok.injEq, Prod.mk.injEq] at hread
        obtain ⟨rfl, rfl⟩ := hread
        exact ⟨.primitive primitive, by simp [JavaType.depth], by simp [JavaType.text],
          by rw [JavaType.mentions]⟩
      · exact hreference hread
    · exact hreference hread
  · intro type rest hdepth
    unfold javaType
    cases type with
    | primitive type =>
        have hmark : isPrimitive type.mark = true := isPrimitive_iff.mpr ⟨type, rfl⟩
        rw [JavaType.text, JavaType.mentions]
        simp [hmark]
    | reference type =>
        rw [JavaType.depth] at hdepth
        have hread := h.complete type rest hdepth
        obtain ⟨c, tail, htext, hc⟩ := type.exists_text_eq
        -- No reference type starts with the letter of a primitive type.
        have hmark : isPrimitive c = false := by
          rcases hc with rfl | rfl | rfl <;> decide
        rw [JavaType.text, JavaType.mentions]
        rw [htext, List.cons_append] at hread ⊢
        simpa [hmark] using hread

theorem reads_typeArgument :
    Reads (typeArgument reference) TypeArgument.text TypeArgument.mentions
      fun argument _ => argument.depth ≤ levels := by
  refine ⟨?_, ?_⟩
  · intro input names rest hread
    have hbounded : ∀ (variance : Variance) (tail : List Char), reference tail = .ok (names, rest) →
        ∃ argument : TypeArgument, argument.depth ≤ levels
          ∧ variance.text ++ tail = argument.text ++ rest ∧ argument.mentions = names := by
      intro variance tail hread
      obtain ⟨type, hdepth, rfl, rfl⟩ := h.sound hread
      exact ⟨.bounded variance type, by rwa [TypeArgument.depth],
        by rw [TypeArgument.text, List.append_assoc], by rw [TypeArgument.mentions]⟩
    unfold typeArgument at hread
    split at hread
    · simp only [Except.ok.injEq, Prod.mk.injEq] at hread
      obtain ⟨rfl, rfl⟩ := hread
      exact ⟨.wildcard, by simp [TypeArgument.depth], by simp [TypeArgument.text],
        by rw [TypeArgument.mentions]⟩
    · exact hbounded .below _ hread
    · exact hbounded .above _ hread
    · exact hbounded .exact _ hread
  · intro argument rest hdepth
    cases argument with
    | wildcard =>
        rw [TypeArgument.text, TypeArgument.mentions]
        rfl
    | bounded variance type =>
        rw [TypeArgument.depth] at hdepth
        have hread := h.complete type rest hdepth
        rw [TypeArgument.text, TypeArgument.mentions, List.append_assoc]
        cases variance with
        | exact =>
            obtain ⟨c, tail, htext, hc⟩ := type.exists_text_eq
            rw [htext] at hread ⊢
            rcases hc with rfl | rfl | rfl <;> exact hread
        | below => exact hread
        | above => exact hread

theorem reads_typeArguments :
    Reads (typeArguments reference)
      (fun arguments : List TypeArgument => bracketed (arguments.map TypeArgument.text))
      (List.flatMap TypeArgument.mentions)
      fun arguments rest => (∀ argument ∈ arguments, argument.depth ≤ levels)
        ∧ (arguments = [] → startsWith '<' rest = false) := by
  have hread := reads_inBrackets (reads_typeArgument h)
    (fun argument => by
      obtain ⟨c, tail, htext, -⟩ := argument.exists_text_eq
      simp [htext])
    (fun argument rest => by
      obtain ⟨c, tail, htext, hc⟩ := argument.exists_text_eq
      simp [htext, hc])
  refine hread.congr ?_
  intro arguments rest
  unfold BeforeBrackets
  rw [followed_const]
  cases arguments with
  | nil => simp
  | cons argument arguments => simp

/-- A class inside another, by its name and its arguments. -/
theorem reads_simpleClassType :
    Reads (identifier >>= fun name => typeArguments reference >>= fun arguments =>
        pure (name, arguments))
      SimpleClassType.text (fun type => (type.name.text, type.mentions))
      fun type rest => type.depth ≤ levels
        ∧ (type.arguments = [] → EndsName rest ∧ startsWith '<' rest = false) := by
  refine ⟨?_, ?_⟩
  · intro input value rest hread
    simp only [bind_eq_ok_iff, pure_eq_ok_iff] at hread
    obtain ⟨_, mid, hname, _, end_, harguments, rfl, rfl⟩ := hread
    obtain ⟨arguments, ⟨hdepth, hclosed⟩, rfl, rfl⟩ := (reads_typeArguments h).sound harguments
    obtain ⟨name, hends, rfl, rfl⟩ := reads_identifier.sound hname
    refine ⟨.mk name arguments, ⟨?_, ?_⟩, ?_, ?_⟩
    · rw [SimpleClassType.depth, deepest_le_iff]
      simpa using hdepth
    · intro hnone
      obtain rfl : arguments = [] := hnone
      exact ⟨hends, hclosed rfl⟩
    · rw [SimpleClassType.text, List.append_assoc]
    · rw [SimpleClassType.mentions]
      rfl
  · rintro ⟨name, arguments⟩ rest ⟨hdepth, hrest⟩
    rw [SimpleClassType.depth, deepest_le_iff] at hdepth
    simp only [bind_eq_ok_iff, pure_eq_ok_iff]
    rw [SimpleClassType.text, SimpleClassType.mentions, List.append_assoc]
    refine ⟨name.text, _, reads_identifier.complete name _ ?_, _, rest,
      (reads_typeArguments h).complete arguments rest ⟨?_, ?_⟩, rfl, rfl⟩
    · cases arguments with
      | nil => exact (hrest rfl).1
      | cons argument arguments => exact endsName_cons (by decide)
    · simpa using hdepth
    · exact fun hnone => (hrest hnone).2

theorem reads_classType :
    Reads (classType reference) ClassType.text ClassType.mentions
      fun type _ => type.depth ≤ levels := by
  have hsegments := reads_identifier.repeatBehind '/'
  have hsuffixes := (reads_simpleClassType h).repeatBehind '.'
  refine ⟨?_, ?_⟩
  · intro input names rest hread
    simp only [classType, bind_eq_ok_iff, expect_eq_ok_iff, pure_eq_ok_iff] at hread
    obtain ⟨-, mid, rfl, _, _, hread₁, _, _, hread₂, _, _, hread₃, _, _, hread₄, -, end_, rfl, rfl,
      rfl⟩ := hread
    obtain ⟨suffixes, ⟨hfollowed, -⟩, rfl, rfl⟩ := hsuffixes.sound hread₄
    obtain ⟨arguments, ⟨hdepth, -⟩, rfl, rfl⟩ := (reads_typeArguments h).sound hread₃
    obtain ⟨segments, -, rfl, rfl⟩ := hsegments.sound hread₂
    obtain ⟨first, -, rfl, rfl⟩ := reads_identifier.sound hread₁
    obtain ⟨package, name, hpath⟩ := exists_path first segments
    refine ⟨.mk package (.mk name arguments) suffixes, ?_, ?_, ?_⟩
    · rw [ClassType.depth, SimpleClassType.depth, Nat.max_le, deepest_le_iff, deepest_le_iff]
      have hsuffixDepth := followed_suffixes.mp hfollowed
      exact ⟨by simpa using hdepth, by simpa using hsuffixDepth⟩
    · have htext := path_text '/' hpath
      rw [ClassType.text, SimpleClassType.text]
      simp only [List.cons_append, List.append_assoc, List.nil_append] at htext ⊢
      rw [← List.append_assoc, ← htext]
      simp
    · rw [ClassType.mentions, SimpleClassType.mentions, names_eq hpath]
      simp [List.flatMap_def, Function.comp_def]
  · rintro ⟨package, ⟨name, arguments⟩, suffixes⟩ rest hdepth
    rw [ClassType.depth, SimpleClassType.depth, Nat.max_le, deepest_le_iff,
      deepest_le_iff] at hdepth
    obtain ⟨hargumentDepth, hsuffixDepth⟩ := hdepth
    obtain ⟨first, segments, hpath⟩ := List.exists_cons_of_ne_nil
      (List.append_ne_nil_of_right_ne_nil package (List.cons_ne_nil name []))
    have htext : (ClassType.mk package (.mk name arguments) suffixes).text ++ rest
        = 'L' :: (first.text ++ (segments.flatMap (fun part => '/' :: part.text)
          ++ (bracketed (arguments.map TypeArgument.text)
            ++ (suffixes.flatMap (fun suffix => '.' :: suffix.text) ++ ';' :: rest)))) := by
      have hpathText := path_text '/' hpath
      rw [ClassType.text, SimpleClassType.text]
      simp only [List.cons_append, List.append_assoc, List.nil_append] at hpathText ⊢
      rw [← List.append_assoc, hpathText, List.append_assoc]
    -- Each part ends where the next one starts.
    have hends₁ : startsWith '<'
        (suffixes.flatMap (fun suffix => '.' :: suffix.text) ++ ';' :: rest) = false := by
      cases suffixes <;> simp
    have hends₂ : EndsName (bracketed (arguments.map TypeArgument.text)
          ++ (suffixes.flatMap (fun suffix => '.' :: suffix.text) ++ ';' :: rest))
        ∧ startsWith '/' (bracketed (arguments.map TypeArgument.text)
          ++ (suffixes.flatMap (fun suffix => '.' :: suffix.text) ++ ';' :: rest)) = false := by
      cases arguments with
      | nil =>
          cases suffixes with
          | nil => exact ⟨endsName_cons (by decide), by simp [bracketed]⟩
          | cons suffix suffixes => exact ⟨endsName_cons (by decide), by simp [bracketed]⟩
      | cons argument arguments => exact ⟨endsName_cons (by decide), by simp [bracketed]⟩
    have hfollowed : Followed (fun part : Identifier => '/' :: part.text)
        (fun _ rest => EndsName rest) segments _ :=
      (followed_iff_forall (p := fun _ => True) EndsName
        (fun part rest => endsName_cons (by decide)) hends₂.1
        (fun _ _ hrest => iff_of_true hrest trivial)).mpr fun _ _ => trivial
    have hends₃ : EndsName (segments.flatMap (fun part => '/' :: part.text)
        ++ (bracketed (arguments.map TypeArgument.text)
          ++ (suffixes.flatMap (fun suffix => '.' :: suffix.text) ++ ';' :: rest))) := by
      cases segments with
      | nil => exact hends₂.1
      | cons segment segments => exact endsName_cons (by decide)
    rw [htext]
    simp only [classType, bind_eq_ok_iff, expect_eq_ok_iff, pure_eq_ok_iff]
    refine ⟨(), _, rfl, first.text, _, reads_identifier.complete first _ hends₃,
      segments.map Identifier.text, _, hsegments.complete segments _ ⟨hfollowed, hends₂.2⟩, _, _,
      (reads_typeArguments h).complete arguments _ ⟨by simpa using hargumentDepth, fun _ => hends₁⟩,
      _, _, hsuffixes.complete suffixes (';' :: rest)
        ⟨followed_suffixes.mpr (by simpa using hsuffixDepth), by simp⟩, (), rest, rfl, ?_, rfl⟩
    rw [ClassType.mentions, SimpleClassType.mentions, names_eq hpath]
    simp [List.flatMap_def, Function.comp_def]

end Inner

/-- Reference types are read down to the number of levels that are left. -/
theorem reads_referenceType (levels : Nat) :
    Reads (referenceType levels) ReferenceType.text ReferenceType.mentions
      fun type _ => type.depth ≤ levels := by
  induction levels with
  | zero =>
      refine ⟨?_, ?_⟩
      · intro input names rest hread
        cases hread
      · intro type rest hdepth
        cases type <;> simp [ReferenceType.depth] at hdepth
  | succ levels ih =>
      refine ⟨?_, ?_⟩
      · intro input names rest hread
        unfold referenceType at hread
        split at hread
        · obtain ⟨type, hdepth, htext, hnames⟩ := (reads_classType ih).sound hread
          exact ⟨.classType type, by rw [ReferenceType.depth]; omega,
            by rwa [ReferenceType.text], by rwa [ReferenceType.mentions]⟩
        · obtain ⟨name, -, htext, hnames⟩ := reads_typeVariable.sound hread
          exact ⟨.typeVariable name, by simp [ReferenceType.depth], by rwa [ReferenceType.text],
            by rwa [ReferenceType.mentions]⟩
        · obtain ⟨element, hdepth, htext, hnames⟩ := (reads_javaType ih).sound hread
          exact ⟨.array element, by rw [ReferenceType.depth]; omega,
            by rw [ReferenceType.text, htext, List.cons_append], by rwa [ReferenceType.mentions]⟩
        · cases hread
      · intro type rest hdepth
        cases type with
        | classType type =>
            rw [ReferenceType.depth] at hdepth
            have hread := (reads_classType ih).complete type rest (by omega)
            obtain ⟨tail, htail⟩ := type.exists_text_eq
            rw [ReferenceType.text, ReferenceType.mentions]
            rw [htail] at hread ⊢
            exact hread
        | typeVariable name =>
            have hread := reads_typeVariable.complete name rest trivial
            rw [ReferenceType.text, ReferenceType.mentions]
            exact hread
        | array element =>
            rw [ReferenceType.depth] at hdepth
            have hread := (reads_javaType ih).complete element rest (by omega)
            rw [ReferenceType.text, ReferenceType.mentions]
            exact hread

end PackageAudit.Signature
