/-
Descriptors, by their grammar and by what ends them.

The object types of a descriptor are found by looking for the next `L` and the `;` behind it, in any
text and without regard to its structure.  For texts that are descriptors this is shown to find the
object types of the grammar, one by one and in order, although class names may hold any of the
letters and brackets that mean something elsewhere in a descriptor: behind an `L` nothing but the
`;` is looked at, and outside of object types there is no `L`.

A descriptor is also a signature, one without type parameters and arguments.  The reader of
signatures goes by the grammar and counts how deep types are nested, so where arrays are not nested
too deeply it has to find the same classes.

For other texts the object types are described by the parts into which `;` cuts a text.
-/
import PackageAudit.Descriptor
import PackageAudit.Proofs.Signature.Derivations

namespace PackageAudit.Descriptor

open Signature (Identifier Primitive)

/-! ### Looking for object types -/

theorem objectTypes_cons_of_ne {c : Char} {rest : List Char} (h : c ≠ 'L') :
    objectTypes (c :: rest) = objectTypes rest := by
  rw [objectTypes, if_neg h]

theorem objectTypes_append_of_not_mem {front rest : List Char} (h : 'L' ∉ front) :
    objectTypes (front ++ rest) = objectTypes rest := by
  induction front with
  | nil => rfl
  | cons c front ih =>
      obtain ⟨hc, hfront⟩ := not_or.mp (mt List.mem_cons.mpr h)
      rw [List.cons_append, objectTypes_cons_of_ne (Ne.symm hc), ih hfront]

theorem objectTypes_of_not_mem {text : List Char} (h : 'L' ∉ text) : objectTypes text = [] := by
  have hskip : objectTypes (text ++ []) = objectTypes [] := objectTypes_append_of_not_mem h
  rwa [List.append_nil, objectTypes] at hskip

theorem objectTypes_object {name rest : List Char} (h : ';' ∉ name) :
    objectTypes ('L' :: (name ++ ';' :: rest)) = name :: objectTypes rest := by
  have hne : ∀ c ∈ name, (decide (c ≠ ';')) = true :=
    fun c hc => decide_eq_true fun heq => h (heq ▸ hc)
  have htake : (name ++ ';' :: rest).takeWhile (· ≠ ';') = name := by
    rw [List.takeWhile_append_of_pos hne, List.takeWhile_cons_of_neg (by simp), List.append_nil]
  have hdrop : (name ++ ';' :: rest).dropWhile (· ≠ ';') = ';' :: rest := by
    rw [List.dropWhile_append_of_pos hne, List.dropWhile_cons_of_neg (by simp)]
  rw [objectTypes, if_pos rfl]
  split
  · rename_i heq
    rw [hdrop] at heq
    cases heq
  · rename_i heq
    rw [hdrop] at heq
    obtain ⟨-, rfl⟩ := List.cons.inj heq
    rw [htake]

/-- A last type without its `;` is dropped. -/
theorem objectTypes_unended {rest : List Char} (h : ';' ∉ rest) :
    objectTypes ('L' :: rest) = [] := by
  have hdrop : rest.dropWhile (· ≠ ';') = [] := by
    rw [List.dropWhile_eq_nil_iff]
    exact fun c hc => decide_eq_true fun heq => h (heq ▸ hc)
  rw [objectTypes, if_pos rfl]
  split
  · rfl
  · rename_i heq
    rw [hdrop] at heq
    cases heq

/-! ### Parts -/

/-- The parts of a text that a `;` ends. -/
def endedParts (text : List Char) : List (List Char) := (text.splitOn ';').dropLast

/-- The object type that a part ends with: what stands behind its first `L`. -/
def lastType? (part : List Char) : Option (List Char) := (part.dropWhile (· ≠ 'L')).tail?

theorem endedParts_of_not_mem {text : List Char} (h : ';' ∉ text) : endedParts text = [] := by
  rw [endedParts, List.splitOn_eq_singleton h, List.dropLast_singleton]

theorem endedParts_append {part rest : List Char} (h : ';' ∉ part) :
    endedParts (part ++ ';' :: rest) = part :: endedParts rest := by
  rw [endedParts, List.splitOn_append_cons_self_of_not_mem h,
    List.dropLast_cons_of_ne_nil (List.splitOn_ne_nil ';' rest), endedParts]

theorem lastType?_of_not_mem {part : List Char} (h : 'L' ∉ part) : lastType? part = none := by
  have hdrop : part.dropWhile (· ≠ 'L') = [] := by
    rw [List.dropWhile_eq_nil_iff]
    exact fun c hc => decide_eq_true fun heq => h (heq ▸ hc)
  rw [lastType?, hdrop, List.tail?_nil]

theorem lastType?_append {front name : List Char} (h : 'L' ∉ front) :
    lastType? (front ++ 'L' :: name) = some name := by
  have hne : ∀ c ∈ front, (decide (c ≠ 'L')) = true :=
    fun c hc => decide_eq_true fun heq => h (heq ▸ hc)
  rw [lastType?, List.dropWhile_append_of_pos hne, List.dropWhile_cons_of_neg (by simp),
    List.tail?_cons]

/-- The object types of any text are those with which its parts end. -/
theorem objectTypes_eq_filterMap (text : List Char) :
    objectTypes text = (endedParts text).filterMap lastType? := by
  induction hlength : text.length using Nat.strongRecOn generalizing text with
  | ind length ih =>
      by_cases hend : ';' ∈ text
      · obtain ⟨part, rest, rfl, hpart⟩ := List.eq_append_cons_of_mem hend
        have hrest := ih rest.length (by rw [← hlength]; simp; omega) rest rfl
        rw [endedParts_append hpart]
        by_cases hmark : 'L' ∈ part
        · obtain ⟨front, name, rfl, hfront⟩ := List.eq_append_cons_of_mem hmark
          have hname : ';' ∉ name := fun hmem => hpart (by simp [hmem])
          rw [List.append_assoc, objectTypes_append_of_not_mem hfront, List.cons_append,
            objectTypes_object hname, List.filterMap_cons_some (lastType?_append hfront), hrest]
        · rw [objectTypes_append_of_not_mem hmark, objectTypes_cons_of_ne (by decide),
            List.filterMap_cons_none (lastType?_of_not_mem hmark), hrest]
      · rw [endedParts_of_not_mem hend, List.filterMap_nil]
        by_cases hmark : 'L' ∈ text
        · obtain ⟨front, name, rfl, hfront⟩ := List.eq_append_cons_of_mem hmark
          rw [objectTypes_append_of_not_mem hfront]
          exact objectTypes_unended fun hmem => hend (by simp [hmem])
        · exact objectTypes_of_not_mem hmark

/-! ### The grammar -/

/-- A class is written with its package, part by part. -/
inductive FieldType where
  | primitive (type : Primitive)
  | object (package : List Identifier) (name : Identifier)
  | array (component : FieldType)

/-- A method without a result type is void. -/
inductive Derivation where
  | field (type : FieldType)
  | method (parameters : List FieldType) (result : Option FieldType)

namespace FieldType

/-- The text of a field type. -/
def text : FieldType → List Char
  | .primitive type => [type.mark]
  | .object package name =>
    'L' :: (package.flatMap (fun part => part.text ++ ['/']) ++ name.text) ++ [';']
  | .array component => '[' :: component.text

/-- The binary name of the class, if there is one. -/
def classes : FieldType → List String
  | .primitive _ => []
  | .object package name =>
    [String.ofList (package.flatMap (fun part => part.text ++ ['.']) ++ name.text)]
  | .array component => component.classes

/-- How many arrays lie inside one another. -/
def dimensions : FieldType → Nat
  | .array component => component.dimensions + 1
  | _ => 0

end FieldType

namespace Derivation

/-- The text of a descriptor. -/
def text : Derivation → List Char
  | .field type => type.text
  | .method parameters result =>
    '(' :: parameters.flatMap FieldType.text ++ ')' :: result.elim ['V'] FieldType.text

/-- The binary names of all object types, in order and with repetitions. -/
def classes : Derivation → List String
  | .field type => type.classes
  | .method parameters result =>
    parameters.flatMap FieldType.classes ++ result.elim [] FieldType.classes

/-- How many arrays lie inside one another at most. -/
def dimensions : Derivation → Nat
  | .field type => type.dimensions
  | .method parameters result =>
    max (Signature.deepest (parameters.map FieldType.dimensions))
      (result.elim 0 FieldType.dimensions)

/-- The signatures among which a descriptor is one.  A primitive type is none. -/
def signatureKind? : Derivation → Option SignatureKind
  | .field (.primitive _) => none
  | .field _ => some .field
  | .method _ _ => some .method

end Derivation

/-! ### Object types of descriptors -/

theorem not_mem_identifier {c : Char} (h : c ∈ ['.', ';', '[', '/', '<', '>', ':'])
    (name : Identifier) : c ∉ name.text :=
  fun hmem => name.plain c hmem h

/-- The parts of a class name hold neither slashes nor the mark that ends the name. -/
theorem binaryName_path (package : List Identifier) (name : Identifier) :
    binaryName (package.flatMap (fun part => part.text ++ ['/']) ++ name.text)
      = String.ofList (package.flatMap (fun part => part.text ++ ['.']) ++ name.text) := by
  have hpart : ∀ part : Identifier,
      part.text.map (fun c => if c = '/' then '.' else c) = part.text := by
    intro part
    refine (List.map_congr_left fun c hc => ?_).trans (List.map_id _)
    exact if_neg fun heq => not_mem_identifier (by decide) part (heq ▸ hc)
  unfold binaryName
  congr 1
  rw [List.map_append, List.map_flatMap, hpart]
  simp [hpart]

theorem not_mem_path (package : List Identifier) (name : Identifier) :
    ';' ∉ package.flatMap (fun part => part.text ++ ['/']) ++ name.text := by
  have hpart : ∀ part : Identifier, ';' ∉ part.text := not_mem_identifier (by decide)
  simp [hpart]

theorem FieldType.objectTypes_text (type : FieldType) (rest : List Char) :
    (objectTypes (type.text ++ rest)).map binaryName
      = type.classes ++ (objectTypes rest).map binaryName := by
  induction type with
  | primitive type =>
      have hmark : type.mark ≠ 'L' := by cases type <;> decide
      rw [text, List.singleton_append, objectTypes_cons_of_ne hmark, classes, List.nil_append]
  | object package name =>
      rw [text, List.append_assoc, List.cons_append, List.singleton_append,
        objectTypes_object (not_mem_path package name), List.map_cons, binaryName_path, classes,
        List.singleton_append]
  | array component ih =>
      rw [text, List.cons_append, objectTypes_cons_of_ne (by decide), ih, classes]

theorem objectTypes_parameters (parameters : List FieldType) (rest : List Char) :
    (objectTypes (parameters.flatMap FieldType.text ++ rest)).map binaryName
      = parameters.flatMap FieldType.classes ++ (objectTypes rest).map binaryName := by
  induction parameters with
  | nil => rfl
  | cons parameter parameters ih =>
      rw [List.flatMap_cons, List.append_assoc, parameter.objectTypes_text, ih,
        List.flatMap_cons, List.append_assoc]

/-- The search finds the object types of the grammar. -/
theorem Derivation.objectTypes_text (tree : Derivation) :
    (objectTypes tree.text).map binaryName = tree.classes := by
  have hfield : ∀ type : FieldType, (objectTypes type.text).map binaryName = type.classes := by
    intro type
    have hend := type.objectTypes_text []
    rwa [List.append_nil, objectTypes, List.map_nil, List.append_nil] at hend
  cases tree with
  | field type => exact hfield type
  | method parameters result =>
      rw [text, List.cons_append, objectTypes_cons_of_ne (by decide), objectTypes_parameters,
        objectTypes_cons_of_ne (by decide), classes]
      cases result with
      | none => rw [Option.elim_none, objectTypes_cons_of_ne (by decide), objectTypes]; rfl
      | some type => rw [Option.elim_some, hfield, Option.elim_some]

/-! ### Descriptors as signatures -/

/-- A type of a descriptor as a type of a signature. -/
def FieldType.javaType : FieldType → Signature.JavaType
  | .primitive type => .primitive type
  | .object package name => .reference (.classType (.mk package (.mk name []) []))
  | .array component => .reference (.array component.javaType)

namespace FieldType

theorem text_javaType (type : FieldType) : type.javaType.text = type.text := by
  induction type with
  | primitive type => rw [javaType, Signature.JavaType.text, text]
  | object package name =>
      simp [javaType, text, Signature.JavaType.text, Signature.ReferenceType.text,
        Signature.ClassType.text, Signature.SimpleClassType.text, Signature.bracketed]
  | array component ih =>
      rw [javaType, Signature.JavaType.text, Signature.ReferenceType.text, ih, text]

theorem mentions_javaType (type : FieldType) : type.javaType.mentions = type.classes := by
  induction type with
  | primitive type => rw [javaType, Signature.JavaType.mentions, classes]
  | object package name =>
      simp [javaType, classes, Signature.JavaType.mentions, Signature.ReferenceType.mentions,
        Signature.ClassType.mentions, Signature.ClassType.names, Signature.SimpleClassType.mentions,
        Signature.SimpleClassType.name]
  | array component ih =>
      rw [javaType, Signature.JavaType.mentions, Signature.ReferenceType.mentions, ih, classes]

/-- Each array counts once, and the class in it once more. -/
theorem depth_javaType_le (type : FieldType) : type.javaType.depth ≤ type.dimensions + 1 := by
  induction type with
  | primitive type =>
      rw [javaType, Signature.JavaType.depth]
      exact Nat.zero_le _
  | object package name =>
      simp [javaType, dimensions, Signature.JavaType.depth, Signature.ReferenceType.depth,
        Signature.ClassType.depth, Signature.SimpleClassType.depth, Signature.deepest]
  | array component ih =>
      rw [javaType, Signature.JavaType.depth, Signature.ReferenceType.depth, dimensions]
      exact Nat.succ_le_succ ih

end FieldType

/-- The result type of a method as that of a signature. -/
def resultType (result : Option FieldType) : Signature.ResultType :=
  result.elim .void fun type => .value type.javaType

theorem exists_field_signature {type : FieldType}
    (hkind : (Derivation.field type).signatureKind? = some .field)
    (hdimensions : type.dimensions ≤ 255) :
    ∃ signature : Signature.Derivation .field, signature.text = type.text ∧ signature.Separated
      ∧ signature.depth ≤ 256 ∧ signature.mentions = type.classes := by
  obtain ⟨reference, htype⟩ : ∃ reference, type.javaType = .reference reference := by
    cases type with
    | primitive type => cases hkind
    | object package name => exact ⟨_, rfl⟩
    | array component => exact ⟨_, rfl⟩
  have htext := type.text_javaType
  have hmentions := type.mentions_javaType
  have hdepth := type.depth_javaType_le
  rw [htype, Signature.JavaType.text] at htext
  rw [htype, Signature.JavaType.mentions] at hmentions
  rw [htype, Signature.JavaType.depth] at hdepth
  exact ⟨.field reference, htext, trivial, hdepth.trans (Nat.succ_le_succ hdimensions), hmentions⟩

theorem exists_method_signature {parameters : List FieldType} {result : Option FieldType}
    (hdimensions : (Derivation.method parameters result).dimensions ≤ 255) :
    ∃ signature : Signature.Derivation .method,
      signature.text = (Derivation.method parameters result).text ∧ signature.Separated
        ∧ signature.depth ≤ 256
        ∧ signature.mentions = (Derivation.method parameters result).classes := by
  simp only [Derivation.dimensions, Nat.max_le, Signature.deepest_le_iff, List.forall_mem_map]
    at hdimensions
  obtain ⟨hparameters, hresult⟩ := hdimensions
  refine ⟨.method ⟨[], parameters.map FieldType.javaType, resultType result, []⟩, ?_, ?_, ?_, ?_⟩
  · cases result <;> simp [Signature.Derivation.text, Signature.MethodSignature.text,
      Signature.bracketed, Derivation.text, resultType, Signature.ResultType.text,
      FieldType.text_javaType, List.flatMap_map]
  · exact .nil
  · simp only [Signature.Derivation.depth, Signature.MethodSignature.depth, Nat.max_le,
      Signature.deepest_le_iff, List.forall_mem_map]
    refine ⟨by simp, ?_, ?_, by simp⟩
    · intro type hmem
      exact type.depth_javaType_le.trans (Nat.succ_le_succ (hparameters type hmem))
    · cases result with
      | none => exact Nat.zero_le _
      | some type => exact type.depth_javaType_le.trans (Nat.succ_le_succ hresult)
  · cases result <;> simp [Signature.Derivation.mentions, Signature.MethodSignature.mentions,
      Derivation.classes, resultType, Signature.ResultType.mentions,
      FieldType.mentions_javaType, List.flatMap_map]

/-- A descriptor that is not a primitive type has a derivation as a signature. -/
theorem Derivation.exists_signature {tree : Derivation} {kind : SignatureKind}
    (hkind : tree.signatureKind? = some kind) (hdimensions : tree.dimensions ≤ 255) :
    ∃ signature : Signature.Derivation kind, signature.text = tree.text ∧ signature.Separated
      ∧ signature.depth ≤ 256 ∧ signature.mentions = tree.classes := by
  cases tree with
  | field type =>
      obtain rfl : kind = .field := by
        cases type with
        | primitive type => cases hkind
        | object package name => cases hkind; rfl
        | array component => cases hkind; rfl
      exact exists_field_signature hkind hdimensions
  | method parameters result =>
      cases hkind
      exact exists_method_signature hdimensions

/-- **The object types that are found in a descriptor are those of its grammar, in order and with
repetitions, and as a signature it mentions the same classes** unless its arrays are nested too
deeply. -/
theorem referencedTypes_exact (descriptor : String) (tree : Derivation)
    (htext : tree.text = descriptor.toList) :
    referencedTypes descriptor = tree.classes
      ∧ ∀ kind, tree.signatureKind? = some kind → tree.dimensions ≤ 255 →
        ∃ classes, Signature.referencedClasses kind descriptor = .ok classes
          ∧ classes.Pairwise (· < ·) ∧ ∀ name, name ∈ classes ↔ name ∈ tree.classes := by
  refine ⟨?_, ?_⟩
  · rw [referencedTypes, ← htext, tree.objectTypes_text]
  · intro kind hkind hdimensions
    obtain ⟨signature, hspelled, hseparated, hdepth, hmentions⟩ :=
      tree.exists_signature hkind hdimensions
    have hderives : signature.Derives descriptor := ⟨hspelled.trans htext, hseparated, hdepth⟩
    refine ⟨Ascending.ofList signature.mentions,
      Signature.referencedClasses_eq_ok_iff.mpr ⟨signature, hderives, rfl⟩, ?_, fun name => ?_⟩
    · exact (Ascending.isAscending_ofList signature.mentions).imp compare_string_lt.mp
    · rw [Ascending.mem_ofList, hmentions]

/-- A method with a class whose name looks like the end of a descriptor, twice, and with an array of
arrays. -/
def awkwardTree : Derivation :=
  let package : Identifier := ⟨['c', 'o', 'm'], by simp, by simp⟩
  let class₁ : Identifier := ⟨['L', ')', 'V', '('], by simp, by simp⟩
  let class₂ : Identifier := ⟨['L', 'i', 's', 't'], by simp, by simp⟩
  .method [.primitive .long, .object [package] class₁, .array (.array (.object [] class₂)),
    .object [package] class₁] none

theorem awkwardTree_types :
    awkwardTree.text = "(JLcom/L)V(;[[LList;Lcom/L)V(;)V".toList
      ∧ referencedTypes "(JLcom/L)V(;[[LList;Lcom/L)V(;)V" = ["com.L)V(", "List", "com.L)V("]
      ∧ ∃ classes,
        Signature.referencedClasses .method "(JLcom/L)V(;[[LList;Lcom/L)V(;)V" = .ok classes
          ∧ ∀ name, name ∈ classes ↔ name = "com.L)V(" ∨ name = "List" := by
  have htext : awkwardTree.text = "(JLcom/L)V(;[[LList;Lcom/L)V(;)V".toList := by
    simp [awkwardTree, Derivation.text, FieldType.text, Primitive.mark]
  have hclasses : awkwardTree.classes = ["com.L)V(", "List", "com.L)V("] := by
    simp [awkwardTree, Derivation.classes, FieldType.classes]
  have hdimensions : awkwardTree.dimensions = 2 := by
    simp [awkwardTree, Derivation.dimensions, FieldType.dimensions, Signature.deepest]
  obtain ⟨htypes, hsignature⟩ := referencedTypes_exact _ awkwardTree htext
  obtain ⟨classes, haccepted, -, hmem⟩ := hsignature .method rfl (by omega)
  refine ⟨htext, htypes.trans hclasses, classes, haccepted, fun name => ?_⟩
  rw [hmem, hclasses]
  simp
  tauto

end PackageAudit.Descriptor
