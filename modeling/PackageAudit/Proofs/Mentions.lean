/-
How often a compiled class mentions another one.

A class is mentioned in places of different kinds: by class constants, inside descriptors, in
signatures and in annotations.  The record of a class collects the names from all of them in one
list and counts in a table.  Here each place is asked on its own how often it mentions one given
class, and the answers are added up; the table is then shown to hold this sum for every class, and
nothing for the class itself and for classes that are not mentioned.

Only the constants can make the record fail, and they do so exactly if one of them refers to
something that is not there.
-/
import PackageAudit.ClassRecord
import PackageAudit.Proofs.ClassFile.Encoding
import PackageAudit.Proofs.ClassFile.Slots
import PackageAudit.Proofs.Descriptor
import PackageAudit.Proofs.Traversal

namespace PackageAudit

open Layout (textAt?)

/-! ### Sums -/

/-- The sum of what is counted in each item. -/
def total {α : Type} (count : α → Nat) (items : List α) : Nat :=
  items.foldr (fun item sum => count item + sum) 0

theorem total_cons {α : Type} (count : α → Nat) (item : α) (items : List α) :
    total count (item :: items) = count item + total count items := rfl

theorem count_flatMap {α : Type} {f : α → List String} {count : α → Nat} {name : String}
    (h : ∀ item, (f item).count name = count item) (items : List α) :
    (items.flatMap f).count name = total count items := by
  induction items with
  | nil => rfl
  | cons item items ih => rw [List.flatMap_cons, List.count_append, h, ih, total_cons]

theorem total_filter {α : Type} {p : α → Bool} {count : α → Nat}
    (h : ∀ item, p item = false → count item = 0) (items : List α) :
    total count (items.filter p) = total count items := by
  induction items with
  | nil => rfl
  | cons item items ih =>
      cases hp : p item with
      | true => rw [List.filter_cons_of_pos hp, total_cons, total_cons, ih]
      | false =>
          rw [List.filter_cons_of_neg (by simp [hp]), total_cons, h item hp, Nat.zero_add, ih]

/-- Lists of names that are looked up one by one. -/
theorem exists_count_mapM {α ε : Type} {f : α → Except ε (List String)}
    {count : String → α → Nat} {items : List α}
    (h : ∀ item ∈ items, ∃ names, f item = .ok names ∧ ∀ name, names.count name = count name item) :
    ∃ lists, items.mapM f = .ok lists
      ∧ ∀ name, lists.flatten.count name = total (count name) items := by
  simp only [mapM_eq_ok_iff]
  induction items with
  | nil => exact ⟨[], rfl, fun _ => rfl⟩
  | cons item items ih =>
      obtain ⟨hitem, hitems⟩ := List.forall_mem_cons.mp h
      obtain ⟨names, hnames, hcount⟩ := hitem
      obtain ⟨lists, hlists, htotal⟩ := ih hitems
      refine ⟨names :: lists, ?_, fun name => ?_⟩
      · rw [List.map_cons, List.map_cons, hnames, hlists]
      · rw [List.flatten_cons, List.count_append, hcount, htotal, total_cons]

/-! ### Descriptors -/

namespace Descriptor

/-- How often a text names a class as an object type, which runs from the first `L` of a part to
the `;` that ends the part. -/
def occurrences (name descriptor : String) : Nat :=
  (endedParts descriptor.toList).countP fun part => (lastType? part).map binaryName == some name

theorem count_referencedTypes (name descriptor : String) :
    (referencedTypes descriptor).count name = occurrences name descriptor := by
  rw [referencedTypes, objectTypes_eq_filterMap, List.map_filterMap, List.count_filterMap]
  rfl

/-- A class constant stands for a class: it is the name of the class, or that of an array, and the
first object type in there is the class. -/
def IsConstantOf (name text : String) : Prop :=
  text.toList.head? ≠ some '[' ∧ binaryName text.toList = name
    ∨ text.toList.head? = some '[' ∧ ∃ front inner rest,
      text.toList = front ++ 'L' :: (inner ++ ';' :: rest)
        ∧ 'L' ∉ front ∧ ';' ∉ inner ∧ binaryName inner = name

theorem head?_referencedTypes_eq_some_iff {name text : String} :
    (referencedTypes text).head? = some name ↔ ∃ front inner rest,
      text.toList = front ++ 'L' :: (inner ++ ';' :: rest)
        ∧ 'L' ∉ front ∧ ';' ∉ inner ∧ binaryName inner = name := by
  rw [referencedTypes, List.head?_map, Option.map_eq_some_iff]
  constructor
  · rintro ⟨inner, hfirst, hname⟩
    by_cases hmark : 'L' ∈ text.toList
    · obtain ⟨front, tail, htext, hfront⟩ := List.eq_append_cons_of_mem hmark
      rw [htext, objectTypes_append_of_not_mem hfront] at hfirst
      by_cases hend : ';' ∈ tail
      · obtain ⟨found, rest, rfl, hfound⟩ := List.eq_append_cons_of_mem hend
        rw [objectTypes_object hfound, List.head?_cons] at hfirst
        cases hfirst
        exact ⟨front, inner, rest, htext, hfront, hfound, hname⟩
      · rw [objectTypes_unended hend] at hfirst
        cases hfirst
    · rw [objectTypes_of_not_mem hmark] at hfirst
      cases hfirst
  · rintro ⟨front, inner, rest, htext, hfront, hinner, hname⟩
    refine ⟨inner, ?_, hname⟩
    rw [htext, objectTypes_append_of_not_mem hfront, objectTypes_object hinner, List.head?_cons]

theorem classConstantType?_eq_some_iff {name text : String} :
    classConstantType? text = some name ↔ IsConstantOf name text := by
  rw [classConstantType?, IsConstantOf]
  by_cases harray : text.toList.head? = some '['
  · rw [if_pos harray, head?_referencedTypes_eq_some_iff]
    simp [harray]
  · rw [if_neg harray]
    simp [harray]

instance (name text : String) : Decidable (IsConstantOf name text) :=
  decidable_of_iff _ classConstantType?_eq_some_iff

theorem count_classConstantType? (name text : String) :
    (classConstantType? text).toList.count name = if IsConstantOf name text then 1 else 0 := by
  simp only [← classConstantType?_eq_some_iff]
  cases classConstantType? text with
  | none => rfl
  | some found => simp [List.count_singleton]

end Descriptor

/-! ### Constants -/

/-- The name and the descriptor in a slot. -/
def Layout.nameAndTypeAt? (pool : ConstantPool) (index : UInt16) : Option (String × String) :=
  match pool.slots[index.toNat]? with
  | some (.nameAndType nameIndex descriptorIndex) => do
    return (← textAt? pool nameIndex, ← textAt? pool descriptorIndex)
  | _ => none

open Layout (nameAndTypeAt?)

namespace Constant

/-- What a constant refers to is there: the name of a class, the descriptor of a method type, or
the name and the descriptor of a member.  Of other constants nothing is asked. -/
def resolves (pool : ConstantPool) : Constant → Bool
  | .classInfo nameIndex => (textAt? pool nameIndex).isSome
  | .methodType descriptorIndex => (textAt? pool descriptorIndex).isSome
  | .fieldRef _ index | .methodRef _ index | .interfaceMethodRef _ index =>
    (nameAndTypeAt? pool index).isSome
  | _ => true

/-- How often a constant mentions a class. -/
def occurrences (pool : ConstantPool) (name : String) : Constant → Nat
  | .classInfo nameIndex =>
    (textAt? pool nameIndex).elim 0 fun text =>
      if Descriptor.IsConstantOf name text then 1 else 0
  | .methodType descriptorIndex =>
    (textAt? pool descriptorIndex).elim 0 (Descriptor.occurrences name)
  | .fieldRef _ index | .methodRef _ index | .interfaceMethodRef _ index =>
    (nameAndTypeAt? pool index).elim 0 fun member => Descriptor.occurrences name member.2
  | _ => 0

end Constant

namespace ConstantPool

variable {pool : ConstantPool} {index : UInt16}

theorem utf8_of_textAt?_eq_none (h : textAt? pool index = none) :
    ∃ e, pool.utf8 index = .error e := by
  unfold utf8 get?
  split
  · rename_i text hslot
    rw [textAt?, hslot] at h
    cases h
  · exact ⟨_, rfl⟩

theorem nameAndType_of_nameAndTypeAt? {member : String × String}
    (h : nameAndTypeAt? pool index = some member) : pool.nameAndType index = .ok member := by
  unfold nameAndTypeAt? at h
  split at h
  · rename_i nameIndex descriptorIndex hslot
    obtain ⟨name, hname, hrest⟩ := Option.bind_eq_some_iff.mp h
    obtain ⟨descriptor, hdescriptor, hpair⟩ := Option.bind_eq_some_iff.mp hrest
    cases hpair
    simp only [nameAndType, get?, hslot, utf8_of_textAt? hname, utf8_of_textAt? hdescriptor]
    rfl
  · cases h

theorem nameAndType_of_nameAndTypeAt?_eq_none (h : nameAndTypeAt? pool index = none) :
    ∃ e, pool.nameAndType index = .error e := by
  unfold nameAndType get?
  split
  · rename_i nameIndex descriptorIndex hslot
    rw [nameAndTypeAt?, hslot] at h
    cases hname : textAt? pool nameIndex with
    | none =>
        obtain ⟨e, he⟩ := utf8_of_textAt?_eq_none hname
        exact ⟨e, by rw [he]; rfl⟩
    | some name =>
        cases hdescriptor : textAt? pool descriptorIndex with
        | none =>
            obtain ⟨e, he⟩ := utf8_of_textAt?_eq_none hdescriptor
            exact ⟨e, by rw [utf8_of_textAt? hname, he]; rfl⟩
        | some descriptor =>
            simp only [hname, hdescriptor] at h
            cases h
  · exact ⟨_, rfl⟩

/-! References to fields and to methods of classes and interfaces are alike. -/

theorem resolves_reference {constant : Constant} (h : constant.memberNameAndType? = some index) :
    constant.resolves pool = (nameAndTypeAt? pool index).isSome := by
  cases constant <;> cases h <;> rfl

theorem mentions_reference {constant : Constant} (h : constant.memberNameAndType? = some index)
    {member : String × String} (hmember : nameAndTypeAt? pool index = some member) :
    pool.mentions constant = .ok (Descriptor.referencedTypes member.2)
      ∧ ∀ name, constant.occurrences pool name = Descriptor.occurrences name member.2 := by
  have hfound := nameAndType_of_nameAndTypeAt? hmember
  cases constant <;> cases h <;>
    exact ⟨by simp only [mentions, Constant.memberNameAndType?, hfound]; rfl,
      fun name => by rw [Constant.occurrences, hmember]; rfl⟩

theorem mentions_reference_eq_error {constant : Constant}
    (h : constant.memberNameAndType? = some index) (hmember : nameAndTypeAt? pool index = none) :
    ∃ e, pool.mentions constant = .error e := by
  obtain ⟨e, he⟩ := nameAndType_of_nameAndTypeAt?_eq_none hmember
  cases constant <;> cases h <;>
    exact ⟨e, by simp only [mentions, Constant.memberNameAndType?, he]; rfl⟩

theorem mentions_of_resolves {constant : Constant} (h : constant.resolves pool) :
    ∃ names, pool.mentions constant = .ok names
      ∧ ∀ name, names.count name = constant.occurrences pool name := by
  cases hmember : constant.memberNameAndType? with
  | some index =>
      rw [resolves_reference hmember] at h
      obtain ⟨member, hfound⟩ := Option.isSome_iff_exists.mp h
      obtain ⟨hmentions, hcount⟩ := mentions_reference hmember hfound
      refine ⟨_, hmentions, fun name => ?_⟩
      rw [hcount, Descriptor.count_referencedTypes]
  | none =>
      cases constant with
      | classInfo nameIndex =>
          obtain ⟨text, htext⟩ := Option.isSome_iff_exists.mp h
          refine ⟨(Descriptor.classConstantType? text).toList, ?_, fun name => ?_⟩
          · rw [mentions, utf8_of_textAt? htext]
            rfl
          · rw [Descriptor.count_classConstantType?, Constant.occurrences, htext]
            rfl
      | methodType descriptorIndex =>
          obtain ⟨text, htext⟩ := Option.isSome_iff_exists.mp h
          refine ⟨Descriptor.referencedTypes text, ?_, fun name => ?_⟩
          · rw [mentions, utf8_of_textAt? htext]
            rfl
          · rw [Descriptor.count_referencedTypes, Constant.occurrences, htext]
            rfl
      | fieldRef | methodRef | interfaceMethodRef => cases hmember
      | _ => exact ⟨[], rfl, fun _ => rfl⟩

theorem mentions_of_not_resolves {constant : Constant} (h : ¬ constant.resolves pool) :
    ∃ e, pool.mentions constant = .error e := by
  cases hmember : constant.memberNameAndType? with
  | some index =>
      rw [resolves_reference hmember, Bool.not_eq_true, Option.isSome_eq_false_iff,
        Option.isNone_iff_eq_none] at h
      exact mentions_reference_eq_error hmember h
  | none =>
      cases constant with
      | classInfo index | methodType index =>
          rw [Constant.resolves, Bool.not_eq_true, Option.isSome_eq_false_iff,
            Option.isNone_iff_eq_none] at h
          obtain ⟨e, he⟩ := utf8_of_textAt?_eq_none h
          exact ⟨e, by rw [mentions, he]; rfl⟩
      | fieldRef | methodRef | interfaceMethodRef => cases hmember
      | _ => exact absurd rfl h

theorem mapM_entries (pool : ConstantPool) :
    (pool.entries.mapM fun entry => pool.mentions entry.2)
      = (pool.slots.toList.filter Constant.isUsable).mapM pool.mentions := by
  rw [← map_snd_entries, List.mapM_map]
  rfl

theorem isUsable_of_not_resolves {constant : Constant} (h : ¬ constant.resolves pool) :
    constant.isUsable := by
  cases constant with
  | unusable => exact absurd rfl h
  | _ => rfl

theorem occurrences_of_not_isUsable {constant : Constant} (name : String)
    (h : constant.isUsable = false) : constant.occurrences pool name = 0 := by
  cases constant with
  | unusable => rfl
  | _ => cases h

theorem exists_mentions (h : ∀ constant ∈ pool.slots, constant.resolves pool) :
    ∃ lists, (pool.entries.mapM fun entry => pool.mentions entry.2) = .ok lists
      ∧ ∀ name, lists.flatten.count name
        = total (Constant.occurrences pool name) pool.slots.toList := by
  have heach : ∀ constant ∈ pool.slots.toList.filter Constant.isUsable,
      ∃ names, pool.mentions constant = .ok names
        ∧ ∀ name, names.count name = constant.occurrences pool name := by
    intro constant hmem
    exact mentions_of_resolves (h constant (Array.mem_toList_iff.mp (List.mem_filter.mp hmem).1))
  obtain ⟨lists, hlists, htotal⟩ := exists_count_mapM heach
  refine ⟨lists, (mapM_entries pool).trans hlists, fun name => ?_⟩
  -- slots without a constant are not looked at, and mention nothing
  rw [htotal, total_filter fun constant => occurrences_of_not_isUsable name]

theorem exists_mentions_eq_error {constant : Constant} (hmem : constant ∈ pool.slots)
    (h : ¬ constant.resolves pool) :
    ∃ e, (pool.entries.mapM fun entry => pool.mentions entry.2) = .error e := by
  rw [mapM_entries]
  cases hresult : (pool.slots.toList.filter Constant.isUsable).mapM pool.mentions with
  | error e => exact ⟨e, rfl⟩
  | ok lists =>
      have husable : constant ∈ pool.slots.toList.filter Constant.isUsable :=
        List.mem_filter.mpr ⟨Array.mem_toList_iff.mpr hmem, isUsable_of_not_resolves h⟩
      have himage := List.mem_map_of_mem (f := pool.mentions) husable
      rw [mapM_eq_ok_iff.mp hresult] at himage
      obtain ⟨names, -, hnames⟩ := List.mem_map.mp himage
      obtain ⟨e, he⟩ := mentions_of_not_resolves h
      rw [he] at hnames
      cases hnames

end ConstantPool

/-! ### Signatures -/

namespace Signature

/-- A signature that follows the grammar mentions a class.  One that does not mentions none. -/
def IsMentioned (kind : SignatureKind) (name : String) (signature : Option String) : Prop :=
  ∃ text, signature = some text
    ∧ ∃ tree : Derivation kind, tree.Derives text ∧ name ∈ tree.mentions

theorem mem_mentions_iff {kind : SignatureKind} {name : String} {signature : Option String} :
    name ∈ mentions kind signature ↔ IsMentioned kind name signature := by
  have hread : name ∈ mentions kind signature ↔
      ∃ text, signature = some text
        ∧ ∃ names, referencedClasses kind text = .ok names ∧ name ∈ names := by
    cases signature with
    | none => simp [mentions]
    | some text =>
        rw [mentions]
        cases hresult : referencedClasses kind text <;> simp [hresult]
  rw [hread, IsMentioned]
  refine exists_congr fun text => and_congr_right fun _ => ?_
  constructor
  · rintro ⟨names, haccepted, hmem⟩
    obtain ⟨tree, hderives, rfl⟩ := referencedClasses_eq_ok_iff.mp haccepted
    exact ⟨tree, hderives, Ascending.mem_ofList.mp hmem⟩
  · rintro ⟨tree, hderives, hmem⟩
    exact ⟨_, referencedClasses_eq_ok_iff.mpr ⟨tree, hderives, rfl⟩, Ascending.mem_ofList.mpr hmem⟩

instance (kind : SignatureKind) (name : String) (signature : Option String) :
    Decidable (IsMentioned kind name signature) :=
  decidable_of_iff _ mem_mentions_iff

theorem nodup_mentions (kind : SignatureKind) (signature : Option String) :
    (mentions kind signature).Nodup := by
  unfold mentions
  split
  · exact List.nodup_nil
  · split
    · rename_i names haccepted
      obtain ⟨tree, -, rfl⟩ := referencedClasses_eq_ok_iff.mp haccepted
      exact (Ascending.isAscending_ofList tree.mentions).nodup
    · exact List.nodup_nil

/-- How often a signature mentions a class, which is once at most. -/
def occurrences (kind : SignatureKind) (name : String) (signature : Option String) : Nat :=
  if IsMentioned kind name signature then 1 else 0

theorem count_mentions (kind : SignatureKind) (name : String) (signature : Option String) :
    (mentions kind signature).count name = occurrences kind name signature := by
  simp only [(nodup_mentions kind signature).count, mem_mentions_iff, occurrences]

end Signature

/-! ### Annotations -/

mutual

/-- How often a value mentions a class. -/
def ElementValue.occurrences (name : String) : ElementValue → Nat
  | .const _ _ => 0
  | .enum typeDescriptor _ => Descriptor.occurrences name typeDescriptor
  | .classLiteral descriptor => Descriptor.occurrences name descriptor
  | .nested typeDescriptor elements =>
    Descriptor.occurrences name typeDescriptor + occurrencesInElements name elements
  | .array values => occurrencesInValues name values

@[inherit_doc ElementValue.occurrences]
def ElementValue.occurrencesInElements (name : String) : List (String × ElementValue) → Nat
  | [] => 0
  | (_, value) :: rest => value.occurrences name + occurrencesInElements name rest

@[inherit_doc ElementValue.occurrences]
def ElementValue.occurrencesInValues (name : String) : List ElementValue → Nat
  | [] => 0
  | value :: rest => value.occurrences name + occurrencesInValues name rest

end

/-- How often an annotation mentions a class, in its own type and in its values. -/
def AnnotationUse.occurrences (name : String) (use : AnnotationUse) : Nat :=
  Descriptor.occurrences name use.typeDescriptor
    + ElementValue.occurrencesInElements name use.elements

mutual

theorem ElementValue.count_mentionedTypes (name : String) : (value : ElementValue) →
    (value.mentionedTypes.flatMap Descriptor.referencedTypes).count name = value.occurrences name
  | .const _ _ => rfl
  | .enum typeDescriptor _ => by
      simp [mentionedTypes, occurrences, Descriptor.count_referencedTypes]
  | .classLiteral descriptor => by
      simp [mentionedTypes, occurrences, Descriptor.count_referencedTypes]
  | .nested typeDescriptor elements => by
      rw [mentionedTypes, occurrences, List.flatMap_cons, List.count_append,
        Descriptor.count_referencedTypes, count_mentionedTypesOfElements name elements]
  | .array values => by
      rw [mentionedTypes, occurrences, count_mentionedTypesOfValues name values]

theorem ElementValue.count_mentionedTypesOfElements (name : String) :
    (elements : List (String × ElementValue)) →
    ((mentionedTypesOfElements elements).flatMap Descriptor.referencedTypes).count name
      = occurrencesInElements name elements
  | [] => rfl
  | (_, value) :: rest => by
      rw [mentionedTypesOfElements, occurrencesInElements, List.flatMap_append, List.count_append,
        value.count_mentionedTypes name, count_mentionedTypesOfElements name rest]

theorem ElementValue.count_mentionedTypesOfValues (name : String) :
    (values : List ElementValue) →
    ((mentionedTypesOfValues values).flatMap Descriptor.referencedTypes).count name
      = occurrencesInValues name values
  | [] => rfl
  | value :: rest => by
      rw [mentionedTypesOfValues, occurrencesInValues, List.flatMap_append, List.count_append,
        value.count_mentionedTypes name, count_mentionedTypesOfValues name rest]

end

theorem AnnotationUse.count_mentions (name : String) (uses : List AnnotationUse) :
    (AnnotationUse.mentions uses).count name = total (AnnotationUse.occurrences name) uses := by
  rw [mentions, List.flatMap_assoc]
  refine count_flatMap (fun use => ?_) uses
  rw [mentionedTypes, List.flatMap_cons, List.count_append, Descriptor.count_referencedTypes,
    ElementValue.count_mentionedTypesOfElements, occurrences]

/-! ### Members and classes -/

/-- How often a field or method mentions a class. -/
def Member.occurrences (kind : SignatureKind) (name : String) (member : Member) : Nat :=
  Descriptor.occurrences name member.descriptor + Signature.occurrences kind name member.signature
    + total (AnnotationUse.occurrences name) member.annotations

theorem Member.count_mentions (kind : SignatureKind) (name : String) (member : Member) :
    (member.mentions kind).count name = member.occurrences kind name := by
  rw [mentions, List.count_append, List.count_append, Descriptor.count_referencedTypes,
    Signature.count_mentions, AnnotationUse.count_mentions, occurrences]

namespace ClassFile

/-- How often a compiled class mentions a class. -/
def occurrences (file : ClassFile) (name : String) : Nat :=
  total (Constant.occurrences file.constantPool name) file.constantPool.slots.toList
    + Signature.occurrences .classType name file.signature
    + total (Member.occurrences .field name) file.fields
    + total (Member.occurrences .method name) file.methods
    + total (AnnotationUse.occurrences name) file.annotations

variable {file : ClassFile}

theorem mentions_of_resolves
    (h : ∀ constant ∈ file.constantPool.slots, constant.resolves file.constantPool) :
    ∃ names, file.mentions = .ok names ∧ ∀ name, names.count name = file.occurrences name := by
  obtain ⟨lists, hlists, htotal⟩ := ConstantPool.exists_mentions h
  refine ⟨_, by rw [mentions, hlists]; rfl, fun name => ?_⟩
  simp only [List.count_append]
  rw [htotal, Signature.count_mentions, AnnotationUse.count_mentions,
    count_flatMap (Member.count_mentions .field name),
    count_flatMap (Member.count_mentions .method name), occurrences]

theorem mentions_of_not_resolves {constant : Constant}
    (hmem : constant ∈ file.constantPool.slots) (h : ¬ constant.resolves file.constantPool) :
    ∃ e, file.mentions = .error e := by
  obtain ⟨e, he⟩ := ConstantPool.exists_mentions_eq_error hmem h
  exact ⟨e, by rw [mentions, he]; rfl⟩

end ClassFile

/-! ### The table -/

namespace Ascending

theorem isTable_foldl_count (names : List String) {table : List (String × UInt32)}
    (h : IsTable table) : IsTable (names.foldl (fun table name => count name 1 table) table) := by
  induction names generalizing table with
  | nil => exact h
  | cons name names ih => exact ih (isTable_alter h name _)

/-- A name that is met adds one to what the table holds for it. -/
theorem find?_foldl_count (names : List String) (name : String) {table : List (String × UInt32)}
    (h : IsTable table) :
    find? name (names.foldl (fun table name => count name 1 table) table)
      = if names.count name = 0 then find? name table
        else some ((find? name table).getD 0 + UInt32.ofNat (names.count name)) := by
  -- the table is general: what the names met so far have left in it is what the rest adds to
  induction names generalizing table with
  | nil => rfl
  | cons first names ih =>
      have hstep := ih (isTable_alter h first fun old => old.getD 0 + 1)
      rw [List.foldl_cons, count, hstep]
      by_cases heq : first = name
      · subst heq
        rw [find?_alter_self h, List.count_cons_self, if_neg (Nat.succ_ne_zero _),
          UInt32.ofNat_add, Option.getD_some]
        split
        · rename_i hzero
          rw [hzero]
          rfl
        · rw [UInt32.add_assoc, UInt32.add_comm 1]
          rfl
      · rw [find?_alter_of_ne h (Ne.symm heq), List.count_cons_of_ne heq]

/-- Counts are exact as long as they fit. -/
theorem mem_foldl_count {names : List String} {name : String} {n : UInt32}
    (hfits : names.count name < 4294967296) :
    (name, n) ∈ names.foldl (fun table name => count name 1 table) [] ↔
      0 < names.count name ∧ n.toNat = names.count name := by
  have hempty : IsTable ([] : List (String × UInt32)) := List.Pairwise.nil
  rw [← find?_eq_some_iff (isTable_foldl_count names hempty), find?_foldl_count names name hempty]
  split
  · rename_i hzero
    simp [find?, hzero]
  · rename_i hpos
    have hword : (UInt32.ofNat (names.count name)).toNat = names.count name :=
      UInt32.toNat_ofNat_of_lt' hfits
    have hvalue : (find? name ([] : List (String × UInt32))).getD 0
        + UInt32.ofNat (names.count name) = UInt32.ofNat (names.count name) := UInt32.zero_add _
    rw [hvalue, Option.some_inj, and_iff_right (Nat.pos_of_ne_zero hpos), ← UInt32.toNat_inj, hword,
      eq_comm]

end Ascending

namespace ClassRecord

variable {file : ClassFile}

theorem ofClassFile_of_mentions {names : List String} (h : file.mentions = .ok names) :
    ∃ record, ofClassFile file = .ok record ∧ record.references
      = (names.filter (· ≠ file.thisClass)).foldl
        (fun table name => Ascending.count name 1 table) [] := by
  unfold ofClassFile
  rw [h]
  exact ⟨_, rfl, rfl⟩

theorem ofClassFile_of_mentions_eq_error {e : DecodeError} (h : file.mentions = .error e) :
    ofClassFile file = .error e := by
  unfold ofClassFile
  rw [h]
  rfl

/-- **The record of a compiled class counts the mentions of every other class**, and there is one
unless a constant refers to something that is not there. -/
theorem ofClassFile_counts (file : ClassFile) :
    ((∃ e, ofClassFile file = .error e) ↔
        ∃ constant ∈ file.constantPool.slots, ¬ constant.resolves file.constantPool)
      ∧ ((∀ constant ∈ file.constantPool.slots, constant.resolves file.constantPool) →
        ∃ record, ofClassFile file = .ok record
          ∧ (record.references.map Prod.fst).Pairwise (· < ·)
          ∧ (∀ count, (file.thisClass, count) ∉ record.references)
          ∧ ∀ name, name ≠ file.thisClass → file.occurrences name < 4294967296 →
            ∀ count, (name, count) ∈ record.references ↔
              0 < file.occurrences name ∧ count.toNat = file.occurrences name) := by
  refine ⟨⟨?_, ?_⟩, ?_⟩
  · -- nothing but the constants can fail, so if all resolve there is a record
    rintro ⟨e, he⟩
    by_contra hnone
    have hall : ∀ constant ∈ file.constantPool.slots, constant.resolves file.constantPool :=
      fun constant hmem => by_contra fun h => hnone ⟨constant, hmem, h⟩
    obtain ⟨names, hnames, -⟩ := ClassFile.mentions_of_resolves hall
    obtain ⟨record, hrecord, -⟩ := ofClassFile_of_mentions hnames
    rw [hrecord] at he
    cases he
  · rintro ⟨constant, hmem, h⟩
    obtain ⟨e, he⟩ := ClassFile.mentions_of_not_resolves hmem h
    exact ⟨e, ofClassFile_of_mentions_eq_error he⟩
  · intro hall
    obtain ⟨names, hnames, hcount⟩ := ClassFile.mentions_of_resolves hall
    obtain ⟨record, hrecord, hreferences⟩ := ofClassFile_of_mentions hnames
    refine ⟨record, hrecord, ?_, ?_, ?_⟩
    · have hempty : Ascending.IsTable ([] : List (String × UInt32)) := List.Pairwise.nil
      rw [hreferences]
      exact List.Pairwise.imp compare_string_lt.mp (Ascending.isTable_foldl_count _ hempty)
    · intro count hmem
      have hzero : (names.filter (· ≠ file.thisClass)).count file.thisClass = 0 :=
        List.count_eq_zero.mpr fun hself => by simpa using (List.mem_filter.mp hself).2
      rw [hreferences, Ascending.mem_foldl_count (by omega), hzero] at hmem
      exact absurd hmem.1 (Nat.lt_irrefl 0)
    · intro name hne hfits count
      have hothers : (names.filter (· ≠ file.thisClass)).count name = file.occurrences name :=
        (List.count_filter (by simpa using hne)).trans (hcount name)
      rw [← hothers] at hfits ⊢
      rw [hreferences, Ascending.mem_foldl_count hfits]

/-- A class that mentions `lib.Util` in places of different kinds, and itself as well.  Its method
has a malformed signature. -/
def sampleFile : ClassFile where
  minorVersion := 0
  majorVersion := 61
  constantPool := ⟨#[.unusable, .utf8 "app/Main", .classInfo 1, .utf8 "[[Llib/Util;", .classInfo 3,
    .utf8 "run", .utf8 "(Llib/Util;JLlib/Util;)Lapp/Main;", .nameAndType 5 6, .methodRef 4 7,
    .methodType 6]⟩
  accessFlags := 0
  thisClass := "app.Main"
  superClass := none
  interfaces := []
  fields := []
  methods := [⟨0, "run", "(Llib/Util;)V", some "(Llib/Util;", [], none⟩]
  signature := some "Llib/Base<Llib/Util;Llib/Util;>;"
  sourceFile := none
  annotations := [⟨"Llib/Mark;", [("value", .array [.classLiteral "[Llib/Util;", .const 73 1])]⟩]
  innerClasses := []
  size := 0

theorem sampleFile_counts :
    (∀ constant ∈ sampleFile.constantPool.slots, constant.resolves sampleFile.constantPool)
      ∧ ∃ record, ofClassFile sampleFile = .ok record
        ∧ ("lib.Util", 8) ∈ record.references ∧ ("lib.Mark", 1) ∈ record.references
        ∧ ∀ count, ("app.Main", count) ∉ record.references := by
  have hall : ∀ constant ∈ sampleFile.constantPool.slots,
      constant.resolves sampleFile.constantPool := by decide +kernel
  have hutil : sampleFile.occurrences "lib.Util" = 8 := by decide +kernel
  have hmark : sampleFile.occurrences "lib.Mark" = 1 := by decide +kernel
  obtain ⟨record, hrecord, -, hself, hcounts⟩ := (ofClassFile_counts sampleFile).2 hall
  refine ⟨hall, record, hrecord, ?_, ?_, hself⟩
  · exact (hcounts "lib.Util" (by decide) (by omega) 8).mpr ⟨by omega, hutil.symm⟩
  · exact (hcounts "lib.Mark" (by decide) (by omega) 1).mpr ⟨by omega, hmark.symm⟩

end ClassRecord

end PackageAudit
