/-
Reading back constants and annotations.

For every part of a layout there is a decoder, and for the two of them one fact: the decoder
reads the bytes of the part as what the part stands for.  Here that is shown from the numbers
up to tables of annotations; attributes and classes come in a module of their own.

Two decoders do not simply follow the layout.  That of the constants counts slots and not
constants, so it has to be shown that the two agree.  And annotations are read down to a number
of levels only, so the induction there is on the levels, and what is read has to be no higher.
-/
import PackageAudit.Proofs.ClassFile.Layout
import PackageAudit.Proofs.ClassFile.Reading

namespace PackageAudit

open Layout Decoder

/-! ### Numbers and tables -/

namespace Decoder

variable {α β ι : Type} {f : Decoder α} {g : α → Decoder β} {a : α} {b : β} {v : List UInt8}

theorem Reads.of_eq {u : List UInt8} {c : α} (h : f.Reads u a) (heq : a = c) : f.Reads u c := by
  rw [← heq]
  exact h

theorem Reads.lift_bind {result : Except DecodeError α} (h : result = .ok a)
    (hg : (g a).Reads v b) : (lift result >>= g).Reads v b := by
  rw [h]
  exact (reads_lift_ok a).bind hg

theorem reads_u8 (n : UInt8) : u8.Reads [n] n := by
  refine ((reads_bytes [n]).pure_bind _).of_eq ?_
  simp [bigEndian]

theorem reads_u16 (n : UInt16) : u16.Reads (Layout.u16 n) n := by
  refine ((reads_bytes (Layout.u16 n)).pure_bind _).of_eq ?_
  have hn := n.toNat_lt
  apply UInt16.toNat_inj.mp
  simp [bigEndian, Layout.u16]
  omega

theorem reads_u32 (n : UInt32) : u32.Reads (Layout.u32 n) n := by
  refine ((reads_bytes (Layout.u32 n)).pure_bind _).of_eq ?_
  have hn := n.toNat_lt
  apply UInt32.toNat_inj.mp
  simp [bigEndian, Layout.u32]
  omega

theorem reads_u64 (n : UInt64) : u64.Reads (Layout.u64 n) n := by
  refine ((reads_u32 _).bind ((reads_u32 _).pure_bind _)).of_eq ?_
  have hn := n.toNat_lt
  apply UInt64.toNat_inj.mp
  simp
  omega

theorem toNat_count {n : Nat} (h : n ≤ max16) : (UInt16.ofNat n).toNat = n :=
  UInt16.toNat_ofNat_of_lt' (Nat.lt_succ_of_le h)

/-- Items that stand one behind the other are read one after the other. -/
theorem reads_times {encode : ι → List UInt8} {meaning? : ι → Option α} {items : List ι}
    {values : List α}
    (hitem : ∀ item ∈ items, ∀ value, meaning? item = some value → f.Reads (encode item) value)
    (h : items.mapM meaning? = some values) :
    (f.times items.length).Reads (items.flatMap encode) values := by
  induction items generalizing values with
  | nil =>
      obtain rfl : values = [] := by simpa using h.symm
      exact reads_pure []
  | cons item rest ih =>
      simp only [List.mapM_cons, Option.bind_eq_bind, Option.bind_eq_some_iff] at h
      obtain ⟨value, hvalue, others, hothers, heq⟩ := h
      obtain rfl : value :: others = values := Option.some.inj heq
      have hrest := ih (fun item hmem => hitem item (List.mem_cons_of_mem _ hmem)) hothers
      rw [List.flatMap_cons]
      exact (hitem item List.mem_cons_self value hvalue).bind (hrest.pure_bind _)

theorem reads_table {encode : ι → List UInt8} {meaning? : ι → Option α} {items : List ι}
    {values : List α} (hlength : items.length ≤ max16)
    (hitem : ∀ item ∈ items, ∀ value, meaning? item = some value → f.Reads (encode item) value)
    (h : items.mapM meaning? = some values) :
    f.counted.Reads (table encode items) values := by
  refine (reads_u16 _).bind ?_
  rw [toNat_count hlength]
  exact reads_times hitem h

end Decoder

/-! ### Constants -/

theorem ConstantInfo.reads_decode {info : ConstantInfo} (h : info.fits = true) (index : Nat) :
    (Constant.decode index).Reads info.encode info.constant := by
  have hpair : ∀ (make : UInt16 → UInt16 → Constant) (first second : UInt16),
      (do let a ← Decoder.u16; return make a (← Decoder.u16)).Reads
        (Layout.u16 first ++ Layout.u16 second) (make first second) :=
    fun make first second => (reads_u16 first).bind ((reads_u16 second).pure_bind _)
  cases info with
  | utf8 bytes =>
      refine (reads_u8 1).bind ((reads_u16 _).bind ?_)
      rw [toNat_count (of_decide_eq_true h)]
      exact (reads_bytes bytes).pure_bind _
  | integer value =>
      exact (reads_u8 3).bind (((reads_u32 _).pure_bind _).of_eq (by simp [constant]))
  | float bits => exact (reads_u8 4).bind ((reads_u32 bits).pure_bind _)
  | long value =>
      exact (reads_u8 5).bind (((reads_u64 _).pure_bind _).of_eq (by simp [constant]))
  | double bits => exact (reads_u8 6).bind ((reads_u64 bits).pure_bind _)
  | classInfo nameIndex => exact (reads_u8 7).bind ((reads_u16 nameIndex).pure_bind _)
  | string stringIndex => exact (reads_u8 8).bind ((reads_u16 stringIndex).pure_bind _)
  | fieldRef first second => exact (reads_u8 9).bind (hpair _ first second)
  | methodRef first second => exact (reads_u8 10).bind (hpair _ first second)
  | interfaceMethodRef first second => exact (reads_u8 11).bind (hpair _ first second)
  | nameAndType first second => exact (reads_u8 12).bind (hpair _ first second)
  | methodHandle kind reference =>
      exact (reads_u8 15).bind ((reads_u8 kind).bind ((reads_u16 reference).pure_bind _))
  | methodType descriptorIndex =>
      exact (reads_u8 16).bind ((reads_u16 descriptorIndex).pure_bind _)
  | dynamic first second => exact (reads_u8 17).bind (hpair _ first second)
  | invokeDynamic first second => exact (reads_u8 18).bind (hpair _ first second)
  | module nameIndex => exact (reads_u8 19).bind ((reads_u16 nameIndex).pure_bind _)
  | package nameIndex => exact (reads_u8 20).bind ((reads_u16 nameIndex).pure_bind _)

theorem ConstantInfo.slots_cases (info : ConstantInfo) :
    info.constant.isWide = true ∧ info.slots = [info.constant, .unusable]
      ∨ info.constant.isWide = false ∧ info.slots = [info.constant] := by
  cases info <;> simp [constant, slots, Constant.isWide]

namespace ConstantPool

/-- As many slots are read as the constants take. -/
theorem reads_decodeSlots {constants : List ConstantInfo}
    (h : ∀ info ∈ constants, info.fits = true) (index : Nat) :
    (decodeSlots (constants.flatMap ConstantInfo.slots).length index).Reads
      (constants.flatMap ConstantInfo.encode) (constants.flatMap ConstantInfo.slots) := by
  induction constants generalizing index with
  | nil =>
      rw [List.flatMap_nil, List.length_nil, decodeSlots]
      exact reads_pure []
  | cons info rest ih =>
      have hrest := ih fun info hmem => h info (List.mem_cons_of_mem _ hmem)
      have hinfo := info.reads_decode (h info List.mem_cons_self) index
      rw [List.flatMap_cons, List.flatMap_cons]
      rcases info.slots_cases with ⟨hwide, hslots⟩ | ⟨hwide, hslots⟩
      · -- The slot behind a wide constant is counted off together with it.
        rw [hslots]
        simp only [List.cons_append, List.nil_append, List.length_cons]
        rw [decodeSlots]
        refine hinfo.bind ?_
        rw [if_pos hwide]
        exact (hrest _).pure_bind _
      · rw [hslots]
        simp only [List.cons_append, List.nil_append, List.length_cons]
        rw [decodeSlots]
        refine hinfo.bind ?_
        rw [hwide]
        exact (hrest _).pure_bind _

theorem reads_decode {constants : List ConstantInfo}
    (hsize : (Layout.pool constants).slots.size ≤ max16)
    (h : ∀ info ∈ constants, info.fits = true) :
    ConstantPool.decode.Reads (encodePool constants) (Layout.pool constants) := by
  refine (reads_u16 _).bind ?_
  rw [toNat_count hsize]
  exact (reads_decodeSlots h 1).pure_bind _

variable {pool : ConstantPool} {index : UInt16}

theorem utf8_of_textAt? {text : String} (h : textAt? pool index = some text) :
    pool.utf8 index = .ok text := by
  unfold textAt? at h
  split at h
  · rename_i found hslot
    rw [utf8, get?, hslot, Option.some.inj h]
  · exact nomatch h

theorem className_of_classAt? {name : String} (h : classAt? pool index = some name) :
    ∃ written, pool.className index = .ok written
      ∧ Descriptor.binaryName written.toList = name := by
  unfold classAt? at h
  split at h
  · rename_i nameIndex hslot
    obtain ⟨written, hwritten, hname⟩ := Option.map_eq_some_iff.mp h
    rw [className, get?, hslot]
    exact ⟨written, utf8_of_textAt? hwritten, hname⟩
  · exact nomatch h

/-- A reading that slot number 0 stands apart from agrees with what the slot number refers to. -/
theorem eq_ok_of_unlessZero {resolve : UInt16 → Option String} {found : Option String}
    {read : Except DecodeError (Option String)} (h : unlessZero resolve index = some found)
    (hread : ∀ text, resolve index = some text → read = .ok (some text)) :
    (if index = 0 then .ok none else read) = .ok found := by
  unfold unlessZero at h
  by_cases hzero : index = 0
  · rw [if_pos hzero] at h
    rw [if_pos hzero, Option.some.inj h]
  · rw [if_neg hzero, Option.map_eq_some_iff] at h
    obtain ⟨text, htext, rfl⟩ := h
    rw [if_neg hzero, hread text htext]

theorem optionalClassName_of_unlessZero {name : Option String}
    (h : unlessZero (classAt? pool) index = some name) :
    pool.optionalClassName index = .ok name := by
  refine eq_ok_of_unlessZero h fun found hfound => ?_
  obtain ⟨written, hwritten, rfl⟩ := className_of_classAt? hfound
  rw [hwritten]
  rfl

theorem optionalUtf8_of_unlessZero {text : Option String}
    (h : unlessZero (textAt? pool) index = some text) : pool.optionalUtf8 index = .ok text := by
  refine eq_ok_of_unlessZero h fun found hfound => ?_
  rw [utf8_of_textAt? hfound]
  rfl

theorem reads_decodeUtf8 {text : String} (h : textAt? pool index = some text) :
    pool.decodeUtf8.Reads (Layout.u16 index) text := by
  refine (reads_u16 index).bind_nil ?_
  rw [utf8_of_textAt? h]
  exact reads_lift_ok text

theorem reads_decodeClassName {name : String} (h : classAt? pool index = some name) :
    pool.decodeClassName.Reads (Layout.u16 index) name := by
  obtain ⟨written, hwritten, rfl⟩ := className_of_classAt? h
  refine (reads_u16 index).bind_nil ?_
  rw [hwritten]
  exact (reads_lift_ok written).pure_bind _

theorem reads_decodeAttribute {name : String} (h : textAt? pool index = some name)
    {body : List UInt8} (hlength : body.length ≤ max32) :
    pool.decodeAttribute.Reads (Layout.u16 index ++ (Layout.u32 (UInt32.ofNat body.length) ++ body))
      (name, body) := by
  refine (reads_decodeUtf8 h).bind ((reads_u32 _).bind ?_)
  rw [UInt32.toNat_ofNat_of_lt' (Nat.lt_succ_of_le hlength)]
  exact (reads_bytes body).pure_bind _

end ConstantPool

/-! ### Annotations -/

namespace ElementInfo

/-- The bytes of a named element. -/
def encodeElement (element : UInt16 × ElementInfo) : List UInt8 :=
  Layout.u16 element.1 ++ element.2.encode

/-- A named element that is meant. -/
def element? (pool : ConstantPool) (element : UInt16 × ElementInfo) :
    Option (String × ElementValue) := do
  let name ← textAt? pool element.1
  let value ← element.2.value? pool
  return (name, value)

theorem encodeElements_eq (elements : List (UInt16 × ElementInfo)) :
    encodeElements elements = elements.flatMap encodeElement := by
  induction elements with
  | nil => rw [encodeElements, List.flatMap_nil]
  | cons element rest ih => rw [encodeElements, ih, List.flatMap_cons, encodeElement]

theorem encodeValues_eq (values : List ElementInfo) :
    encodeValues values = values.flatMap encode := by
  induction values with
  | nil => rw [encodeValues, List.flatMap_nil]
  | cons value rest ih => rw [encodeValues, ih, List.flatMap_cons]

theorem elements?_eq (pool : ConstantPool) (elements : List (UInt16 × ElementInfo)) :
    elements? pool elements = elements.mapM (element? pool) := by
  induction elements with
  | nil => rw [elements?, List.mapM_nil]; rfl
  | cons element rest ih =>
      rw [elements?, ih, List.mapM_cons]
      simp only [element?, bind_assoc, pure_bind]

theorem values?_eq (pool : ConstantPool) (values : List ElementInfo) :
    values? pool values = values.mapM (value? pool) := by
  induction values with
  | nil => rw [values?, List.mapM_nil]; rfl
  | cons value rest ih => rw [values?, ih, List.mapM_cons]

theorem fits_of_mem_elements {elements : List (UInt16 × ElementInfo)}
    (h : fitElements elements = true) {element : UInt16 × ElementInfo} (hmem : element ∈ elements) :
    element.2.fits = true ∧ element.2.height + 1 ≤ heightOfElements elements := by
  induction elements with
  | nil => exact absurd hmem List.not_mem_nil
  | cons first rest ih =>
      rw [fitElements, Bool.and_eq_true] at h
      rw [heightOfElements]
      rcases List.mem_cons.mp hmem with rfl | hmem
      · exact ⟨h.1, Nat.le_max_left _ _⟩
      · obtain ⟨hfits, hheight⟩ := ih h.2 hmem
        exact ⟨hfits, by omega⟩

theorem fits_of_mem_values {values : List ElementInfo} (h : fitValues values = true)
    {value : ElementInfo} (hmem : value ∈ values) :
    value.fits = true ∧ value.height + 1 ≤ heightOfValues values := by
  induction values with
  | nil => exact absurd hmem List.not_mem_nil
  | cons first rest ih =>
      rw [fitValues, Bool.and_eq_true] at h
      rw [heightOfValues]
      rcases List.mem_cons.mp hmem with rfl | hmem
      · exact ⟨h.1, Nat.le_max_left _ _⟩
      · obtain ⟨hfits, hheight⟩ := ih h.2 hmem
        exact ⟨hfits, by omega⟩

end ElementInfo

namespace AnnotationUse

open ElementInfo

variable {pool : ConstantPool} {levels : Nat}

theorem reads_decodeWithin_succ
    (hvalue : ∀ (info : ElementInfo) (value : ElementValue), info.height < levels →
      info.fits = true → info.value? pool = some value →
      (decodeValueWithin pool levels).Reads info.encode value)
    {typeIndex : UInt16} {elements : List (UInt16 × ElementInfo)} {typeDescriptor : String}
    {values : List (String × ElementValue)} (hheight : heightOfElements elements ≤ levels)
    (hlength : elements.length ≤ max16) (hfits : fitElements elements = true)
    (htype : textAt? pool typeIndex = some typeDescriptor)
    (helements : elements? pool elements = some values) :
    (decodeWithin pool (levels + 1)).Reads
      (Layout.u16 typeIndex ++ table encodeElement elements) ⟨typeDescriptor, values⟩ := by
  rw [decodeWithin]
  rw [elements?_eq] at helements
  refine (ConstantPool.reads_decodeUtf8 htype).bind ?_
  refine Reads.pure_bind (reads_table hlength ?_ helements) _
  intro element hmem value hmeaning
  obtain ⟨hfit, hheight'⟩ := fits_of_mem_elements hfits hmem
  simp only [element?, Option.bind_eq_bind, Option.bind_eq_some_iff] at hmeaning
  obtain ⟨name, hname, inner, hinner, heq⟩ := hmeaning
  obtain rfl : (name, inner) = value := Option.some.inj heq
  refine (ConstantPool.reads_decodeUtf8 hname).bind ?_
  exact (hvalue element.2 inner (by omega) hfit hinner).pure_bind _

/-- An element value is read if no more levels lie below it than may be gone down. -/
theorem reads_decodeValueWithin (pool : ConstantPool) (levels : Nat) :
    ∀ (info : ElementInfo) (value : ElementValue), info.height < levels →
      info.fits = true → info.value? pool = some value →
      (decodeValueWithin pool levels).Reads info.encode value := by
  induction levels using Nat.strongRecOn with
  | ind levels ih =>
      intro info value hheight hfits hmeaning
      obtain ⟨levels, rfl⟩ : ∃ below, levels = below + 1 := ⟨levels - 1, by omega⟩
      rw [decodeValueWithin]
      cases info with
      | const tag index =>
          rw [value?, Option.some.injEq] at hmeaning
          subst hmeaning
          rw [ElementInfo.encode]
          refine (reads_u8 tag.code).bind (u := [tag.code]) ?_
          have hconst : constTags.contains tag.code.toNat = true := by
            cases tag <;> decide
          rw [if_pos hconst]
          exact (reads_u16 index).pure_bind _
      | enum typeIndex nameIndex =>
          simp only [value?, Option.bind_eq_bind, Option.bind_eq_some_iff] at hmeaning
          obtain ⟨typeDescriptor, htype, name, hname, heq⟩ := hmeaning
          obtain rfl := Option.some.inj heq
          rw [ElementInfo.encode]
          exact (reads_u8 0x65).bind ((ConstantPool.reads_decodeUtf8 htype).bind
            ((ConstantPool.reads_decodeUtf8 hname).pure_bind _))
      | classLiteral index =>
          simp only [value?, Option.bind_eq_bind, Option.bind_eq_some_iff] at hmeaning
          obtain ⟨descriptor, hdescriptor, heq⟩ := hmeaning
          obtain rfl := Option.some.inj heq
          rw [ElementInfo.encode]
          exact (reads_u8 0x63).bind ((ConstantPool.reads_decodeUtf8 hdescriptor).pure_bind _)
      | nested typeIndex elements =>
          simp only [value?, Option.bind_eq_bind, Option.bind_eq_some_iff] at hmeaning
          obtain ⟨typeDescriptor, htype, values, hvalues, heq⟩ := hmeaning
          obtain rfl := Option.some.inj heq
          rw [ElementInfo.fits, Bool.and_eq_true, decide_eq_true_eq] at hfits
          rw [ElementInfo.height] at hheight
          rw [ElementInfo.encode, encodeElements_eq, List.append_assoc]
          -- The annotation is one level down and its elements are two, so the induction has to
          -- reach further than to the next level.
          obtain ⟨below, rfl⟩ : ∃ below, levels = below + 1 := ⟨levels - 1, by omega⟩
          exact (reads_u8 0x40).bind (Reads.pure_bind (reads_decodeWithin_succ
            (ih below (by omega)) (by omega) hfits.1 hfits.2 htype hvalues) _)
      | array values =>
          simp only [value?, Option.bind_eq_bind, Option.bind_eq_some_iff] at hmeaning
          obtain ⟨members, hmembers, heq⟩ := hmeaning
          obtain rfl := Option.some.inj heq
          rw [ElementInfo.fits, Bool.and_eq_true, decide_eq_true_eq] at hfits
          rw [ElementInfo.height] at hheight
          rw [ElementInfo.encode, encodeValues_eq]
          rw [values?_eq] at hmembers
          refine (reads_u8 0x5B).bind (Reads.pure_bind (reads_table hfits.1 ?_ hmembers) _)
          intro member hmem inner hinner
          obtain ⟨hfit, hheight'⟩ := fits_of_mem_values hfits.2 hmem
          exact ih levels (by omega) member inner (by omega) hfit hinner

theorem reads_decode {info : AnnotationInfo} {use : AnnotationUse} (hfits : info.fits = true)
    (h : info.use? pool = some use) : (decode pool).Reads info.encode use := by
  simp only [AnnotationInfo.fits, Bool.and_eq_true, decide_eq_true_eq] at hfits
  obtain ⟨⟨hlength, helements⟩, hheight⟩ := hfits
  simp only [AnnotationInfo.use?, Option.bind_eq_bind, Option.bind_eq_some_iff] at h
  obtain ⟨typeDescriptor, htype, values, hvalues, heq⟩ := h
  obtain rfl := Option.some.inj heq
  exact reads_decodeWithin_succ (reads_decodeValueWithin pool maxDepth) hheight hlength helements
    htype hvalues

theorem reads_decodeTable {uses : List AnnotationInfo} {values : List AnnotationUse}
    (hfits : fitAnnotations uses = true)
    (h : uses.mapM (AnnotationInfo.use? pool) = some values) :
    (decodeTable pool).Reads (table AnnotationInfo.encode uses) values := by
  simp only [fitAnnotations, Bool.and_eq_true, decide_eq_true_eq, List.all_eq_true] at hfits
  exact reads_table hfits.1 (fun info hmem use huse => reads_decode (hfits.2 info hmem) huse) h

theorem reads_decodeParameterTables {parameters : List (List AnnotationInfo)}
    {tables : List (List AnnotationUse)} (hlength : parameters.length ≤ max8)
    (hfits : ∀ uses ∈ parameters, fitAnnotations uses = true)
    (h : parameters.mapM (fun uses => uses.mapM (AnnotationInfo.use? pool)) = some tables) :
    (decodeParameterTables pool).Reads
      (UInt8.ofNat parameters.length :: parameters.flatMap (table AnnotationInfo.encode))
      tables.flatten := by
  have hcount : (UInt8.ofNat parameters.length).toNat = parameters.length :=
    UInt8.toNat_ofNat_of_lt' (Nat.lt_succ_of_le hlength)
  refine (reads_u8 _).bind (u := [_]) ?_
  rw [hcount]
  exact Reads.pure_bind (reads_times
    (fun uses hmem values hvalues => reads_decodeTable (hfits uses hmem) hvalues) h) _

end AnnotationUse

end PackageAudit
