/-
How deep annotations may be nested.

The outermost annotation lies at depth 0, and every element value, every member of an array and
every annotation that is a value lies one below the node that holds it.  What is shown here is
that the limit cuts at exactly one depth, on all the ways down: an annotation without a node
deeper than 64 is read as it was written, and any other one is refused for its nesting, whatever
bytes follow.  Everything before the first node that is too deep is read as usual, so where in
the tree it lies makes no difference.
-/
import PackageAudit.Proofs.ClassFile.Encoding
import PackageAudit.Proofs.Traversal

namespace PackageAudit

open Layout Decoder

/-! ### Bytes that a decoder refuses -/

namespace Decoder

variable {α β ι : Type} {f : Decoder α} {g : α → Decoder β} {a : α} {u v : List UInt8}
  {e : DecodeError}

/-- The decoder fails on the bytes `used`, wherever it stands and whatever follows. -/
def Rejects (decoder : Decoder α) (used : List UInt8) (e : DecodeError) : Prop :=
  ∀ offset rest, decoder ⟨offset, used ++ rest⟩ = .error e

theorem rejects_throw (e : DecodeError) (u : List UInt8) : (throw e : Decoder α).Rejects u e :=
  fun _ _ => rfl

theorem Rejects.append (hf : f.Rejects u e) (v : List UInt8) : f.Rejects (u ++ v) e := by
  intro offset rest
  rw [List.append_assoc]
  exact hf offset (v ++ rest)

theorem Rejects.bind (hf : f.Rejects u e) : (f >>= g).Rejects u e :=
  fun offset rest => bind_of_error (hf offset rest)

theorem Reads.bind_rejects (hf : f.Reads u a) (hg : (g a).Rejects v e) :
    (f >>= g).Rejects (u ++ v) e := by
  intro offset rest
  rw [List.append_assoc, bind_of_ok (hf offset (v ++ rest))]
  exact hg _ rest

/-- Of items that stand one behind the other the first that is refused decides. -/
theorem rejects_times {encode : ι → List UInt8} {items : List ι} {bad : ι → Prop}
    (hbad : ∀ item ∈ items, bad item → f.Rejects (encode item) e)
    (hgood : ∀ item ∈ items, ¬ bad item → ∃ value, f.Reads (encode item) value)
    (hsome : ∃ item ∈ items, bad item) :
    (f.times items.length).Rejects (items.flatMap encode) e := by
  induction items with
  | nil => simp at hsome
  | cons first rest ih =>
      obtain ⟨hbadFirst, hbadRest⟩ := List.forall_mem_cons.mp hbad
      obtain ⟨hgoodFirst, hgoodRest⟩ := List.forall_mem_cons.mp hgood
      rw [List.flatMap_cons]
      by_cases hfirst : bad first
      · exact (hbadFirst hfirst).bind.append _
      · obtain ⟨value, hread⟩ := hgoodFirst hfirst
        have hlater : ∃ item ∈ rest, bad item := by simpa [hfirst] using hsome
        exact hread.bind_rejects (ih hbadRest hgoodRest hlater).bind

theorem rejects_table {encode : ι → List UInt8} {items : List ι} {bad : ι → Prop}
    (hlength : items.length ≤ max16)
    (hbad : ∀ item ∈ items, bad item → f.Rejects (encode item) e)
    (hgood : ∀ item ∈ items, ¬ bad item → ∃ value, f.Reads (encode item) value)
    (hsome : ∃ item ∈ items, bad item) :
    f.counted.Rejects (table encode items) e := by
  refine (reads_u16 _).bind_rejects ?_
  rw [toNat_count hlength]
  exact rejects_times hbad hgood hsome

end Decoder

/-! ### Annotations that are nested too deeply -/

namespace ElementInfo

theorem heightOfElements_le_iff {elements : List (UInt16 × ElementInfo)} {k n : Nat} :
    heightOfElements elements + k ≤ n ↔
      k ≤ n ∧ ∀ element ∈ elements, element.2.height + (k + 1) ≤ n := by
  induction elements with
  | nil => simp [heightOfElements]
  | cons element rest ih =>
      rw [heightOfElements, List.forall_mem_cons, and_left_comm, ← ih]
      omega

theorem heightOfValues_le_iff {values : List ElementInfo} {k n : Nat} :
    heightOfValues values + k ≤ n ↔ k ≤ n ∧ ∀ value ∈ values, value.height + (k + 1) ≤ n := by
  induction values with
  | nil => simp [heightOfValues]
  | cons value rest ih =>
      rw [heightOfValues, List.forall_mem_cons, and_left_comm, ← ih]
      omega

theorem exists_of_lt_heightOfElements {elements : List (UInt16 × ElementInfo)} {n : Nat}
    (h : n < heightOfElements elements) : ∃ element ∈ elements, n ≤ element.2.height := by
  by_contra hnone
  have hle : heightOfElements elements + 0 ≤ n := by
    refine heightOfElements_le_iff.mpr ⟨Nat.zero_le n, fun element hmem => ?_⟩
    have hlow : ¬ n ≤ element.2.height := fun hdeep => hnone ⟨element, hmem, hdeep⟩
    omega
  omega

theorem exists_of_lt_heightOfValues {values : List ElementInfo} {n : Nat}
    (h : n < heightOfValues values) : ∃ value ∈ values, n ≤ value.height := by
  by_contra hnone
  have hle : heightOfValues values + 0 ≤ n := by
    refine heightOfValues_le_iff.mpr ⟨Nat.zero_le n, fun value hmem => ?_⟩
    have hlow : ¬ n ≤ value.height := fun hdeep => hnone ⟨value, hmem, hdeep⟩
    omega
  omega

variable {pool : ConstantPool}

theorem element?_eq_some_iff {element : UInt16 × ElementInfo} {name : String}
    {value : ElementValue} :
    element? pool element = some (name, value)
      ↔ textAt? pool element.1 = some name ∧ element.2.value? pool = some value := by
  simp [element?, Option.bind_eq_some_iff]

end ElementInfo

namespace AnnotationUse

open ElementInfo

variable {pool : ConstantPool} {levels : Nat}

theorem rejects_decodeWithin_succ
    (hvalue : ∀ (info : ElementInfo) (value : ElementValue), levels ≤ info.height →
      info.fits = true → info.value? pool = some value →
      (decodeValueWithin pool levels).Rejects info.encode .nestingTooDeep)
    {typeIndex : UInt16} {elements : List (UInt16 × ElementInfo)} {typeDescriptor : String}
    {values : List (String × ElementValue)} (hheight : levels < heightOfElements elements)
    (hlength : elements.length ≤ max16) (hfits : fitElements elements = true)
    (htype : textAt? pool typeIndex = some typeDescriptor)
    (helements : elements? pool elements = some values) :
    (decodeWithin pool (levels + 1)).Rejects
      (Layout.u16 typeIndex ++ table encodeElement elements) .nestingTooDeep := by
  rw [elements?_eq] at helements
  have hmeant : ∀ element ∈ elements, ∃ name value, textAt? pool element.1 = some name
      ∧ element.2.value? pool = some value := by
    intro element hmem
    obtain ⟨⟨name, value⟩, -, heq⟩ := exists_of_mem_of_mapM helements hmem
    exact ⟨name, value, element?_eq_some_iff.mp heq⟩
  rw [decodeWithin]
  refine (ConstantPool.reads_decodeUtf8 htype).bind_rejects (Rejects.bind ?_)
  refine rejects_table hlength ?_ ?_ (exists_of_lt_heightOfElements hheight)
  · intro element hmem hdeep
    obtain ⟨name, value, hname, hinner⟩ := hmeant element hmem
    have hfit := (fits_of_mem_elements hfits hmem).1
    exact (ConstantPool.reads_decodeUtf8 hname).bind_rejects
      (hvalue element.2 value hdeep hfit hinner).bind
  · intro element hmem hdeep
    obtain ⟨name, value, hname, hinner⟩ := hmeant element hmem
    have hfit := (fits_of_mem_elements hfits hmem).1
    exact ⟨_, (ConstantPool.reads_decodeUtf8 hname).bind
      ((reads_decodeValueWithin pool levels element.2 value (by omega) hfit hinner).pure_bind _)⟩

/-- An element value is refused if more levels lie below it than may be gone down. -/
theorem rejects_decodeValueWithin (pool : ConstantPool) (levels : Nat) :
    ∀ (info : ElementInfo) (value : ElementValue), levels ≤ info.height →
      info.fits = true → info.value? pool = some value →
      (decodeValueWithin pool levels).Rejects info.encode .nestingTooDeep := by
  induction levels using Nat.strongRecOn with
  | ind levels ih =>
      intro info value hheight hfits hmeaning
      cases levels with
      | zero =>
          rw [decodeValueWithin]
          exact rejects_throw _ _
      | succ levels =>
          rw [decodeValueWithin]
          cases info with
          | const tag index => exact absurd hheight (by simp [ElementInfo.height])
          | enum typeIndex nameIndex => exact absurd hheight (by simp [ElementInfo.height])
          | classLiteral index => exact absurd hheight (by simp [ElementInfo.height])
          | nested typeIndex elements =>
              simp only [value?, Option.bind_eq_bind, Option.bind_eq_some_iff] at hmeaning
              obtain ⟨typeDescriptor, htype, values, hvalues, -⟩ := hmeaning
              rw [ElementInfo.fits, Bool.and_eq_true, decide_eq_true_eq] at hfits
              rw [ElementInfo.height] at hheight
              rw [ElementInfo.encode, encodeElements_eq, List.append_assoc]
              refine (reads_u8 0x40).bind_rejects (Rejects.bind ?_)
              cases levels with
              | zero =>
                  rw [decodeWithin]
                  exact rejects_throw _ _
              | succ levels =>
                  exact rejects_decodeWithin_succ (ih levels (by omega)) (by omega) hfits.1
                    hfits.2 htype hvalues
          | array values =>
              simp only [value?, Option.bind_eq_bind, Option.bind_eq_some_iff] at hmeaning
              obtain ⟨members, hmembers, -⟩ := hmeaning
              rw [ElementInfo.fits, Bool.and_eq_true, decide_eq_true_eq] at hfits
              rw [ElementInfo.height] at hheight
              rw [ElementInfo.encode, encodeValues_eq]
              rw [values?_eq] at hmembers
              refine (reads_u8 0x5B).bind_rejects (Rejects.bind ?_)
              refine rejects_table hfits.1 ?_ ?_ (exists_of_lt_heightOfValues hheight)
              · intro member hmem hdeep
                obtain ⟨inner, -, hinner⟩ := exists_of_mem_of_mapM hmembers hmem
                exact ih levels (by omega) member inner hdeep
                  (fits_of_mem_values hfits.2 hmem).1 hinner
              · intro member hmem hdeep
                obtain ⟨inner, -, hinner⟩ := exists_of_mem_of_mapM hmembers hmem
                exact ⟨inner, reads_decodeValueWithin pool levels member inner (by omega)
                  (fits_of_mem_values hfits.2 hmem).1 hinner⟩

end AnnotationUse

/-! ### Trees -/

mutual

/-- A node of a value lies `depth` levels below it. -/
inductive ElementValue.HasNodeAt : ElementValue → Nat → Prop
  | self (value : ElementValue) : ElementValue.HasNodeAt value 0
  | nested {typeDescriptor : String} {elements : List (String × ElementValue)} {depth : Nat} :
      AnnotationUse.HasNodeAt ⟨typeDescriptor, elements⟩ depth →
      ElementValue.HasNodeAt (.nested typeDescriptor elements) (depth + 1)
  | member {values : List ElementValue} {value : ElementValue} {depth : Nat} :
      value ∈ values → ElementValue.HasNodeAt value depth →
      ElementValue.HasNodeAt (.array values) (depth + 1)

/-- A node of an annotation lies at `depth`, the annotation itself being at depth 0. -/
inductive AnnotationUse.HasNodeAt : AnnotationUse → Nat → Prop
  | root (use : AnnotationUse) : AnnotationUse.HasNodeAt use 0
  | element {use : AnnotationUse} {name : String} {value : ElementValue} {depth : Nat} :
      (name, value) ∈ use.elements → ElementValue.HasNodeAt value depth →
      AnnotationUse.HasNodeAt use (depth + 1)

end

/-- A slot holds the text. -/
def ConstantPool.Holds (pool : ConstantPool) (text : String) : Prop :=
  ∃ index, textAt? pool index = some text

/-- A value that can be written down: the pool holds its texts, its counts fit, and constants have
a tag of their kind. -/
inductive ElementValue.IsWritable (pool : ConstantPool) : ElementValue → Prop
  | const (tag : ConstTag) (index : UInt16) : IsWritable pool (.const tag.code index)
  | enum {typeDescriptor constName : String} : pool.Holds typeDescriptor → pool.Holds constName →
      IsWritable pool (.enum typeDescriptor constName)
  | classLiteral {descriptor : String} : pool.Holds descriptor →
      IsWritable pool (.classLiteral descriptor)
  | nested {typeDescriptor : String} {elements : List (String × ElementValue)} :
      pool.Holds typeDescriptor → elements.length ≤ max16 →
      (∀ element ∈ elements, pool.Holds element.1) →
      (∀ element ∈ elements, IsWritable pool element.2) →
      IsWritable pool (.nested typeDescriptor elements)
  | array {values : List ElementValue} : values.length ≤ max16 →
      (∀ value ∈ values, IsWritable pool value) → IsWritable pool (.array values)

/-- An annotation that can be written down. -/
def AnnotationUse.IsWritable (pool : ConstantPool) (use : AnnotationUse) : Prop :=
  (ElementValue.nested use.typeDescriptor use.elements).IsWritable pool

namespace ElementInfo

variable {pool : ConstantPool} {info : ElementInfo} {value : ElementValue}

theorem value?_eq_nested_iff {typeDescriptor : String} {elements : List (String × ElementValue)} :
    info.value? pool = some (.nested typeDescriptor elements) ↔
      ∃ typeIndex infos, info = .nested typeIndex infos
        ∧ textAt? pool typeIndex = some typeDescriptor
        ∧ infos.mapM (element? pool) = some elements := by
  cases info <;> simp [value?, Option.bind_eq_some_iff, elements?_eq]

theorem value?_eq_array_iff {values : List ElementValue} :
    info.value? pool = some (.array values) ↔
      ∃ infos, info = .array infos ∧ infos.mapM (value? pool) = some values := by
  cases info <;> simp [value?, Option.bind_eq_some_iff, values?_eq]

/-- What can be written has a layout. -/
theorem exists_value?_eq (h : value.IsWritable pool) :
    ∃ info : ElementInfo, info.value? pool = some value := by
  induction h with
  | const tag index => exact ⟨.const tag index, by rw [value?]⟩
  | enum htype hname =>
      obtain ⟨typeIndex, htype⟩ := htype
      obtain ⟨nameIndex, hname⟩ := hname
      exact ⟨.enum typeIndex nameIndex, by simp [value?, htype, hname]⟩
  | classLiteral hdescriptor =>
      obtain ⟨index, hdescriptor⟩ := hdescriptor
      exact ⟨.classLiteral index, by simp [value?, hdescriptor]⟩
  | @nested typeDescriptor elements htype _ hnames _ ih =>
      obtain ⟨typeIndex, htype⟩ := htype
      have helements : ∀ element ∈ elements, ∃ item, element? pool item = some element := by
        intro element hmem
        obtain ⟨nameIndex, hname⟩ := hnames element hmem
        obtain ⟨info, hinfo⟩ := ih element hmem
        exact ⟨(nameIndex, info), element?_eq_some_iff.mpr ⟨hname, hinfo⟩⟩
      obtain ⟨infos, hinfos⟩ := exists_mapM_eq_some helements
      exact ⟨.nested typeIndex infos, value?_eq_nested_iff.mpr ⟨_, _, rfl, htype, hinfos⟩⟩
  | array _ _ ih =>
      obtain ⟨infos, hinfos⟩ := exists_mapM_eq_some ih
      exact ⟨.array infos, value?_eq_array_iff.mpr ⟨_, rfl, hinfos⟩⟩

theorem fitElements_iff {elements : List (UInt16 × ElementInfo)} :
    fitElements elements = true ↔ ∀ element ∈ elements, element.2.fits = true := by
  induction elements with
  | nil => simp [fitElements]
  | cons element rest ih =>
      rw [fitElements, Bool.and_eq_true, ih, List.forall_mem_cons]

theorem fitValues_iff {values : List ElementInfo} :
    fitValues values = true ↔ ∀ value ∈ values, value.fits = true := by
  induction values with
  | nil => simp [fitValues]
  | cons value rest ih =>
      rw [fitValues, Bool.and_eq_true, ih, List.forall_mem_cons]

/-- The counts of what can be written fit in each of its layouts. -/
theorem fits_of_value?_eq (h : value.IsWritable pool) (hinfo : info.value? pool = some value) :
    info.fits = true := by
  induction h generalizing info with
  | nested _ hlength _ _ ih =>
      obtain ⟨typeIndex, infos, rfl, -, hinfos⟩ := value?_eq_nested_iff.mp hinfo
      rw [ElementInfo.fits, Bool.and_eq_true, decide_eq_true_eq, length_of_mapM hinfos,
        fitElements_iff]
      refine ⟨hlength, fun element hmem => ?_⟩
      obtain ⟨⟨name, inner⟩, hinner, hmeant⟩ := exists_of_mem_of_mapM hinfos hmem
      exact ih _ hinner (element?_eq_some_iff.mp hmeant).2
  | array hlength _ ih =>
      obtain ⟨infos, rfl, hinfos⟩ := value?_eq_array_iff.mp hinfo
      rw [ElementInfo.fits, Bool.and_eq_true, decide_eq_true_eq, length_of_mapM hinfos,
        fitValues_iff]
      refine ⟨hlength, fun member hmem => ?_⟩
      obtain ⟨inner, hinner, hmeant⟩ := exists_of_mem_of_mapM hinfos hmem
      exact ih _ hinner hmeant
  | _ => cases info <;> simp_all [value?, ElementInfo.fits, Option.bind_eq_some_iff]

end ElementInfo

namespace ElementValue

variable {k n : Nat}

theorem forall_hasNodeAt_nested {typeDescriptor : String}
    {elements : List (String × ElementValue)} :
    (∀ depth, (nested typeDescriptor elements).HasNodeAt depth → depth + k ≤ n) ↔
      k + 1 ≤ n ∧ ∀ element ∈ elements, ∀ depth, element.2.HasNodeAt depth →
        depth + (k + 2) ≤ n := by
  refine ⟨?_, ?_⟩
  · intro h
    have hone := h 1 (.nested (.root _))
    refine ⟨by omega, ?_⟩
    rintro ⟨name, value⟩ hmem depth hnode
    have hbelow := h (depth + 2) (.nested (.element hmem hnode))
    omega
  · rintro ⟨hone, helements⟩ depth hnode
    cases hnode with
    | self => omega
    | nested hnode =>
        cases hnode with
        | root => omega
        | element hmem hnode =>
            have hbelow := helements _ hmem _ hnode
            omega

theorem forall_hasNodeAt_array {values : List ElementValue} :
    (∀ depth, (array values).HasNodeAt depth → depth + k ≤ n) ↔
      k ≤ n ∧ ∀ value ∈ values, ∀ depth, value.HasNodeAt depth → depth + (k + 1) ≤ n := by
  refine ⟨?_, ?_⟩
  · intro h
    have hself := h 0 (.self _)
    refine ⟨by omega, ?_⟩
    intro value hmem depth hnode
    have hbelow := h (depth + 1) (.member hmem hnode)
    omega
  · rintro ⟨hself, hvalues⟩ depth hnode
    cases hnode with
    | self => omega
    | member hmem hnode =>
        have hbelow := hvalues _ hmem _ hnode
        omega

end ElementValue

namespace ElementInfo

variable {pool : ConstantPool} {info : ElementInfo} {value : ElementValue}

/-- The height of a layout is how deep the nodes of the value lie. -/
theorem height_le_iff (h : value.IsWritable pool) (hinfo : info.value? pool = some value)
    {k n : Nat} :
    info.height + k ≤ n ↔ ∀ depth, value.HasNodeAt depth → depth + k ≤ n := by
  induction h generalizing info k with
  | nested _ _ _ _ ih =>
      obtain ⟨typeIndex, infos, rfl, -, hinfos⟩ := value?_eq_nested_iff.mp hinfo
      rw [height, Nat.add_assoc, Nat.add_comm 1 k, heightOfElements_le_iff,
        ElementValue.forall_hasNodeAt_nested]
      refine and_congr_right fun _ => ⟨?_, ?_⟩
      · intro hinfosLe element hmem
        obtain ⟨item, hitem, hmeant⟩ := exists_mem_of_mapM hinfos hmem
        exact (ih element hmem (element?_eq_some_iff.mp hmeant).2).mp (hinfosLe item hitem)
      · intro helements item hitem
        obtain ⟨element, hmem, hmeant⟩ := exists_of_mem_of_mapM hinfos hitem
        exact (ih element hmem (element?_eq_some_iff.mp hmeant).2).mpr (helements element hmem)
  | array _ _ ih =>
      obtain ⟨infos, rfl, hinfos⟩ := value?_eq_array_iff.mp hinfo
      rw [height, heightOfValues_le_iff, ElementValue.forall_hasNodeAt_array]
      refine and_congr_right fun _ => ⟨?_, ?_⟩
      · intro hinfosLe member hmem
        obtain ⟨item, hitem, hmeant⟩ := exists_mem_of_mapM hinfos hmem
        exact (ih member hmem hmeant).mp (hinfosLe item hitem)
      · intro hmembers item hitem
        obtain ⟨member, hmem, hmeant⟩ := exists_of_mem_of_mapM hinfos hitem
        exact (ih member hmem hmeant).mpr (hmembers member hmem)
  | _ =>
      -- A value without parts is its only node.
      have hheight : info.height = 0 := by
        cases info <;> simp_all [value?, height, Option.bind_eq_some_iff]
      rw [hheight]
      refine ⟨fun hle depth hnode => ?_, fun hall => hall 0 (.self _)⟩
      cases hnode
      exact hle

end ElementInfo

namespace AnnotationUse

open ElementInfo

variable {pool : ConstantPool} {use : AnnotationUse} {info : AnnotationInfo}

/-- An annotation is meant as the value is that consists of it. -/
theorem use?_eq_some_iff :
    info.use? pool = some use ↔ (ElementInfo.nested info.typeIndex info.elements).value? pool
      = some (.nested use.typeDescriptor use.elements) := by
  obtain ⟨typeDescriptor, elements⟩ := use
  simp [AnnotationInfo.use?, value?, Option.bind_eq_some_iff]

theorem height_le_iff (h : use.IsWritable pool) (hinfo : info.use? pool = some use) {n : Nat} :
    heightOfElements info.elements ≤ n ↔ ∀ depth, use.HasNodeAt depth → depth ≤ n := by
  have hvalue := ElementInfo.height_le_iff (k := 0) (n := n + 1) h (use?_eq_some_iff.mp hinfo)
  rw [height] at hvalue
  refine ⟨?_, ?_⟩
  · intro hle depth hnode
    have hbelow := hvalue.mp (by omega) (depth + 1) (.nested hnode)
    omega
  · intro hall
    have hle : heightOfElements info.elements + 1 + 0 ≤ n + 1 := by
      refine hvalue.mpr fun depth hnode => ?_
      cases hnode with
      | self => omega
      | nested hnode =>
          have hbelow := hall _ hnode
          omega
    omega

/-- **An annotation is read as it was written if no node of it lies deeper than 64, and refused for
its nesting otherwise**, in each of its layouts and whatever bytes follow. -/
theorem decode_nested (pool : ConstantPool) (use : AnnotationUse)
    (hwritable : use.IsWritable pool) :
    (∃ info : AnnotationInfo, info.use? pool = some use)
      ∧ ∀ info : AnnotationInfo, info.use? pool = some use → ∀ offset rest,
        ((∀ depth, use.HasNodeAt depth → depth ≤ 64) →
          decode pool ⟨offset, info.encode ++ rest⟩
            = .ok (use, ⟨offset + info.encode.length, rest⟩))
        ∧ ((∃ depth, 64 < depth ∧ use.HasNodeAt depth) →
          decode pool ⟨offset, info.encode ++ rest⟩ = .error .nestingTooDeep) := by
  refine ⟨?_, ?_⟩
  · obtain ⟨value, hvalue⟩ := exists_value?_eq hwritable
    obtain ⟨typeIndex, elements, rfl, -, -⟩ := value?_eq_nested_iff.mp hvalue
    exact ⟨⟨typeIndex, elements⟩, use?_eq_some_iff.mpr hvalue⟩
  · intro info hinfo offset rest
    have hfits := fits_of_value?_eq hwritable (use?_eq_some_iff.mp hinfo)
    rw [ElementInfo.fits, Bool.and_eq_true, decide_eq_true_eq] at hfits
    refine ⟨?_, ?_⟩
    · intro hshallow
      have hheight := (height_le_iff hwritable hinfo).mpr hshallow
      refine reads_decode ?_ hinfo offset rest
      simp only [AnnotationInfo.fits, Bool.and_eq_true, decide_eq_true_eq]
      exact ⟨hfits, hheight⟩
    · rintro ⟨depth, hdeep, hnode⟩
      have hheight : 64 < heightOfElements info.elements := by
        by_contra hle
        have hbelow := (height_le_iff hwritable hinfo).mp (Nat.not_lt.mp hle) depth hnode
        omega
      obtain ⟨typeIndex, elements⟩ := info
      obtain ⟨_, _, heq, htype, helements⟩ := value?_eq_nested_iff.mp (use?_eq_some_iff.mp hinfo)
      cases heq
      rw [← elements?_eq] at helements
      exact rejects_decodeWithin_succ (rejects_decodeValueWithin pool maxDepth) hheight hfits.1
        hfits.2 htype helements offset rest

/-! ### At the limit -/

/-- Slots for the texts of the sample. -/
def samplePool : ConstantPool := ⟨#[.unusable, .utf8 "LMarker;", .utf8 "value"]⟩

/-- A class literal below `steps` arrays, the second member of each of which is an annotation. -/
def tower : Nat → ElementValue
  | 0 => .classLiteral "LMarker;"
  | steps + 1 => .array [.const 0x49 0, .nested "LMarker;" [("value", tower steps)]]

/-- The layout of that value. -/
def towerInfo : Nat → ElementInfo
  | 0 => .classLiteral 1
  | steps + 1 => .array [.const .int 0, .nested 1 [(2, towerInfo steps)]]

theorem value?_towerInfo (steps : Nat) :
    (towerInfo steps).value? samplePool = some (tower steps) := by
  have htype : textAt? samplePool 1 = some "LMarker;" := rfl
  have hname : textAt? samplePool 2 = some "value" := rfl
  induction steps with
  | zero => simp [towerInfo, tower, value?, htype]
  | succ steps ih =>
      simp [towerInfo, tower, value?, values?, elements?, htype, hname, ih, ConstTag.code]

theorem isWritable_tower (steps : Nat) : (tower steps).IsWritable samplePool := by
  have htype : samplePool.Holds "LMarker;" := ⟨1, rfl⟩
  have hname : samplePool.Holds "value" := ⟨2, rfl⟩
  induction steps with
  | zero => exact .classLiteral htype
  | succ steps ih =>
      refine .array (by simp [max16]) (List.forall_mem_cons.mpr ⟨.const .int 0, ?_⟩)
      refine List.forall_mem_singleton.mpr (.nested htype (by simp [max16]) ?_ ?_)
      · exact List.forall_mem_singleton.mpr hname
      · exact List.forall_mem_singleton.mpr ih

/-- Each step goes three levels down. -/
theorem hasNodeAt_tower (steps : Nat) : (tower steps).HasNodeAt (3 * steps) := by
  induction steps with
  | zero => exact .self _
  | succ steps ih =>
      have hnested : (ElementValue.nested "LMarker;" [("value", tower steps)]).HasNodeAt
          (3 * steps + 1 + 1) := .nested (.element List.mem_cons_self ih)
      exact .member (List.mem_cons_of_mem _ List.mem_cons_self) hnested

/-- With 21 steps the class literal lies at depth 64, and an array around them is too much. -/
theorem tower_at_limit :
    (AnnotationUse.mk "LMarker;" [("value", tower 21)]).IsWritable samplePool
      ∧ decode samplePool ⟨8, (AnnotationInfo.mk 1 [(2, towerInfo 21)]).encode ++ [0xFF]⟩
        = .ok (⟨"LMarker;", [("value", tower 21)]⟩,
          ⟨8 + (AnnotationInfo.mk 1 [(2, towerInfo 21)]).encode.length, [0xFF]⟩)
      ∧ (AnnotationUse.mk "LMarker;" [("value", .array [tower 21])]).IsWritable samplePool
      ∧ decode samplePool ⟨8, (AnnotationInfo.mk 1 [(2, .array [towerInfo 21])]).encode ++ [0xFF]⟩
        = .error .nestingTooDeep := by
  have htype : samplePool.Holds "LMarker;" := ⟨1, rfl⟩
  have hname : samplePool.Holds "value" := ⟨2, rfl⟩
  have hwritable : ∀ {value : ElementValue}, value.IsWritable samplePool →
      (AnnotationUse.mk "LMarker;" [("value", value)]).IsWritable samplePool := by
    intro value hvalue
    refine .nested htype (by simp [max16]) ?_ ?_
    · exact List.forall_mem_singleton.mpr hname
    · exact List.forall_mem_singleton.mpr hvalue
  have huse : ∀ {info : ElementInfo} {value : ElementValue},
      info.value? samplePool = some value → (AnnotationInfo.mk 1 [(2, info)]).use? samplePool
        = some ⟨"LMarker;", [("value", value)]⟩ := by
    intro info value hinfo
    have htype : textAt? samplePool 1 = some "LMarker;" := rfl
    have hname : textAt? samplePool 2 = some "value" := rfl
    simp [AnnotationInfo.use?, elements?, htype, hname, hinfo]
  have htower := isWritable_tower 21
  have harray : (ElementValue.array [tower 21]).IsWritable samplePool :=
    .array (by simp [max16]) (List.forall_mem_singleton.mpr htower)
  have harrayInfo : (ElementInfo.array [towerInfo 21]).value? samplePool
      = some (.array [tower 21]) := by
    simp [value?, values?, value?_towerInfo]
  refine ⟨hwritable htower, ?_, hwritable harray, ?_⟩
  · refine ((decode_nested _ _ (hwritable htower)).2 _ (huse (value?_towerInfo 21)) 8 [0xFF]).1 ?_
    exact (height_le_iff (hwritable htower) (huse (value?_towerInfo 21))).mp (by decide +kernel)
  · refine ((decode_nested _ _ (hwritable harray)).2 _ (huse harrayInfo) 8 [0xFF]).2 ?_
    exact ⟨65, by decide, .element List.mem_cons_self (.member List.mem_cons_self
      (hasNodeAt_tower 21))⟩

end AnnotationUse

end PackageAudit
