/-
Reading back classes.

The bytes of a layout are read as the class that it stands for.  What is left for that are the
attributes, and the members and classes that have them.  The name of an attribute decides how
its body is read, so the cases here are the contents of a layout, and for each the tests for
its name come out one way only.  Bytes that stand in a body behind its content are not looked
at, and neither is the body of an attribute whose name is not known.
-/
import PackageAudit.Proofs.ClassFile.Encoding

namespace PackageAudit

open Layout Decoder

/-! ### Attributes -/

theorem lastSome_eq {α β : Type} (f : α → Option β) (items : List α) :
    lastSome f items = (items.filterMap f).getLast? := by
  rw [lastSome, ← List.head?_filterMap, List.filterMap_reverse, List.head?_reverse]

/-- An attribute is read as what it says if its body is, whatever kind of attribute it is. -/
theorem AttributeInfo.reads {Content Meaning : Type} {format : AttributeFormat Content Meaning}
    {pool : ConstantPool} {ofBody : String → List UInt8 → Except DecodeError Meaning}
    {info : AttributeInfo Content} {meaning : Meaning}
    (hbody : ∀ name, format.isNamed info.content name = true → format.fits info.content = true →
      format.meaning? pool info.content = some meaning →
      ofBody name (info.body format) = .ok meaning)
    (hfits : info.fits format = true) (h : info.meaning? format pool = some meaning) :
    (do let (name, body) ← pool.decodeAttribute; lift (ofBody name body)).Reads
      (info.encode format) meaning := by
  rw [AttributeInfo.fits, Bool.and_eq_true, decide_eq_true_eq] at hfits
  simp only [AttributeInfo.meaning?, Option.bind_eq_bind, Option.bind_eq_some_iff] at h
  obtain ⟨name, hname, hmeaning⟩ := h
  by_cases hnamed : format.isNamed info.content name = true
  · rw [if_pos hnamed] at hmeaning
    rw [AttributeInfo.encode, List.append_assoc]
    refine (ConstantPool.reads_decodeAttribute hname hfits.2).bind_nil ?_
    show (lift (ofBody name (info.body format))).Reads [] meaning
    rw [hbody name hnamed hfits.1 hmeaning]
    exact reads_lift_ok meaning
  · rw [if_neg hnamed] at hmeaning
    exact nomatch hmeaning

theorem MemberContent.ofBody_encode {pool : ConstantPool} {content : MemberContent} {name : String}
    {meaning : MemberAttribute} (hnamed : content.isNamed name = true)
    (hfits : content.fits = true) (h : content.meaning? pool = some meaning)
    (extra : List UInt8) :
    MemberAttribute.ofBody pool name (content.encode ++ extra) = .ok meaning := by
  unfold MemberAttribute.ofBody
  cases content with
  | code maxStack maxLocals length =>
      obtain rfl : name = "Code" := beq_iff_eq.mp hnamed
      obtain rfl := Option.some.inj h
      rw [if_pos rfl]
      have hskip : (skip 4).Reads (Layout.u16 maxStack ++ Layout.u16 maxLocals) () :=
        (reads_bytes (Layout.u16 maxStack ++ Layout.u16 maxLocals)).pure_bind fun _ => ()
      exact (hskip.bind ((reads_u32 length).pure_bind MemberAttribute.code)).runOn extra
  | signature index =>
      obtain rfl : name = "Signature" := beq_iff_eq.mp hnamed
      simp only [MemberContent.meaning?, Option.bind_eq_bind, Option.bind_eq_some_iff] at h
      obtain ⟨text, htext, heq⟩ := h
      obtain rfl := Option.some.inj heq
      rw [if_neg (by decide), if_pos rfl]
      exact ((ConstantPool.reads_decodeUtf8 htext).pure_bind _).runOn extra
  | annotations uses =>
      simp only [MemberContent.meaning?, Option.bind_eq_bind, Option.bind_eq_some_iff] at h
      obtain ⟨values, hvalues, heq⟩ := h
      obtain rfl := Option.some.inj heq
      have hread := ((AnnotationUse.reads_decodeTable hfits hvalues).pure_bind
        MemberAttribute.annotations).runOn extra
      simp only [MemberContent.isNamed, List.contains_iff_mem, List.mem_cons, List.not_mem_nil,
        or_false] at hnamed
      rcases hnamed with rfl | rfl
      all_goals
        rw [if_neg (by decide), if_neg (by decide), if_pos (by decide)]
        exact hread
  | parameterAnnotations parameters =>
      simp only [MemberContent.meaning?, Option.bind_eq_bind, Option.bind_eq_some_iff] at h
      obtain ⟨tables, htables, heq⟩ := h
      obtain rfl := Option.some.inj heq
      simp only [MemberContent.fits, Bool.and_eq_true, decide_eq_true_eq, List.all_eq_true] at hfits
      have hread := ((AnnotationUse.reads_decodeParameterTables hfits.1 hfits.2 htables).pure_bind
        MemberAttribute.annotations).runOn extra
      simp only [MemberContent.isNamed, List.contains_iff_mem, List.mem_cons, List.not_mem_nil,
        or_false] at hnamed
      rcases hnamed with rfl | rfl
      all_goals
        rw [if_neg (by decide), if_neg (by decide), if_neg (by decide), if_pos (by decide)]
        exact hread
  | unrecognised =>
      obtain rfl := Option.some.inj h
      simp only [MemberContent.isNamed, MemberContent.knownNames, Bool.not_eq_true',
        List.contains_eq_mem, decide_eq_false_iff_not, List.mem_cons, List.not_mem_nil, or_false,
        not_or] at hnamed
      simp [hnamed]

theorem MemberAttribute.reads_decode {pool : ConstantPool} {info : AttributeInfo MemberContent}
    {meaning : MemberAttribute} (hfits : info.fits MemberContent.format = true)
    (h : info.meaning? MemberContent.format pool = some meaning) :
    (MemberAttribute.decode pool).Reads (info.encode MemberContent.format) meaning :=
  AttributeInfo.reads (fun _ hnamed hcontent hmeaning =>
    MemberContent.ofBody_encode hnamed hcontent hmeaning info.extra) hfits h

theorem InnerClassInfo.reads_decode {pool : ConstantPool} {info : InnerClassInfo}
    {entry : InnerClass} (h : info.innerClass? pool = some entry) :
    (InnerClass.decode pool).Reads info.encode entry := by
  simp only [InnerClassInfo.innerClass?, Option.bind_eq_bind, Option.bind_eq_some_iff] at h
  obtain ⟨inner, hinner, outer, houter, name, hname, heq⟩ := h
  obtain rfl := Option.some.inj heq
  unfold InnerClassInfo.encode
  simp only [List.append_assoc]
  refine (ConstantPool.reads_decodeClassName hinner).bind ?_
  refine (reads_u16 _).bind ((reads_u16 _).bind ((reads_u16 _).bind_nil ?_))
  exact Reads.lift_bind (ConstantPool.optionalClassName_of_unlessZero houter)
    (Reads.lift_bind (ConstantPool.optionalUtf8_of_unlessZero hname) (reads_pure _))

theorem ClassContent.ofBody_encode {pool : ConstantPool} {content : ClassContent} {name : String}
    {meaning : ClassAttribute} (hnamed : content.isNamed name = true)
    (hfits : content.fits = true) (h : content.meaning? pool = some meaning)
    (extra : List UInt8) :
    ClassAttribute.ofBody pool name (content.encode ++ extra) = .ok meaning := by
  unfold ClassAttribute.ofBody
  cases content with
  | signature index =>
      obtain rfl : name = "Signature" := beq_iff_eq.mp hnamed
      simp only [ClassContent.meaning?, Option.bind_eq_bind, Option.bind_eq_some_iff] at h
      obtain ⟨text, htext, heq⟩ := h
      obtain rfl := Option.some.inj heq
      rw [if_pos rfl]
      exact ((ConstantPool.reads_decodeUtf8 htext).pure_bind _).runOn extra
  | sourceFile index =>
      obtain rfl : name = "SourceFile" := beq_iff_eq.mp hnamed
      simp only [ClassContent.meaning?, Option.bind_eq_bind, Option.bind_eq_some_iff] at h
      obtain ⟨text, htext, heq⟩ := h
      obtain rfl := Option.some.inj heq
      rw [if_neg (by decide), if_pos rfl]
      exact ((ConstantPool.reads_decodeUtf8 htext).pure_bind _).runOn extra
  | annotations uses =>
      simp only [ClassContent.meaning?, Option.bind_eq_bind, Option.bind_eq_some_iff] at h
      obtain ⟨values, hvalues, heq⟩ := h
      obtain rfl := Option.some.inj heq
      have hread := ((AnnotationUse.reads_decodeTable hfits hvalues).pure_bind
        ClassAttribute.annotations).runOn extra
      simp only [ClassContent.isNamed, List.contains_iff_mem, List.mem_cons, List.not_mem_nil,
        or_false] at hnamed
      rcases hnamed with rfl | rfl
      all_goals
        rw [if_neg (by decide), if_neg (by decide), if_pos (by decide)]
        exact hread
  | innerClasses classes =>
      obtain rfl : name = "InnerClasses" := beq_iff_eq.mp hnamed
      simp only [ClassContent.meaning?, Option.bind_eq_bind, Option.bind_eq_some_iff] at h
      obtain ⟨entries, hentries, heq⟩ := h
      obtain rfl := Option.some.inj heq
      rw [if_neg (by decide), if_neg (by decide), if_neg (by decide), if_pos rfl]
      refine Reads.runOn
        (Reads.pure_bind (reads_table (of_decide_eq_true hfits) ?_ hentries) _) extra
      exact fun info _ entry hentry => info.reads_decode hentry
  | unrecognised =>
      obtain rfl := Option.some.inj h
      simp only [ClassContent.isNamed, ClassContent.knownNames, Bool.not_eq_true',
        List.contains_eq_mem, decide_eq_false_iff_not, List.mem_cons, List.not_mem_nil, or_false,
        not_or] at hnamed
      simp [hnamed]

theorem ClassAttribute.reads_decode {pool : ConstantPool} {info : AttributeInfo ClassContent}
    {meaning : ClassAttribute} (hfits : info.fits ClassContent.format = true)
    (h : info.meaning? ClassContent.format pool = some meaning) :
    (ClassAttribute.decode pool).Reads (info.encode ClassContent.format) meaning :=
  AttributeInfo.reads (fun _ hnamed hcontent hmeaning =>
    ClassContent.ofBody_encode hnamed hcontent hmeaning info.extra) hfits h

/-! ### Members and classes -/

theorem MemberInfo.reads_decode {pool : ConstantPool} {info : MemberInfo} {member : Member}
    (hfits : info.fits = true) (h : info.member? pool = some member) :
    (Member.decode pool).Reads info.encode member := by
  simp only [MemberInfo.fits, Bool.and_eq_true, decide_eq_true_eq, List.all_eq_true] at hfits
  simp only [MemberInfo.member?, Option.bind_eq_bind, Option.bind_eq_some_iff] at h
  obtain ⟨name, hname, descriptor, hdescriptor, attributes, hattributes, heq⟩ := h
  obtain rfl := Option.some.inj heq
  unfold MemberInfo.encode
  simp only [List.append_assoc, ← lastSome_eq]
  refine (reads_u16 _).bind ?_
  refine (ConstantPool.reads_decodeUtf8 hname).bind ?_
  refine (ConstantPool.reads_decodeUtf8 hdescriptor).bind ?_
  exact Reads.pure_bind (reads_table hfits.1 (fun info hmem meaning hmeaning =>
    MemberAttribute.reads_decode (hfits.2 info hmem) hmeaning) hattributes) _

namespace ClassLayout

variable {layout : ClassLayout} {file : ClassFile}

theorem reads_decode (hfits : layout.fits = true) (h : layout.file? = some file) :
    (ClassFile.decode layout.encode.length).Reads layout.encode file := by
  simp only [ClassLayout.fits, Bool.and_eq_true, decide_eq_true_eq, List.all_eq_true] at hfits
  obtain ⟨⟨⟨⟨⟨hslots, hconstants⟩, hinterfaces⟩, hfields⟩, hmethods⟩, hattributes⟩ := hfits
  simp only [ClassLayout.file?, Option.bind_eq_bind, Option.bind_eq_some_iff] at h
  obtain ⟨thisClass, hthis, superClass, hsuper, interfaces, hinterfaceNames, fields, hfieldList,
    methods, hmethodList, attributes, hattributeList, heq⟩ := h
  obtain rfl := Option.some.inj heq
  -- The decoder only passes the size on, so from here on it may be any number.
  generalize layout.encode.length = size
  unfold ClassLayout.encode
  simp only [List.append_assoc, ← lastSome_eq]
  refine (reads_u32 _).bind ?_
  rw [if_neg (by decide)]
  refine (reads_u16 _).bind ((reads_u16 _).bind ?_)
  refine (ConstantPool.reads_decode hslots hconstants).bind ?_
  refine (reads_u16 _).bind ?_
  refine (ConstantPool.reads_decodeClassName hthis).bind ?_
  refine (reads_u16 _).bind ?_
  refine Reads.lift_bind (ConstantPool.optionalClassName_of_unlessZero hsuper) ?_
  refine Reads.bind (reads_table hinterfaces (fun _ _ _ hname =>
    ConstantPool.reads_decodeClassName hname) hinterfaceNames) ?_
  refine Reads.bind (reads_table hfields.1 (fun info hmem _ hmember =>
    info.reads_decode (hfields.2 info hmem) hmember) hfieldList) ?_
  refine Reads.bind (reads_table hmethods.1 (fun info hmem _ hmember =>
    info.reads_decode (hmethods.2 info hmem) hmember) hmethodList) ?_
  exact Reads.pure_bind (reads_table hattributes.1 (fun info hmem _ hmeaning =>
    ClassAttribute.reads_decode (hattributes.2 info hmem) hmeaning) hattributeList) _

/-- **Parsing inverts the layout of class files.**  The bytes of every layout that fits its fields,
and whose slot numbers lead to what is asked for, are read as the class that is meant. -/
theorem parse_encode (hfits : layout.fits = true) (h : layout.file? = some file) :
    ClassFile.parse layout.encode = .ok file := by
  have hread := (reads_decode hfits h).runOn []
  rw [List.append_nil] at hread
  exact hread

/-- A class whose source file is named twice, with a method that has two code lengths, an attribute
that is not known and an annotation, and with a number that takes two slots. -/
def repeatedAttributes : ClassLayout where
  minorVersion := 0
  majorVersion := 52
  constants := [.ofText "A", .classInfo 1, .long (-5), .ofText "SourceFile", .ofText "A.java",
    .ofText "B.java", .ofText "run", .ofText "()V", .ofText "Code", .ofText "Deprecated",
    .ofText "RuntimeVisibleAnnotations", .ofText "LMark;", .ofText "value"]
  accessFlags := 33
  thisIndex := 2
  superIndex := 0
  interfaces := [2]
  fields := []
  methods := [{
    accessFlags := 1
    nameIndex := 8
    descriptorIndex := 9
    attributes := [⟨10, .code 1 1 3, [42, 87, 177]⟩, ⟨11, .unrecognised, [7]⟩,
      ⟨12, .annotations [⟨13, [(14, .array [.const .long 3])]⟩], []⟩, ⟨10, .code 2 1 9, []⟩] }]
  attributes := [⟨5, .sourceFile 6, [0, 1]⟩, ⟨5, .sourceFile 7, []⟩]

theorem parse_repeatedAttributes : ∃ file, repeatedAttributes.file? = some file
    ∧ ClassFile.parse repeatedAttributes.encode = .ok file
    ∧ file.sourceFile = some "B.java" ∧ file.methods.map (·.codeLength) = [some 9] := by
  have hfile : repeatedAttributes.file?.map
      (fun file => (file.sourceFile, file.methods.map (·.codeLength)))
        = some (some "B.java", [some 9]) := by
    decide +kernel
  obtain ⟨file, hsome, hparts⟩ := Option.map_eq_some_iff.mp hfile
  obtain ⟨hsource, hlengths⟩ := Prod.mk.inj hparts
  exact ⟨file, hsome, parse_encode (by decide +kernel) hsome, hsource, hlengths⟩

end ClassLayout

end PackageAudit
