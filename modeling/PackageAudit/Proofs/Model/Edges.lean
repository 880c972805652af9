/-
Which classes and packages use which.

There are three places where a model says so: the uses of a class, the uses of a package, and
the classes by which one package uses another.  They are made by three separate walks, all of
them along references.  Here each is said by name: a class uses what its declaration mentions,
as often as it does; and the other two are what follows from that for the packages.

The part about packages does not look at how the model was made.  It needs no more than that
every class is listed by the package that it refers to, which is what `Linked` says.
-/
import PackageAudit.Proofs.Model.Assembly

namespace PackageAudit

open Ascending

namespace Model

/-- Whether a class uses another, and how often it mentions it. -/
def ClassUses (model : Model) (c t : String) (count : UInt32) : Prop :=
  ∃ node ∈ model.classes, node.name = c
    ∧ ∃ use ∈ node.uses, use.2 = count ∧ (model.class? use.1).map (·.name) = some t

/-- Whether a class belongs to a package. -/
def ClassIn (model : Model) (c p : String) : Prop :=
  ∃ node ∈ model.classes, node.name = c ∧ (model.package? node.package).map (·.name) = some p

/-- Whether a class uses some class of a package. -/
def ClassUsesSome (model : Model) (c q : String) : Prop :=
  ∃ t count, model.ClassIn t q ∧ model.ClassUses c t count

/-- Every class is listed by the package that it refers to, and a package uses what its classes
use. -/
structure Linked (model : Model) : Prop where
  wellFormed : model.WellFormed
  indexed : model.Indexed
  classesIndexed : model.ClassesIndexed
  package_exists : ∀ node ∈ model.classes, ∃ package, model.package? node.package = some package
  listed_iff : ∀ c node, model.class? c = some node → ∀ p package,
    model.package? p = some package → (c ∈ package.classes ↔ node.package = p)
  listed_exist : ∀ package ∈ model.packages, ∀ c ∈ package.classes,
    ∃ node, model.class? c = some node
  listed_ascending : ∀ package ∈ model.packages,
    package.classes.Pairwise fun c d => c.position < d.position
  uses_iff : ∀ p package, model.package? p = some package → ∀ id, id ∈ package.uses ↔
    ∃ c ∈ package.classes, ∃ node, model.class? c = some node ∧ id ≠ node.package
      ∧ ∃ use ∈ node.uses, model.belongsTo use.1 id = true

variable {model : Model} {c : ClassId} {node : ClassNode} {p q : PackageId} {package : Package}

theorem belongsTo_iff : model.belongsTo c p = true ↔
    ∃ node, model.class? c = some node ∧ node.package = p := by
  rw [belongsTo, beq_iff_eq, Option.map_eq_some_iff]

/-- A package is told by its name. -/
theorem package?_name_inj (h : model.WellFormed) {name : String}
    (hp : (model.package? p).map (·.name) = some name)
    (hq : (model.package? q).map (·.name) = some name) : p = q := by
  refine PackageId.ext_position (h.packages_ascending.getElem?_inj (a := name) ?_ ?_)
  · rw [List.getElem?_map, Array.getElem?_toList]
    exact hp
  · rw [List.getElem?_map, Array.getElem?_toList]
    exact hq

/-- A class is told by its name. -/
theorem class_name_inj (h : model.WellFormed) {other : ClassNode} (hnode : node ∈ model.classes)
    (hother : other ∈ model.classes) (hname : node.name = other.name) : node = other := by
  obtain ⟨i, hi⟩ := Array.mem_iff_getElem?.mp hnode
  obtain ⟨j, hj⟩ := Array.mem_iff_getElem?.mp hother
  have hij : i = j := by
    refine h.classes_ascending.getElem?_inj (a := node.name) ?_ ?_
    · rw [List.getElem?_map, Array.getElem?_toList, hi, Option.map_some]
    · rw [List.getElem?_map, Array.getElem?_toList, hj, Option.map_some, hname]
  rw [hij, hj] at hi
  exact (Option.some.inj hi).symm

namespace Linked

variable (h : model.Linked)
include h

theorem exists_class? (hnode : node ∈ model.classes) : ∃ c, model.class? c = some node := by
  obtain ⟨i, hi⟩ := Array.mem_iff_getElem?.mp hnode
  refine ⟨ClassId.ofPosition i, ?_⟩
  rw [class?, h.classesIndexed.position_ofPosition (Array.getElem?_eq_some_iff.mp hi).1]
  exact hi

theorem exists_package? (hpackage : package ∈ model.packages) :
    ∃ p, model.package? p = some package := by
  obtain ⟨i, hi⟩ := Array.mem_iff_getElem?.mp hpackage
  refine ⟨PackageId.ofPosition i, ?_⟩
  rw [package?, h.indexed.position_ofPosition hi]
  exact hi

theorem mem_members (hp : model.package? p = some package) :
    node ∈ model.members package ↔ node ∈ model.classes ∧ node.package = p := by
  unfold members
  rw [List.mem_filterMap]
  refine ⟨?_, ?_⟩
  · rintro ⟨c, hc, hnode⟩
    exact ⟨Array.mem_of_getElem? hnode, (h.listed_iff c node hnode p package hp).mp hc⟩
  · rintro ⟨hnode, hpackage⟩
    obtain ⟨c, hc⟩ := h.exists_class? hnode
    exact ⟨c, (h.listed_iff c node hc p package hp).mpr hpackage, hc⟩

/-- A class uses a class of a package by way of one of its references. -/
theorem classUsesSome_iff (hnode : node ∈ model.classes) {name : String}
    (hq : (model.package? q).map (·.name) = some name) :
    model.ClassUsesSome node.name name ↔
      ∃ use ∈ node.uses, model.belongsTo use.1 q = true := by
  refine ⟨?_, ?_⟩
  · rintro ⟨t, count, ⟨used, hused, rfl, hpackage⟩, user, huser, hname, use, huse, -, ht⟩
    obtain rfl := class_name_inj h.wellFormed huser hnode hname
    obtain ⟨target, htarget, hsame⟩ := Option.map_eq_some_iff.mp ht
    obtain rfl := class_name_inj h.wellFormed (Array.mem_of_getElem? htarget) hused hsame
    refine ⟨use, huse, belongsTo_iff.mpr ⟨target, htarget, ?_⟩⟩
    exact package?_name_inj h.wellFormed hpackage hq
  · rintro ⟨use, huse, hbelongs⟩
    obtain ⟨used, hused, rfl⟩ := belongsTo_iff.mp hbelongs
    refine ⟨used.name, use.2, ⟨used, Array.mem_of_getElem? hused, rfl, hq⟩, ?_⟩
    exact ⟨node, hnode, rfl, use, huse, rfl, by rw [hused, Option.map_some]⟩

theorem classIn_iff {a name : String} (hp : (model.package? p).map (·.name) = some name) :
    model.ClassIn a name ↔ ∃ node ∈ model.classes, node.name = a ∧ node.package = p := by
  refine ⟨?_, ?_⟩
  · rintro ⟨node, hnode, ha, hpackage⟩
    exact ⟨node, hnode, ha, package?_name_inj h.wellFormed hpackage hp⟩
  · rintro ⟨node, hnode, ha, rfl⟩
    exact ⟨node, hnode, ha, hp⟩

/-- A package uses another if the two differ and a class of the one uses a class of the other. -/
theorem uses_iff_classes {a b : String} :
    model.Uses a b ↔ a ≠ b ∧ ∃ name, model.ClassIn name a ∧ model.ClassUsesSome name b := by
  refine ⟨?_, ?_⟩
  · rintro ⟨package, hmem, rfl, id, hid, rfl⟩
    obtain ⟨p, hp⟩ := h.exists_package? hmem
    obtain ⟨c, hc, node, hnode, hne, use, huse, hbelongs⟩ := (h.uses_iff p package hp id).mp hid
    have hname : (model.package? p).map (·.name) = some package.name := by
      rw [hp, Option.map_some]
    have hlt := h.wellFormed.uses_lt package hmem id hid
    have hused : (model.package? id).map (·.name) = some (model.packageName id) := by
      rw [packageName, package?, Array.getElem?_eq_getElem hlt]
      rfl
    have hown : node.package = p := (h.listed_iff c node hnode p package hp).mp hc
    have hclass : node ∈ model.classes := Array.mem_of_getElem? hnode
    refine ⟨?_, node.name, (h.classIn_iff hname).mpr ⟨node, hclass, rfl, hown⟩,
      (h.classUsesSome_iff hclass hused).mpr ⟨use, huse, hbelongs⟩⟩
    intro heq
    rw [heq] at hname
    exact hne ((package?_name_inj h.wellFormed hused hname).trans hown.symm)
  · rintro ⟨hne, name, ⟨node, hnode, rfl, ha⟩, hb⟩
    obtain ⟨t, count, ⟨used, hused, rfl, hpackage⟩, huses⟩ := hb
    obtain ⟨package, hp, rfl⟩ := Option.map_eq_some_iff.mp ha
    obtain ⟨c, hc⟩ := h.exists_class? hnode
    have hlisted := (h.listed_iff c node hc node.package package hp).mpr rfl
    obtain ⟨use, huse, hbelongs⟩ := (h.classUsesSome_iff hnode hpackage).mp
      ⟨used.name, count, ⟨used, hused, rfl, hpackage⟩, huses⟩
    refine ⟨package, Array.mem_of_getElem? hp, rfl, used.package, ?_, ?_⟩
    · refine (h.uses_iff _ package hp used.package).mpr ⟨c, hlisted, node, hc, ?_, use, huse,
        hbelongs⟩
      intro heq
      rw [heq, ha] at hpackage
      exact hne (Option.some.inj hpackage)
    · rw [packageName, hpackage, Option.getD_some]

/-! ### The classes that bring a use about -/

theorem mem_vias (hp : model.package? p = some package) :
    c ∈ model.vias p q ↔ ∃ node, model.class? c = some node ∧ node.package = p
      ∧ ∃ use ∈ node.uses, model.belongsTo use.1 q = true := by
  unfold vias
  rw [hp, Option.map_some, Option.getD_some, List.mem_filter, List.any_eq_true]
  refine ⟨?_, ?_⟩
  · rintro ⟨hc, huses⟩
    obtain ⟨node, hnode⟩ := h.listed_exist package (Array.mem_of_getElem? hp) c hc
    rw [hnode, Option.map_some, Option.getD_some] at huses
    exact ⟨node, hnode, (h.listed_iff c node hnode p package hp).mp hc, huses⟩
  · rintro ⟨node, hnode, hown, huses⟩
    refine ⟨(h.listed_iff c node hnode p package hp).mpr hown, ?_⟩
    rw [hnode, Option.map_some, Option.getD_some]
    exact huses

theorem mem_viaNames {a b name : String} (ha : model.packageId? a = some p)
    (hb : model.packageId? b = some q) :
    name ∈ model.viaNames p q ↔ model.ClassIn name a ∧ model.ClassUsesSome name b := by
  obtain ⟨package, hp, rfl⟩ := (packageId?_eq_some_iff h.wellFormed h.indexed).mp ha
  obtain ⟨target, hq, rfl⟩ := (packageId?_eq_some_iff h.wellFormed h.indexed).mp hb
  have hsource : (model.package? p).map (·.name) = some package.name := by rw [hp, Option.map_some]
  have htarget : (model.package? q).map (·.name) = some target.name := by rw [hq, Option.map_some]
  rw [viaNames, List.mem_map, h.classIn_iff hsource]
  refine ⟨?_, ?_⟩
  · rintro ⟨c, hc, rfl⟩
    obtain ⟨node, hnode, hown, huses⟩ := (h.mem_vias hp).mp hc
    have hclass : node ∈ model.classes := Array.mem_of_getElem? hnode
    have hname : model.className c = node.name := by
      rw [className, hnode, Option.map_some, Option.getD_some]
    rw [hname]
    exact ⟨⟨node, hclass, rfl, hown⟩, (h.classUsesSome_iff hclass htarget).mpr huses⟩
  · rintro ⟨⟨node, hclass, rfl, hown⟩, huses⟩
    obtain ⟨c, hc⟩ := h.exists_class? hclass
    refine ⟨c, (h.mem_vias hp).mpr ⟨node, hc, hown, ?_⟩, ?_⟩
    · exact (h.classUsesSome_iff hclass htarget).mp huses
    · rw [className, hc, Option.map_some, Option.getD_some]

theorem className_lt {d : ClassId} {other : ClassNode} (hc : model.class? c = some node)
    (hd : model.class? d = some other) (hlt : c.position < d.position) :
    model.className c < model.className d := by
  have hname : ∀ {e : ClassId} {n : ClassNode}, model.class? e = some n →
      (model.classes.toList.map (·.name))[e.position]? = some (model.className e) := by
    intro e n he
    rw [List.getElem?_map, Array.getElem?_toList, className, he, Option.map_some, Option.getD_some]
    exact congrArg (Option.map (·.name)) he
  exact compare_string_lt.mp
    ((h.wellFormed.classes_ascending.compare_getElem? (hname hc) (hname hd)).mpr hlt)

theorem viaNames_ascending (hp : model.package? p = some package) :
    (model.viaNames p q).Pairwise (· < ·) := by
  have hsorted : (model.vias p q).Pairwise fun c d => c.position < d.position := by
    unfold vias
    rw [hp, Option.map_some, Option.getD_some]
    exact (h.listed_ascending package (Array.mem_of_getElem? hp)).filter _
  refine List.pairwise_map.mpr (hsorted.imp_of_mem ?_)
  intro c d hc hd hlt
  obtain ⟨node, hnode, -⟩ := (h.mem_vias hp).mp hc
  obtain ⟨other, hother, -⟩ := (h.mem_vias hp).mp hd
  exact h.className_lt hnode hother hlt

/-- There are such classes exactly if the one package uses the other. -/
theorem viaNames_ne_nil_iff {a b : String} (ha : model.packageId? a = some p)
    (hb : model.packageId? b = some q) (hne : a ≠ b) :
    model.viaNames p q ≠ [] ↔ model.Uses a b := by
  have hmem : model.viaNames p q ≠ [] ↔ ∃ name, name ∈ model.viaNames p q :=
    ⟨List.exists_mem_of_ne_nil _, fun ⟨_, hname⟩ => List.ne_nil_of_mem hname⟩
  rw [hmem, h.uses_iff_classes, and_iff_right hne]
  exact exists_congr fun name => h.mem_viaNames ha hb

end Linked

end Model

/-! ### Assembled models -/

section Assemble

variable (filter : PackageFilter) (records : List ClassRecord) (sources : List SourceRecord)

theorem Model.assemble_linked
    (hclasses : (Model.assemble filter records sources).ClassesIndexed)
    (hpackages : (Model.assemble filter records sources).Indexed) :
    (Model.assemble filter records sources).Linked where
  wellFormed := Model.assemble_wellFormed filter records sources
  indexed := hpackages
  classesIndexed := hclasses
  package_exists := by
    intro node hnode
    have hname := Model.package_of_class filter records sources hpackages hnode
    obtain ⟨package, hpackage, -⟩ := Option.map_eq_some_iff.mp hname
    exact ⟨package, hpackage⟩
  listed_iff := fun c node hc p package hp =>
    Model.mem_classes_iff filter records sources hclasses hc hp
  listed_exist := fun package hp c hc =>
    Model.exists_class_of_mem_classes filter records sources hclasses hp hc
  listed_ascending := fun package hp => Model.classes_sorted filter records sources hclasses hp
  uses_iff := by
    intro p package hp id
    rw [Model.eq_derive_of_getElem? filter records sources hp, mem_uses_derive]
    simp only [mem_usedPackages, Model.belongsTo, Model.class?, beq_iff_eq]

variable {filter records sources}

/-- What a class refers to are the positions of what its declaration mentions. -/
theorem Model.mem_uses_nodeOf
    (hidx : (Model.assemble filter records sources).ClassesIndexed)
    (htables : ∀ record ∈ records, IsTable record.references) {name : String}
    {use : ClassId × UInt32} :
    use ∈ (Model.nodeOf filter records sources name).uses ↔
      ∃ record, filter.declaration? records name = some record
        ∧ ∃ t i, (t, use.2) ∈ record.references ∧ 0 < use.2
          ∧ ((Declarations.ofRecords filter records).classNames filter)[i]? = some t
          ∧ ClassId.ofPosition i = use.1 := by
  unfold Model.nodeOf Declarations.node
  rw [Declarations.find?_ofRecords]
  cases hdeclared : filter.declaration? records name with
  | none =>
      simp only [reduceCtorEq, false_and, exists_false, iff_false]
      exact List.not_mem_nil
  | some record =>
      have hascending := Declarations.isAscending_classNames
        (Declarations.named_ofRecords filter records) filter
      have htable := htables record (PackageFilter.mem_of_declaration? hdeclared)
      have hround : ∀ {t : String} {i : Nat}, position? ((Declarations.ofRecords filter
          records).classNames filter) t = some i → (ClassId.ofPosition i).position = i := by
        intro t i hi
        refine hidx.position_ofPosition ?_
        rw [Model.assemble_classes_size]
        exact position?_lt hi
      show use ∈ ofPairs _ ↔ _
      refine (mem_ofPairs ?_).trans ?_
      · -- No two mentions lead to the same position, so none of them is lost in the table.
        refine List.pairwise_map.mpr (List.Pairwise.filterMap _ ?_
          ((List.pairwise_map.mp htable.nodup).filter _))
        intro first second hne use₁ huse₁ use₂ huse₂ heq
        obtain ⟨i, hi, rfl⟩ := Option.map_eq_some_iff.mp huse₁
        obtain ⟨j, hj, rfl⟩ := Option.map_eq_some_iff.mp huse₂
        have hij : i = j := by
          rw [← hround hi, ← hround hj]
          exact congrArg ClassId.position heq
        rw [← hij] at hj
        exact hne (Option.some.inj ((position?_eq_some hi).symm.trans (position?_eq_some hj)))
      · rw [List.mem_filterMap]
        simp only [Option.some.injEq, exists_eq_left', Prod.exists, List.mem_filter,
          decide_eq_true_eq, Option.map_eq_some_iff, position?_eq_some_iff hascending]
        refine ⟨?_, ?_⟩
        · rintro ⟨t, count, ⟨hmem, hpos⟩, i, hi, rfl⟩
          exact ⟨t, i, hmem, hpos, hi, rfl⟩
        · rintro ⟨t, i, hmem, hpos, hi, hid⟩
          exact ⟨t, use.2, ⟨hmem, hpos⟩, i, hi, by rw [hid]⟩

/-- A declaration mentions only classes of the model, those that are ignored apart. -/
theorem mem_classNames_of_mention {name t : String} {record : ClassRecord} {count : UInt32}
    (h : filter.declaration? records name = some record) (ht : (t, count) ∈ record.references) :
    t ∈ (Declarations.ofRecords filter records).classNames filter ↔
      filter.isIgnored t = false := by
  rw [Declarations.mem_classNames]
  refine ⟨?_, ?_⟩
  · rintro (hdeclared | ⟨hignored, -⟩)
    · obtain ⟨declared, hdeclared⟩ := Option.isSome_iff_exists.mp hdeclared
      exact PackageFilter.not_isIgnored_of_declaration? hdeclared
    · exact hignored
  · intro hignored
    exact Or.inr ⟨hignored, name, record, h, List.mem_map_of_mem ht⟩

/-- A reference to a position leads to the class whose name stands there. -/
theorem Model.class?_ofPosition_name
    (hidx : (Model.assemble filter records sources).ClassesIndexed) {t : String} {i : Nat}
    (hi : ((Declarations.ofRecords filter records).classNames filter)[i]? = some t) :
    ((Model.assemble filter records sources).class? (ClassId.ofPosition i)).map (·.name)
      = some t := by
  have hlt : i < (Model.assemble filter records sources).classes.size := by
    rw [Model.assemble_classes_size]
    exact (List.getElem?_eq_some_iff.mp hi).1
  rw [Model.class?, hidx.position_ofPosition hlt, Model.assemble_classes_getElem?, hi,
    Option.map_some, Option.map_some, Model.nodeOf_name]

/-- A class uses what its declaration mentions. -/
theorem Model.classUses_iff (hidx : (Model.assemble filter records sources).ClassesIndexed)
    (htables : ∀ record ∈ records, IsTable record.references) {c t : String} {count : UInt32} :
    (Model.assemble filter records sources).ClassUses c t count ↔
      ∃ record, filter.declaration? records c = some record ∧ (t, count) ∈ record.references
        ∧ 0 < count ∧ filter.isIgnored t = false := by
  refine ⟨?_, ?_⟩
  · rintro ⟨node, hnode, rfl, use, huse, rfl, ht⟩
    rw [(Model.eq_nodeOf_of_mem filter records sources hnode).1,
      Model.mem_uses_nodeOf hidx htables] at huse
    obtain ⟨record, hdeclared, t', i, hmem, hpos, hi, hid⟩ := huse
    rw [← hid, Model.class?_ofPosition_name hidx hi, Option.some.injEq] at ht
    rw [ht] at hmem hi
    exact ⟨record, hdeclared, hmem, hpos,
      (mem_classNames_of_mention hdeclared hmem).mp (List.mem_of_getElem? hi)⟩
  · rintro ⟨record, hdeclared, hmem, hpos, hignored⟩
    have hc : c ∈ (Declarations.ofRecords filter records).classNames filter :=
      (Declarations.mem_classNames filter records).mpr
        (Or.inl (Option.isSome_iff_exists.mpr ⟨record, hdeclared⟩))
    obtain ⟨i, hi⟩ := List.mem_iff_getElem?.mp
      ((mem_classNames_of_mention hdeclared hmem).mpr hignored)
    refine ⟨_, Model.nodeOf_mem filter records sources hc, Model.nodeOf_name _ _ _ c,
      (ClassId.ofPosition i, count), ?_, rfl, Model.class?_ofPosition_name hidx hi⟩
    exact (Model.mem_uses_nodeOf hidx htables).mpr ⟨record, hdeclared, t, i, hmem, hpos, hi, rfl⟩

/-- A class that was not analyzed is there because an analyzed one uses it. -/
theorem Model.exists_user_of_stub
    (hidx : (Model.assemble filter records sources).ClassesIndexed)
    (htables : ∀ record ∈ records, IsTable record.references)
    (hcounts : ∀ record ∈ records, ∀ reference ∈ record.references, 0 < reference.2)
    {node : ClassNode} (hnode : node ∈ (Model.assemble filter records sources).classes)
    (hstub : node.analyzed = false) :
    ∃ user ∈ (Model.assemble filter records sources).classes, user.analyzed = true
      ∧ ∃ count, (Model.assemble filter records sources).ClassUses user.name node.name count := by
  have hnot : ¬ (filter.declaration? records node.name).isSome = true := by
    rw [← Model.analyzed_iff filter records sources hnode, hstub]
    exact Bool.false_ne_true
  have hname := (Model.exists_class_iff filter records sources).mp ⟨node, hnode, rfl⟩
  obtain ⟨hignored, c, record, hdeclared, hmention⟩ := hname.resolve_left hnot
  obtain ⟨⟨t, count⟩, hmem, rfl⟩ := List.mem_map.mp hmention
  have hsome : (filter.declaration? records c).isSome = true :=
    Option.isSome_iff_exists.mpr ⟨record, hdeclared⟩
  obtain ⟨user, huser, rfl⟩ := (Model.exists_class_iff filter records sources).mpr (Or.inl hsome)
  refine ⟨user, huser, (Model.analyzed_iff filter records sources huser).mpr hsome, count, ?_⟩
  refine (Model.classUses_iff hidx htables).mpr ⟨record, hdeclared, hmem, ?_, hignored⟩
  exact hcounts record (PackageFilter.mem_of_declaration? hdeclared) _ hmem

/-- A package that was not analyzed is there because an analyzed one uses it. -/
theorem Model.exists_user_of_stub_package
    (h : (Model.assemble filter records sources).Linked)
    (htables : ∀ record ∈ records, IsTable record.references)
    (hcounts : ∀ record ∈ records, ∀ reference ∈ record.references, 0 < reference.2)
    {package : Package} (hpackage : package ∈ (Model.assemble filter records sources).packages)
    (hstub : package.analyzed = false) :
    ∃ user ∈ (Model.assemble filter records sources).packages, user.analyzed = true
      ∧ (Model.assemble filter records sources).Uses user.name package.name := by
  have hnot : ¬ package.analyzed = true := by
    rw [hstub]
    exact Bool.false_ne_true
  rw [Model.package_analyzed_iff filter records sources h.classesIndexed hpackage, not_or] at hnot
  obtain ⟨hclasses, hannotations⟩ := hnot
  -- Without annotations it is the package of a class, and that class was not analyzed either.
  have hname := (Model.exists_package_iff filter records sources).mp ⟨package, hpackage, rfl⟩
  obtain ⟨node, hnode, hfor⟩ := hname.resolve_right hannotations
  obtain ⟨p, hp⟩ := h.exists_package? hpackage
  have hpName : ((Model.assemble filter records sources).package? p).map (·.name)
      = some package.name := by
    rw [hp, Option.map_some]
  have hnodeName := Model.package_of_class filter records sources h.indexed hnode
  rw [hfor] at hnodeName
  have hown : node.package = p := package?_name_inj h.wellFormed hnodeName hpName
  have hnodeStub : node.analyzed = false := by
    rw [← Bool.not_eq_true]
    exact fun hanalyzed => hclasses ⟨node, (h.mem_members hp).mpr ⟨hnode, hown⟩, hanalyzed⟩
  obtain ⟨user, huser, hanalyzed, count, huses⟩ :=
    Model.exists_user_of_stub h.classesIndexed htables hcounts hnode hnodeStub
  obtain ⟨source, hsource⟩ := h.package_exists user huser
  have hmember := (h.mem_members hsource).mpr ⟨huser, rfl⟩
  have hsourceMem := Array.mem_of_getElem? hsource
  have hsourceAnalyzed : source.analyzed = true :=
    (Model.package_analyzed_iff filter records sources h.classesIndexed hsourceMem).mpr
      (Or.inl ⟨user, hmember, hanalyzed⟩)
  refine ⟨source, hsourceMem, hsourceAnalyzed, h.uses_iff_classes.mpr ⟨?_, user.name, ?_, ?_⟩⟩
  · -- The two packages differ because one of them was analyzed and the other was not.
    intro heq
    have hsame : user.package = p := by
      refine package?_name_inj h.wellFormed ?_ hpName
      rw [hsource, Option.map_some, heq]
    rw [hsame, hp] at hsource
    rw [← Option.some.inj hsource, hstub] at hsourceAnalyzed
    exact Bool.false_ne_true hsourceAnalyzed
  · exact ⟨user, huser, rfl, by rw [hsource, Option.map_some]⟩
  · exact ⟨node.name, count, ⟨node, hnode, rfl, hnodeName⟩, huses⟩

/-- What a class stores are counts of mentions, and only a declared class stores any. -/
theorem Model.declared_of_mem_uses
    (hidx : (Model.assemble filter records sources).ClassesIndexed)
    (htables : ∀ record ∈ records, IsTable record.references) {node : ClassNode}
    (hnode : node ∈ (Model.assemble filter records sources).classes) {use : ClassId × UInt32}
    (huse : use ∈ node.uses) : node.analyzed = true ∧ 0 < use.2 := by
  rw [(Model.eq_nodeOf_of_mem filter records sources hnode).1,
    Model.mem_uses_nodeOf hidx htables] at huse
  obtain ⟨record, hdeclared, t, i, -, hpos, -⟩ := huse
  refine ⟨(Model.analyzed_iff filter records sources hnode).mpr ?_, hpos⟩
  exact Option.isSome_iff_exists.mpr ⟨record, hdeclared⟩

/-- What the model of some class records says of uses. -/
structure Model.UsesAreOf (model : Model) (filter : PackageFilter) (records : List ClassRecord) :
    Prop where
  class_uses : ∀ c t count, model.ClassUses c t count ↔
    ∃ record, filter.declaration? records c = some record ∧ (t, count) ∈ record.references
      ∧ 0 < count ∧ filter.isIgnored t = false
  /-- No use of a class is stored twice, and none leads out of the table. -/
  class_uses_table : ∀ node ∈ model.classes, IsTable node.uses
    ∧ ∀ use ∈ node.uses, use.1.position < model.classes.size
  counts_pos : ∀ node ∈ model.classes, ∀ use ∈ node.uses, 0 < use.2
  stub_uses : ∀ node ∈ model.classes, node.analyzed = false → node.uses = []
  package_uses : ∀ a b, model.Uses a b ↔
    a ≠ b ∧ ∃ c, model.ClassIn c a ∧ model.ClassUsesSome c b
  package_uses_ascending : ∀ package ∈ model.packages, IsAscending package.uses
    ∧ ∀ id ∈ package.uses, id.position < model.packages.size
  vias_ascending : ∀ a b p q, model.packageId? a = some p → model.packageId? b = some q →
    (model.viaNames p q).Pairwise (· < ·)
  mem_vias : ∀ a b p q, model.packageId? a = some p → model.packageId? b = some q →
    ∀ c, c ∈ model.viaNames p q ↔ model.ClassIn c a ∧ model.ClassUsesSome c b
  vias_exist : ∀ a b p q, model.packageId? a = some p → model.packageId? b = some q → a ≠ b →
    (model.viaNames p q ≠ [] ↔ model.Uses a b)
  /-- If every mention counts, nothing is in the model without a reason. -/
  stub_used : (∀ record ∈ records, ∀ reference ∈ record.references, 0 < reference.2) →
    (∀ node ∈ model.classes, node.analyzed = false →
      ∃ user ∈ model.classes, user.analyzed = true
        ∧ ∃ count, model.ClassUses user.name node.name count)
    ∧ ∀ package ∈ model.packages, package.analyzed = false →
      ∃ user ∈ model.packages, user.analyzed = true ∧ model.Uses user.name package.name

/-- **The uses in a model are those that the class records mention.** -/
theorem Model.assemble_usesAreOf (filter : PackageFilter) (records : List ClassRecord)
    (sources : List SourceRecord) (htables : ∀ record ∈ records, IsTable record.references)
    (hclasses : (Model.assemble filter records sources).ClassesIndexed)
    (hpackages : (Model.assemble filter records sources).Indexed) :
    (Model.assemble filter records sources).UsesAreOf filter records := by
  have h := Model.assemble_linked filter records sources hclasses hpackages
  have hwell := h.wellFormed
  exact {
    class_uses := fun c t count => classUses_iff hclasses htables
    class_uses_table := fun node hnode =>
      ⟨hwell.classUses_table node hnode, hwell.classUses_lt node hnode⟩
    counts_pos := fun node hnode use huse => (declared_of_mem_uses hclasses htables hnode huse).2
    stub_uses := by
      intro node hnode hstub
      refine List.eq_nil_iff_forall_not_mem.mpr fun use huse => ?_
      rw [(declared_of_mem_uses hclasses htables hnode huse).1] at hstub
      exact Bool.noConfusion hstub
    package_uses := fun a b => h.uses_iff_classes
    package_uses_ascending := fun package hp =>
      ⟨hwell.uses_ascending package hp, hwell.uses_lt package hp⟩
    vias_ascending := by
      intro a b p q ha hb
      obtain ⟨package, hp, -⟩ := (packageId?_eq_some_iff hwell hpackages).mp ha
      exact h.viaNames_ascending hp
    mem_vias := fun a b p q ha hb c => h.mem_viaNames ha hb
    vias_exist := fun a b p q ha hb hne => h.viaNames_ne_nil_iff ha hb hne
    stub_used := fun hcounts =>
      ⟨fun node hnode hstub => exists_user_of_stub hclasses htables hcounts hnode hstub,
        fun package hp hstub => exists_user_of_stub_package h htables hcounts hp hstub⟩ }

/-- In the model of the sample one package uses another that was not analyzed. -/
theorem Model.sample_usesAreOf :
    (∀ record ∈ sampleRecords, IsTable record.references)
      ∧ (Model.assemble sampleFilter sampleRecords []).UsesAreOf sampleFilter sampleRecords
      ∧ (Model.assemble sampleFilter sampleRecords []).viaNames ⟨0⟩ ⟨1⟩ = ["app.Main"] := by
  have htables : ∀ record ∈ sampleRecords, IsTable record.references := by
    unfold IsTable IsAscending
    decide +kernel
  exact ⟨htables, Model.assemble_usesAreOf _ _ _ htables sample_classesIndexed sample_indexed,
    by decide +kernel⟩

end Assemble

end PackageAudit
