/-
Packages by reference and by name.

Reports speak of packages by name, and a model knows them by reference.  As long as there are no
more packages than references, the two are the same: each name that occurs has one
reference, the order of the references is the order of the names, and the list of all
packages pairs each with its own.
-/
import PackageAudit.Proofs.Model.Tables

namespace PackageAudit.Model

open Ascending

variable {model : Model} {i : Nat} {id : PackageId} {package : Package} {name p q : String}

/-- Whether a package uses another, by name. -/
def Uses (model : Model) (p q : String) : Prop :=
  ∃ package ∈ model.packages, package.name = p ∧ ∃ id ∈ package.uses, model.packageName id = q

/-- Whether some classes are those that bring about a dependency between two packages. -/
def IsViaOf (model : Model) (p q : String) (vias : List String) : Prop :=
  ∃ source target, model.packageId? p = some source ∧ model.packageId? q = some target
    ∧ vias = model.viaNames source target

/-- Whether references tell all packages apart.  What is read from files is counted before it is
put together, so that they do. -/
def Indexed (model : Model) : Prop := model.packages.size ≤ greatestPosition + 1

theorem packageId?_eq_position? (model : Model) (name : String) : model.packageId? name
    = (position? (model.packages.toList.map (·.name)) name).map PackageId.ofPosition := by
  rw [packageId?, position?, List.findIdx?_map]
  rfl

theorem classId?_eq_position? (model : Model) (name : String) : model.classId? name
    = (position? (model.classes.toList.map (·.name)) name).map ClassId.ofPosition := by
  rw [classId?, position?, List.findIdx?_map]
  rfl

/-- Packages and classes are found by name as in tables of their references. -/
theorem ids_eq_find? (h : model.WellFormed) (name : String) :
    model.packageId? name
        = find? name (idTable PackageId.ofPosition (model.packages.toList.map (·.name)))
      ∧ model.classId? name
        = find? name (idTable ClassId.ofPosition (model.classes.toList.map (·.name))) := by
  rw [find?_idTable h.packages_ascending, find?_idTable h.classes_ascending]
  exact ⟨packageId?_eq_position? model name, classId?_eq_position? model name⟩

theorem packageId?_eq (h : model.WellFormed) (hget : model.packages[i]? = some package) :
    model.packageId? package.name = some (PackageId.ofPosition i) := by
  have hname : (model.packages.toList.map (·.name))[i]? = some package.name := by
    rw [List.getElem?_map, Array.getElem?_toList, hget, Option.map_some]
  rw [packageId?_eq_position?, (position?_eq_some_iff h.packages_ascending).mpr hname,
    Option.map_some]

theorem packageName_eq (h : model.package? id = some package) :
    model.packageName id = package.name := by
  rw [packageName, h, Option.map_some, Option.getD_some]

theorem Indexed.position_ofPosition (hidx : model.Indexed)
    (hget : model.packages[i]? = some package) : (PackageId.ofPosition i).position = i := by
  have hlt : i < model.packages.size := (Array.getElem?_eq_some_iff.mp hget).1
  have hle : i ≤ greatestPosition := Nat.le_of_lt_succ (Nat.lt_of_lt_of_le hlt hidx)
  rw [PackageId.position_ofPosition, Nat.min_eq_left hle]

/-- The list of packages pairs each with its reference. -/
theorem mem_packageList (hidx : model.Indexed) :
    (id, package) ∈ model.packageList ↔ model.package? id = some package := by
  simp only [packageList, List.mem_map, Prod.exists, Prod.mk.injEq, List.mem_zipIdx_iff_getElem?,
    Array.getElem?_toList, package?]
  refine ⟨?_, ?_⟩
  · rintro ⟨entry, i, hget, rfl, rfl⟩
    rw [hidx.position_ofPosition hget]
    exact hget
  · intro hget
    exact ⟨package, id.position, hget, id.ofPosition_position, rfl⟩

theorem packageList_sorted (hidx : model.Indexed) :
    model.packageList.Pairwise fun a b => compare a.1 b.1 = .lt := by
  refine List.pairwise_map.mpr (List.pairwise_iff_getElem.mpr ?_)
  intro i j hi hj hij
  rw [List.length_zipIdx, Array.length_toList] at hj
  have hle : j ≤ greatestPosition := Nat.le_of_lt_succ (Nat.lt_of_lt_of_le hj hidx)
  rw [PackageId.compare_lt, List.getElem_zipIdx, List.getElem_zipIdx, PackageId.position_ofPosition,
    PackageId.position_ofPosition]
  omega

/-- The reference of a name leads to the package of that name. -/
theorem packageId?_eq_some_iff (h : model.WellFormed) (hidx : model.Indexed) :
    model.packageId? name = some id ↔
      ∃ package, model.package? id = some package ∧ package.name = name := by
  refine ⟨?_, ?_⟩
  · intro hid
    obtain ⟨i, hi, rfl⟩ := Option.map_eq_some_iff.mp hid
    obtain ⟨hlt, hname, -⟩ := List.findIdx?_eq_some_iff_getElem.mp hi
    have hget : model.packages[i]? = some model.packages.toList[i] := by
      rw [← Array.getElem?_toList, List.getElem?_eq_getElem hlt]
    refine ⟨model.packages.toList[i], ?_, beq_iff_eq.mp hname⟩
    rw [package?, hidx.position_ofPosition hget]
    exact hget
  · rintro ⟨package, hpackage, rfl⟩
    rw [packageId?_eq h hpackage, id.ofPosition_position]

theorem packageName_of_packageId? (h : model.WellFormed) (hidx : model.Indexed)
    (hid : model.packageId? name = some id) : model.packageName id = name := by
  obtain ⟨package, hpackage, rfl⟩ := (packageId?_eq_some_iff h hidx).mp hid
  exact packageName_eq hpackage

/-- The names that occur are those that have a reference. -/
theorem mem_names_iff (h : model.WellFormed) (hidx : model.Indexed) :
    name ∈ model.packages.toList.map (·.name) ↔ ∃ id, model.packageId? name = some id := by
  simp only [List.mem_map, Array.mem_toList_iff, packageId?_eq_some_iff h hidx]
  refine ⟨?_, ?_⟩
  · rintro ⟨package, hmem, rfl⟩
    obtain ⟨i, hget⟩ := Array.mem_iff_getElem?.mp hmem
    refine ⟨PackageId.ofPosition i, package, ?_, rfl⟩
    rw [package?, hidx.position_ofPosition hget]
    exact hget
  · rintro ⟨id, package, hpackage, rfl⟩
    exact ⟨package, Array.mem_of_getElem? hpackage, rfl⟩

/-- References are in the order of the names. -/
theorem compare_packageId? (h : model.WellFormed) (hidx : model.Indexed) {a b : PackageId}
    (ha : model.packageId? p = some a) (hb : model.packageId? q = some b) :
    compare a b = .lt ↔ p < q := by
  obtain ⟨P, hP, rfl⟩ := (packageId?_eq_some_iff h hidx).mp ha
  obtain ⟨Q, hQ, rfl⟩ := (packageId?_eq_some_iff h hidx).mp hb
  have hname : ∀ {c : PackageId} {R : Package}, model.package? c = some R →
      (model.packages.toList.map (·.name))[c.position]? = some R.name := by
    intro c R hR
    rw [List.getElem?_map, Array.getElem?_toList]
    exact congrArg (Option.map (·.name)) hR
  rw [PackageId.compare_lt, ← compare_string_lt,
    h.packages_ascending.compare_getElem? (hname hP) (hname hQ)]

/-- What a package uses has a name. -/
theorem packageId?_of_mem_uses (h : model.WellFormed) (hidx : model.Indexed) {target : PackageId}
    (hmem : package ∈ model.packages) (htarget : target ∈ package.uses) :
    model.packageId? (model.packageName target) = some target := by
  have hlt := h.uses_lt package hmem target htarget
  have hused : model.package? target = some model.packages[target.position] :=
    Array.getElem?_eq_getElem hlt
  exact (packageId?_eq_some_iff h hidx).mpr ⟨_, hused, (packageName_eq hused).symm⟩

theorem mem_uses (hpackage : model.package? id = some package) {target : PackageId} :
    target ∈ model.uses id ↔ target ∈ package.uses := by
  rw [uses, hpackage, Option.map_some, Option.getD_some]

/-- A package uses another if the reference of the one has that of the other among its uses. -/
theorem uses_iff (h : model.WellFormed) (hidx : model.Indexed) :
    model.Uses p q ↔ ∃ source target, model.packageId? p = some source
      ∧ model.packageId? q = some target ∧ target ∈ model.uses source := by
  refine ⟨?_, ?_⟩
  · rintro ⟨package, hmem, rfl, target, htarget, rfl⟩
    obtain ⟨i, hget⟩ := Array.mem_iff_getElem?.mp hmem
    have hpackage : model.package? (PackageId.ofPosition i) = some package := by
      rw [package?, hidx.position_ofPosition hget]
      exact hget
    exact ⟨PackageId.ofPosition i, target, packageId?_eq h hget,
      packageId?_of_mem_uses h hidx hmem htarget, (mem_uses hpackage).mpr htarget⟩
  · rintro ⟨source, target, hp, hq, htarget⟩
    obtain ⟨package, hpackage, rfl⟩ := (packageId?_eq_some_iff h hidx).mp hp
    exact ⟨package, Array.mem_of_getElem? hpackage, rfl, target, (mem_uses hpackage).mp htarget,
      packageName_of_packageId? h hidx hq⟩

end PackageAudit.Model
