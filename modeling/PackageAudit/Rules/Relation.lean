/-
Relations between packages, as rules declare them.

A relation says of the packages of a rule that they may use, must use or must not use other
packages, or the same of being used by them.
-/
import PackageAudit.Pattern

namespace PackageAudit

/-- Whose dependencies a relation speaks of: those of the rule's own packages, or those on them. -/
inductive Direction where
  | uses
  | usedBy
  deriving DecidableEq, Repr

/-- What a relation says of a dependency. -/
inductive Modality where
  | may
  | must
  | mustNot
  deriving DecidableEq, Repr

/-- The kind of a relation. -/
structure RelationKind where
  direction : Direction
  modality : Modality
  deriving DecidableEq, Repr

namespace RelationKind

/-- All kinds in order. -/
def all : List RelationKind :=
  [⟨.uses, .may⟩, ⟨.uses, .must⟩, ⟨.uses, .mustNot⟩,
    ⟨.usedBy, .may⟩, ⟨.usedBy, .must⟩, ⟨.usedBy, .mustNot⟩]

/-- The name of a kind. -/
def name : RelationKind → String
  | ⟨.uses, .may⟩ => "may-use"
  | ⟨.uses, .must⟩ => "must-use"
  | ⟨.uses, .mustNot⟩ => "must-not-use"
  | ⟨.usedBy, .may⟩ => "may-be-used-by"
  | ⟨.usedBy, .must⟩ => "must-be-used-by"
  | ⟨.usedBy, .mustNot⟩ => "must-not-be-used-by"

/-- The kind of a given name. -/
def ofName? (text : String) : Option RelationKind :=
  all.find? (·.name == text)

/-- Whether the relation is declared on the side that is used. -/
def isReverse (kind : RelationKind) : Bool := kind.direction = .usedBy

/-- Whether the relation denies a dependency. -/
def isDenial (kind : RelationKind) : Bool := kind.modality = .mustNot

/-- The place of a kind in the order of kinds. -/
def rank : RelationKind → Nat
  | ⟨.uses, .may⟩ => 0
  | ⟨.uses, .must⟩ => 1
  | ⟨.uses, .mustNot⟩ => 2
  | ⟨.usedBy, .may⟩ => 3
  | ⟨.usedBy, .must⟩ => 4
  | ⟨.usedBy, .mustNot⟩ => 5

instance : Ord RelationKind := ⟨compareOn rank⟩

end RelationKind

/-- A relation as it is declared: the pattern of the rule, and the patterns of the packages that it
is related to.  Without any of these it only declares the rule. -/
structure Relation where
  pattern : String
  kind : RelationKind
  targets : List String
  deriving DecidableEq, Repr

/-- The relations of one direction of a rule. -/
structure Relations where
  may : List PackagePattern := []
  must : List PackagePattern := []
  mustNot : List PackagePattern := []
  deriving DecidableEq, Repr

namespace Relations

/-- Appends a pattern to a list unless it is there. -/
def appendNew (patterns : List PackagePattern) (pattern : PackagePattern) : List PackagePattern :=
  if patterns.contains pattern then patterns else patterns ++ [pattern]

/-- Adds a pattern with a modality. -/
def add (relations : Relations) (modality : Modality) (pattern : PackagePattern) : Relations :=
  match modality with
  | .may => { relations with may := appendNew relations.may pattern }
  | .must => { relations with must := appendNew relations.must pattern }
  | .mustNot => { relations with mustNot := appendNew relations.mustNot pattern }

/-- The patterns with a modality. -/
def get (relations : Relations) : Modality → List PackagePattern
  | .may => relations.may
  | .must => relations.must
  | .mustNot => relations.mustNot

/-- Whether there is no relation. -/
def isEmpty (relations : Relations) : Bool :=
  relations.may.isEmpty && relations.must.isEmpty && relations.mustNot.isEmpty

/-- The greatest specificity of the patterns that stand for a package, and 0 if there is none. -/
def mostSpecific (patterns : List PackagePattern) (package : String) : Nat :=
  ((patterns.filter (·.covers package)).map (·.specificity)).foldl Nat.max 0

/-- How specifically a package is allowed, 0 if not at all. -/
def allowed (relations : Relations) (package : String) : Nat :=
  mostSpecific (relations.may ++ relations.must) package

/-- How specifically a package is denied, 0 if not at all. -/
def denied (relations : Relations) (package : String) : Nat :=
  mostSpecific relations.mustNot package

end Relations

end PackageAudit
