/-
The grammar of signatures.

A signature is what a tree of the grammar spells.  There is a type of trees for each rule, with a
constructor for each alternative, and three readings of a tree: the text that it spells, the
classes that it mentions, and how deep reference types lie inside one another in it.  None of
them looks at how a text is read.

The grammar leaves one thing open.  A type parameter need not have a bound, and the name of the
next one may start like a reference type, as in `<A:LB:>`; reading from left to right, `LB` is
then taken for a bound.  Whether this happens in a tree is said by `Separated`.
-/
import Mathlib.Data.List.Infix
import PackageAudit.Signature

namespace PackageAudit.Signature

/-! ### Trees -/

/-- A name in a signature: a non-empty run of characters none of which has a meaning of its own. -/
structure Identifier where
  text : List Char
  ne_nil : text ≠ []
  plain : ∀ c ∈ text, c ∉ ['.', ';', '[', '/', '<', '>', ':']

theorem isDelimiter_iff {c : Char} :
    isDelimiter c = true ↔ c ∈ ['.', ';', '[', '/', '<', '>', ':'] := by
  simp [isDelimiter, or_assoc]

theorem Identifier.isDelimiter_eq_false (name : Identifier) {c : Char} (h : c ∈ name.text) :
    isDelimiter c = false :=
  Bool.eq_false_iff.mpr fun hc => name.plain c h (isDelimiter_iff.mp hc)

/-- The primitive types. -/
inductive Primitive where
  | byte
  | char
  | double
  | float
  | int
  | long
  | short
  | boolean

/-- The letter of a primitive type. -/
def Primitive.mark : Primitive → Char
  | .byte => 'B'
  | .char => 'C'
  | .double => 'D'
  | .float => 'F'
  | .int => 'I'
  | .long => 'J'
  | .short => 'S'
  | .boolean => 'Z'

/-- How a type argument is bounded by its type: it is that type, or one below or above it. -/
inductive Variance where
  | exact
  | below
  | above

/-- The mark of a bound. -/
def Variance.text : Variance → List Char
  | .exact => []
  | .below => ['+']
  | .above => ['-']

mutual

/-- A type whose values are references: a class, a type variable or an array. -/
inductive ReferenceType where
  | classType (type : ClassType)
  | typeVariable (name : Identifier)
  | array (element : JavaType)

/-- Any type of a value. -/
inductive JavaType where
  | primitive (type : Primitive)
  | reference (type : ReferenceType)

/-- A class, by its package and its name, and then the classes inside it that lead to the one
that is meant. -/
inductive ClassType where
  | mk (package : List Identifier) (outer : SimpleClassType) (suffixes : List SimpleClassType)

/-- A class by its own name.  Without arguments no angle brackets are written. -/
inductive SimpleClassType where
  | mk (name : Identifier) (arguments : List TypeArgument)

/-- An argument of a class: a bounded type, or any type at all. -/
inductive TypeArgument where
  | wildcard
  | bounded (variance : Variance) (type : ReferenceType)

end

/-- The name of a class without the package. -/
def SimpleClassType.name : SimpleClassType → Identifier
  | .mk name _ => name

/-- The arguments of a class. -/
def SimpleClassType.arguments : SimpleClassType → List TypeArgument
  | .mk _ arguments => arguments

/-- A type parameter.  The class bound may be missing. -/
structure TypeParameter where
  name : Identifier
  classBound : Option ReferenceType
  interfaceBounds : List ReferenceType

/-- What a method returns. -/
inductive ResultType where
  | void
  | value (type : JavaType)

/-- What a method throws. -/
inductive ThrownType where
  | classType (type : ClassType)
  | typeVariable (name : Identifier)

/-- Without type parameters no angle brackets are written. -/
structure ClassSignature where
  parameters : List TypeParameter
  superclass : ClassType
  interfaces : List ClassType

/-- The signature of a method, with its own type parameters. -/
structure MethodSignature where
  parameters : List TypeParameter
  arguments : List JavaType
  result : ResultType
  thrown : List ThrownType

/-- The trees for signatures of a kind. -/
inductive Derivation : SignatureKind → Type where
  | classType (signature : ClassSignature) : Derivation .classType
  | field (type : ReferenceType) : Derivation .field
  | method (signature : MethodSignature) : Derivation .method

/-! ### Texts -/

/-- Texts in angle brackets, which are left out if there are none. -/
def bracketed (texts : List (List Char)) : List Char :=
  if texts = [] then [] else '<' :: texts.flatten ++ ['>']

mutual

/-- The text of a reference type. -/
def ReferenceType.text : ReferenceType → List Char
  | .classType type => type.text
  | .typeVariable name => 'T' :: name.text ++ [';']
  | .array element => '[' :: element.text

/-- The text of a type: a letter stands for each primitive one. -/
def JavaType.text : JavaType → List Char
  | .primitive type => [type.mark]
  | .reference type => type.text

/-- The text of a class type, from `L` to the semicolon. -/
def ClassType.text : ClassType → List Char
  | .mk package outer suffixes =>
    'L' :: package.flatMap (fun name => name.text ++ ['/']) ++ outer.text
      ++ suffixes.flatMap (fun suffix => '.' :: suffix.text) ++ [';']

/-- The name of a class, with its arguments in angle brackets. -/
def SimpleClassType.text : SimpleClassType → List Char
  | .mk name arguments => name.text ++ bracketed (arguments.map TypeArgument.text)

/-- The text of an argument, behind the mark of its bound. -/
def TypeArgument.text : TypeArgument → List Char
  | .wildcard => ['*']
  | .bounded variance type => variance.text ++ type.text

end

/-- The name of a type parameter and its bounds, each behind a colon. -/
def TypeParameter.text (parameter : TypeParameter) : List Char :=
  parameter.name.text ++ ':' :: (parameter.classBound.elim [] ReferenceType.text
    ++ parameter.interfaceBounds.flatMap fun bound => ':' :: bound.text)

/-- The text of a result, where `V` stands for none. -/
def ResultType.text : ResultType → List Char
  | .void => ['V']
  | .value type => type.text

/-- The text of what is thrown, without the mark before it. -/
def ThrownType.text : ThrownType → List Char
  | .classType type => type.text
  | .typeVariable name => 'T' :: name.text ++ [';']

/-- The text of the signature of a class. -/
def ClassSignature.text (signature : ClassSignature) : List Char :=
  bracketed (signature.parameters.map TypeParameter.text) ++ signature.superclass.text
    ++ signature.interfaces.flatMap ClassType.text

/-- The text of the signature of a method. -/
def MethodSignature.text (signature : MethodSignature) : List Char :=
  bracketed (signature.parameters.map TypeParameter.text) ++ '(' ::
    signature.arguments.flatMap JavaType.text ++ ')' :: signature.result.text
    ++ signature.thrown.flatMap fun type => '^' :: type.text

/-- The text that a tree spells. -/
def Derivation.text {kind : SignatureKind} : Derivation kind → List Char
  | .classType signature => signature.text
  | .field type => type.text
  | .method signature => signature.text

/-! ### Classes -/

/-- The binary names of a class and of the classes inside it, step by step: dots behind the parts
of the package, and a dollar sign before each step. -/
def ClassType.names : ClassType → List String
  | .mk package outer suffixes => suffixes.inits.map fun steps => String.ofList <|
      package.flatMap (fun part => part.text ++ ['.']) ++ outer.name.text
        ++ steps.flatMap fun step => '$' :: step.name.text

mutual

/-- The classes that a reference type mentions; a type variable is none. -/
def ReferenceType.mentions : ReferenceType → List String
  | .classType type => type.mentions
  | .typeVariable _ => []
  | .array element => element.mentions

/-- The classes that a type mentions. -/
def JavaType.mentions : JavaType → List String
  | .primitive _ => []
  | .reference type => type.mentions

/-- The class itself step by step, and the classes that its arguments mention. -/
def ClassType.mentions : ClassType → List String
  | .mk package outer suffixes =>
    (ClassType.mk package outer suffixes).names ++ outer.mentions
      ++ suffixes.flatMap SimpleClassType.mentions

/-- What the arguments of a class mention. -/
def SimpleClassType.mentions : SimpleClassType → List String
  | .mk _ arguments => arguments.flatMap TypeArgument.mentions

/-- The classes that an argument mentions. -/
def TypeArgument.mentions : TypeArgument → List String
  | .wildcard => []
  | .bounded _ type => type.mentions

end

/-- The classes that the bounds of a type parameter mention. -/
def TypeParameter.mentions (parameter : TypeParameter) : List String :=
  parameter.classBound.elim [] ReferenceType.mentions
    ++ parameter.interfaceBounds.flatMap ReferenceType.mentions

/-- The classes that a result mentions. -/
def ResultType.mentions : ResultType → List String
  | .void => []
  | .value type => type.mentions

/-- The classes that are mentioned where something is thrown. -/
def ThrownType.mentions : ThrownType → List String
  | .classType type => type.mentions
  | .typeVariable _ => []

/-- The classes that the signature of a class mentions. -/
def ClassSignature.mentions (signature : ClassSignature) : List String :=
  signature.parameters.flatMap TypeParameter.mentions ++ signature.superclass.mentions
    ++ signature.interfaces.flatMap ClassType.mentions

/-- The classes that the signature of a method mentions. -/
def MethodSignature.mentions (signature : MethodSignature) : List String :=
  signature.parameters.flatMap TypeParameter.mentions
    ++ signature.arguments.flatMap JavaType.mentions ++ signature.result.mentions
    ++ signature.thrown.flatMap ThrownType.mentions

/-- The classes that a tree mentions: those of all class types in it, with their suffix steps. -/
def Derivation.mentions {kind : SignatureKind} : Derivation kind → List String
  | .classType signature => signature.mentions
  | .field type => type.mentions
  | .method signature => signature.mentions

/-! ### Nesting -/

/-- The greatest of some depths, and 0 if there is none. -/
def deepest (depths : List Nat) : Nat := depths.foldr max 0

mutual

/-- How many reference types lie inside one another, this one included. -/
def ReferenceType.depth : ReferenceType → Nat
  | .classType type => type.depth + 1
  | .typeVariable _ => 1
  | .array element => element.depth + 1

/-- A primitive type is no reference type. -/
def JavaType.depth : JavaType → Nat
  | .primitive _ => 0
  | .reference type => type.depth

/-- A class type does not count itself: only where it stands for a reference type does it. -/
def ClassType.depth : ClassType → Nat
  | .mk _ outer suffixes => max outer.depth (deepest (suffixes.map SimpleClassType.depth))

/-- The depth of the arguments of a class. -/
def SimpleClassType.depth : SimpleClassType → Nat
  | .mk _ arguments => deepest (arguments.map TypeArgument.depth)

/-- The depth of an argument. -/
def TypeArgument.depth : TypeArgument → Nat
  | .wildcard => 0
  | .bounded _ type => type.depth

end

/-- The depth of the bounds of a type parameter. -/
def TypeParameter.depth (parameter : TypeParameter) : Nat :=
  max (parameter.classBound.elim 0 ReferenceType.depth)
    (deepest (parameter.interfaceBounds.map ReferenceType.depth))

/-- The depth of a result. -/
def ResultType.depth : ResultType → Nat
  | .void => 0
  | .value type => type.depth

/-- What is thrown does not count itself, as it is no reference type of the grammar. -/
def ThrownType.depth : ThrownType → Nat
  | .classType type => type.depth
  | .typeVariable _ => 0

/-- The depth of the signature of a class. -/
def ClassSignature.depth (signature : ClassSignature) : Nat :=
  max (deepest (signature.parameters.map TypeParameter.depth))
    (max signature.superclass.depth (deepest (signature.interfaces.map ClassType.depth)))

/-- The depth of the signature of a method. -/
def MethodSignature.depth (signature : MethodSignature) : Nat :=
  max (deepest (signature.parameters.map TypeParameter.depth))
    (max (deepest (signature.arguments.map JavaType.depth))
      (max signature.result.depth (deepest (signature.thrown.map ThrownType.depth))))

/-- How many reference types lie inside one another at most. -/
def Derivation.depth {kind : SignatureKind} : Derivation kind → Nat
  | .classType signature => signature.depth
  | .field type => type.depth
  | .method signature => signature.depth

/-! ### Parameters without bounds -/

/-- Whether a type parameter has no bound at all. -/
def TypeParameter.Unbounded (parameter : TypeParameter) : Prop :=
  parameter.classBound = none ∧ parameter.interfaceBounds = []

/-- Whether no type parameter without a bound stands directly before one whose name starts with
`L` or `T`. -/
def Separated (parameters : List TypeParameter) : Prop :=
  parameters.IsChain fun parameter next =>
    parameter.Unbounded → next.name.text.head? ≠ some 'L' ∧ next.name.text.head? ≠ some 'T'

/-- Whether the type parameters of a tree can be told apart. -/
def Derivation.Separated {kind : SignatureKind} : Derivation kind → Prop
  | .classType signature => Signature.Separated signature.parameters
  | .field _ => True
  | .method signature => Signature.Separated signature.parameters

end PackageAudit.Signature
