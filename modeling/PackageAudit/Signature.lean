/-
Generic signatures.

A signature follows one of three grammars: that of a class (type parameters, superclass,
interfaces), of a field (one reference type) or of a method (type parameters, parameter
types, result type, thrown types).  The whole text is read by its grammar, so a malformed
signature is noticed wherever the fault lies, and what is kept are the names of the classes
that it mentions.  A class type with suffix steps, `Lpkg/Outer<TT;>.Inner;`, mentions
`pkg.Outer` and `pkg.Outer$Inner`; a type variable mentions no class.

Reference types may lie inside one another at most `maxDepth` deep.
-/
import PackageAudit.Ascending
import PackageAudit.Text.Quoted

namespace PackageAudit

/-- Which grammar a signature follows. -/
inductive SignatureKind where
  | classType
  | field
  | method
  deriving DecidableEq, Repr

namespace Signature

/-- What a signature should have had where reading it failed. -/
inductive Expected where
  | openParenthesis
  | closeParenthesis
  | colon
  | semicolon
  | classMark
  | variableMark
  | identifier
  | referenceType
  | thrownType
  | shallowerNesting
  | endOfSignature
  deriving DecidableEq, Repr

/-- The wording of an expectation. -/
def Expected.text : Expected → String
  | .openParenthesis => "'('"
  | .closeParenthesis => "')'"
  | .colon => "':'"
  | .semicolon => "';'"
  | .classMark => "'L'"
  | .variableMark => "'T'"
  | .identifier => "identifier"
  | .referenceType => "reference type"
  | .thrownType => "thrown class or type variable"
  | .shallowerNesting => "shallower nesting"
  | .endOfSignature => "end of signature"

/-- Where reading failed, given by the text that was still to be read, and what was expected there. -/
structure Failure where
  rest : List Char
  expected : Expected
  deriving DecidableEq, Repr

/-- A reader of a part of a signature. -/
abbrev Reader := StateT (List Char) (Except Failure)

/-- How deep reference types may lie inside one another. -/
def maxDepth : Nat := 256

/-- Fails at the present place. -/
def fail {α : Type} (expected : Expected) : Reader α := fun input =>
  .error ⟨input, expected⟩

/-- Reads one given character. -/
def expect (c : Char) (expected : Expected) : Reader Unit := fun input =>
  match input with
  | [] => .error ⟨input, expected⟩
  | d :: rest => if d = c then .ok ((), rest) else .error ⟨input, expected⟩

/-- Passes over the next character, which the caller has looked at. -/
def advance : Reader Unit := fun input =>
  .ok ((), input.drop 1)

/-- Whether a given character comes next. -/
def startsWith (c : Char) (input : List Char) : Bool :=
  input.head? == some c

/-- Reads items as long as the text to be read meets a condition.  An item that takes nothing
from the text is not read again. -/
def repeatWhile {α : Type} (continues : List Char → Bool) (item : Reader α) : Reader (List α) :=
  fun input =>
    if continues input then
      match item input with
      | .error e => .error e
      | .ok (a, rest) =>
        if rest.length < input.length then
          match repeatWhile continues item rest with
          | .error e => .error e
          | .ok (as, rest) => .ok (a :: as, rest)
        else .ok ([a], rest)
    else .ok ([], input)
termination_by input => input.length

/-- The characters that end an identifier. -/
def isDelimiter (c : Char) : Bool :=
  c == '.' || c == ';' || c == '[' || c == '/' || c == '<' || c == '>' || c == ':'

/-- Reads a non-empty run of characters other than delimiters. -/
def identifier : Reader (List Char) := fun input =>
  match input.takeWhile (fun c => !isDelimiter c) with
  | [] => .error ⟨input, .identifier⟩
  | name => .ok (name, input.dropWhile (fun c => !isDelimiter c))

/-- Reads a type variable, which mentions no class. -/
def typeVariable : Reader (List String) := do
  expect 'T' .variableMark
  let _ ← identifier
  expect ';' .semicolon
  return []

/-- Reads an argument of a class type: a wildcard, or a reference type with or without a bound
mark. -/
def typeArgument (reference : Reader (List String)) : Reader (List String) := fun input =>
  match input with
  | '*' :: rest => .ok ([], rest)
  | '+' :: rest => reference rest
  | '-' :: rest => reference rest
  | _ => reference input

/-- Reads items in angle brackets, at least one, or nothing if no bracket is there. -/
def inBrackets (item : Reader (List String)) : Reader (List String) := fun input =>
  if startsWith '<' input then
    let reader : Reader (List String) := do
      advance
      let first ← item
      let others ← repeatWhile (fun rest => !startsWith '>' rest) item
      advance
      return first ++ others.flatten
    reader input
  else .ok ([], input)

/-- Reads the arguments of a class type, if there are any. -/
def typeArguments (reference : Reader (List String)) : Reader (List String) :=
  inBrackets (typeArgument reference)

/-- The names of a class type and of its suffix steps: each step appends `$` and its own name. -/
def suffixNames (name : List Char) : List (List Char) → List String
  | [] => [String.ofList name]
  | suffix :: rest => String.ofList name :: suffixNames (name ++ '$' :: suffix) rest

/-- Reads a class type with its arguments and suffix steps. -/
def classType (reference : Reader (List String)) : Reader (List String) := do
  expect 'L' .classMark
  let first ← identifier
  let segments ← repeatWhile (startsWith '/') do
    advance
    identifier
  let arguments ← typeArguments reference
  let suffixes ← repeatWhile (startsWith '.') do
    advance
    let name ← identifier
    let arguments ← typeArguments reference
    return (name, arguments)
  expect ';' .semicolon
  let name := segments.foldl (fun name segment => name ++ '.' :: segment) first
  return suffixNames name (suffixes.map Prod.fst) ++ arguments ++ (suffixes.map Prod.snd).flatten

/-- The marks of the primitive types. -/
def isPrimitive (c : Char) : Bool :=
  c == 'B' || c == 'C' || c == 'D' || c == 'F' || c == 'I' || c == 'J' || c == 'S' || c == 'Z'

/-- Reads a primitive type or a reference type. -/
def javaType (reference : Reader (List String)) : Reader (List String) := fun input =>
  match input with
  | c :: rest => if isPrimitive c then .ok ([], rest) else reference input
  | [] => reference input

/-- Reads a reference type when `levels` levels are left, its own included. -/
def referenceType : (levels : Nat) → Reader (List String)
  | 0 => fail .shallowerNesting
  | levels + 1 => fun input =>
    match input with
    | 'L' :: _ => classType (referenceType levels) input
    | 'T' :: _ => typeVariable input
    | '[' :: rest => javaType (referenceType levels) rest
    | _ => .error ⟨input, .referenceType⟩

/-- Whether a reference type comes next. -/
def startsReference (input : List Char) : Bool :=
  startsWith 'L' input || startsWith 'T' input || startsWith '[' input

/-- Reads the class bound of a type parameter, which may be missing. -/
def classBound : Reader (List String) := fun input =>
  if startsReference input then referenceType maxDepth input else .ok ([], input)

/-- Reads a type parameter: its name, its class bound and its interface bounds. -/
def typeParameter : Reader (List String) := do
  let _ ← identifier
  expect ':' .colon
  let classBound ← classBound
  let interfaceBounds ← repeatWhile (startsWith ':') do
    advance
    referenceType maxDepth
  return classBound ++ interfaceBounds.flatten

/-- Reads type parameters, if there are any. -/
def typeParameters : Reader (List String) := inBrackets typeParameter

/-- Reads the signature of a class: the superclass and then the interfaces, up to the end of the text. -/
def classSignature : Reader (List String) := do
  let parameters ← typeParameters
  let superclass ← classType (referenceType maxDepth)
  let interfaces ← repeatWhile (fun rest => !rest.isEmpty) (classType (referenceType maxDepth))
  return parameters ++ superclass ++ interfaces.flatten

/-- Reads a thrown type, which is a class type or a type variable. -/
def thrownType : Reader (List String) := fun input =>
  match input with
  | 'L' :: _ => classType (referenceType maxDepth) input
  | 'T' :: _ => typeVariable input
  | _ => .error ⟨input, .thrownType⟩

/-- Reads the result type of a method, which may be void. -/
def resultType : Reader (List String) := fun input =>
  match input with
  | 'V' :: rest => .ok ([], rest)
  | _ => javaType (referenceType maxDepth) input

/-- Reads the signature of a method.  Each thrown type stands behind a caret. -/
def methodSignature : Reader (List String) := do
  let parameters ← typeParameters
  expect '(' .openParenthesis
  let types ← repeatWhile (fun rest => !startsWith ')' rest) do
    if (← get).isEmpty then fail .closeParenthesis
    else javaType (referenceType maxDepth)
  advance
  let result ← resultType
  let thrown ← repeatWhile (startsWith '^') do
    advance
    thrownType
  return parameters ++ types.flatten ++ result ++ thrown.flatten

/-- The reader for the grammar of a kind. -/
def grammar : SignatureKind → Reader (List String)
  | .classType => classSignature
  | .field => referenceType maxDepth
  | .method => methodSignature

/-- Reads a signature of the given kind up to its end. -/
def reader (kind : SignatureKind) : Reader (List String) := do
  let names ← grammar kind
  if (← get).isEmpty then return names
  else fail .endOfSignature

end Signature

/-- Why a text is no signature: the byte position of the fault, and what was expected there. -/
structure SignatureError where
  signature : String
  position : Nat
  expected : Signature.Expected
  deriving DecidableEq, Repr

/-- The message that reports a malformed signature. -/
def SignatureError.message (e : SignatureError) : String :=
  "malformed signature " ++ Text.quoted e.signature ++ " at position " ++ Text.decimal e.position
    ++ ": expected " ++ e.expected.text

/-- The length of a text in UTF-8 bytes. -/
def byteLength (text : List Char) : Nat :=
  text.foldl (fun length c => length + c.utf8Size) 0

/-- The binary names of all classes that a signature mentions, in ascending order. -/
def Signature.referencedClasses (kind : SignatureKind) (signature : String) :
    Except SignatureError (List String) :=
  match reader kind signature.toList with
  | .ok (names, _) => .ok (Ascending.ofList names)
  | .error failure =>
    .error ⟨signature, byteLength signature.toList - byteLength failure.rest, failure.expected⟩

end PackageAudit
