/-
JSON values and how they are laid out.

`render` writes one member or item a line, indented by two blanks for each level; an empty
array or object stays on its line.  Beside it stand the small readers that take values
apart again.
-/
import PackageAudit.Text.Digits

namespace PackageAudit

/-- A JSON value.  Numbers are integers, or a mantissa divided by a power of ten. -/
inductive JsonValue where
  | null
  | bool (b : Bool)
  | integer (n : Int)
  | decimal (mantissa : Int) (places : Nat)
  | string (text : String)
  | array (items : List JsonValue)
  | object (members : List (String × JsonValue))
  deriving Inhabited, Repr

namespace JsonValue

/-! ### Writing -/

/-- A character as it stands inside a string. -/
def escapedChar (c : Char) : String :=
  if c = '"' then "\\\""
  else if c = '\\' then "\\\\"
  else if c.toNat = 8 then "\\b"
  else if c.toNat = 12 then "\\f"
  else if c = '\n' then "\\n"
  else if c = '\r' then "\\r"
  else if c = '\t' then "\\t"
  else if c.toNat < 0x20 then "\\u" ++ Text.hexLower 4 c.toNat
  else String.singleton c

/-- A text as a string of JSON. -/
def escaped (text : String) : String :=
  "\"" ++ String.join (text.toList.map escapedChar) ++ "\""

/-- An integer in decimal. -/
def integerText : Int → String
  | .ofNat n => Text.decimal n
  | .negSucc n => "-" ++ Text.decimal (n + 1)

/-- Blanks in front of a line at a level. -/
def indent (level : Nat) : String := String.ofList (List.replicate (2 * level) ' ')

/-- Puts lines between brackets, each behind the blanks of the next level. -/
def enclose (level : Nat) (opening closing : String) (lines : List String) : String :=
  if lines.isEmpty then opening ++ closing
  else opening ++ "\n" ++ String.intercalate ",\n" (lines.map (indent (level + 1) ++ ·))
    ++ "\n" ++ indent level ++ closing

mutual

/-- The text of a value whose first line stands at a level. -/
def renderAt (level : Nat) : JsonValue → String
  | .null => "null"
  | .bool b => if b then "true" else "false"
  | .integer n => integerText n
  | .decimal mantissa places => integerText mantissa ++ "e-" ++ Text.decimal places
  | .string text => escaped text
  | .array items => enclose level "[" "]" (renderItems (level + 1) items)
  | .object members => enclose level "\x7b" "\x7d" (renderMembers (level + 1) members)

/-- The texts of items. -/
def renderItems (level : Nat) : List JsonValue → List String
  | [] => []
  | item :: rest => renderAt level item :: renderItems level rest

/-- The texts of members. -/
def renderMembers (level : Nat) : List (String × JsonValue) → List String
  | [] => []
  | (name, value) :: rest =>
    (escaped name ++ ": " ++ renderAt level value) :: renderMembers level rest

end

/-- The text of a value. -/
def render (value : JsonValue) : String := renderAt 0 value

/-- A natural number. -/
def ofNat (n : Nat) : JsonValue := .integer n

/-- Texts in an array. -/
def ofTexts (texts : List String) : JsonValue := .array (texts.map .string)

/-! ### Reading -/

/-- The text of a string. -/
def text? : JsonValue → Option String
  | .string text => some text
  | _ => none

/-- The items of an array. -/
def items? : JsonValue → Option (List JsonValue)
  | .array items => some items
  | _ => none

/-- A natural number of at most 64 bits. -/
def count? : JsonValue → Option Nat
  | .integer (.ofNat n) => if n < 18446744073709551616 then some n else none
  | _ => none

/-- The texts of an array of strings. -/
def texts? (value : JsonValue) : Option (List String) := do
  (← value.items?).mapM text?

/-- The fields of a record, in the order of their names: an object gives them by name and may have
other members, an array gives them in order and may leave out the last ones. -/
def fields? (names : List String) : JsonValue → Option (List (Option JsonValue))
  | .object members => some (names.map (members.lookup ·))
  | .array items =>
    if items.length ≤ names.length then
      some (items.map some ++ List.replicate (names.length - items.length) none)
    else none
  | _ => none

/-- The constant of an enumeration: its name alone, or an object that gives the name the value
null. -/
def constantName? : JsonValue → Option String
  | .string name => some name
  | .object [(name, .null)] => some name
  | _ => none

end JsonValue

end PackageAudit
