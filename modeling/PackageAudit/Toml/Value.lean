/-
Values of a TOML document.

Floating-point numbers and points in time are checked for their form while they are read;
no setting has such a value, so their text is all that is kept of them.
-/
namespace PackageAudit

/-- A value of a TOML document.  The keys of a table are distinct. -/
inductive TomlValue where
  | string (text : String)
  | integer (n : Int)
  | float (text : String)
  | moment (text : String)
  | bool (b : Bool)
  | array (items : List TomlValue)
  | table (entries : List (String × TomlValue))
  deriving Repr

namespace TomlValue

/-- The text of a string. -/
def text? : TomlValue → Option String
  | .string text => some text
  | _ => none

/-- A truth value. -/
def bool? : TomlValue → Option Bool
  | .bool b => some b
  | _ => none

/-- A number that is not negative. -/
def count? : TomlValue → Option Nat
  | .integer (.ofNat n) => some n
  | _ => none

/-- The items of an array, each read in the same way. -/
def list? {α : Type} (item? : TomlValue → Option α) : TomlValue → Option (List α)
  | .array items => items.mapM item?
  | _ => none

/-- The texts of an array of strings. -/
def texts? (value : TomlValue) : Option (List String) := value.list? text?

/-- The fields of a record, in the order of their names: a table gives them by name and has no
others, an array gives them in order and may leave out the last ones or go on behind them. -/
def fields? (names : List String) : TomlValue → Option (List (Option TomlValue))
  | .table entries =>
    if entries.all fun (key, _) => names.contains key then
      some (names.map (entries.lookup ·))
    else none
  | .array items =>
    some ((items.take names.length).map some
      ++ List.replicate (names.length - items.length) none)
  | _ => none

end TomlValue

end PackageAudit
