/-
Putting the tables of a TOML document together.

A table comes to be by a line that opens it, by being mentioned on the way to another
table, or by the dots of a key.  It can be opened once, and keys can be added to it only
from where it came to be: dots do not reach into a table that has been opened, nor does a
line open one that dots have made.
-/
import PackageAudit.Toml.Value

namespace PackageAudit.Toml

/-- How a table came to be. -/
inductive Origin where
  | opened
  | mentioned
  | dotted
  deriving DecidableEq, Repr

/-- What a key stands for while a document is put together. -/
inductive Node where
  | value (v : TomlValue)
  | table (origin : Origin) (entries : List (String × Node))
  /-- The tables of an array, of which there is at least one. -/
  | tables (items : List (List (String × Node)))
  deriving Repr

/-- The keys of a table, in the order in which they came up. -/
abbrev Entries := List (String × Node)

/-- A key with its value. -/
structure Assignment where
  path : List String
  value : TomlValue
  deriving Repr

/-- A line that opens a table, or a further table of an array. -/
inductive Header where
  | table (path : List String)
  | tables (path : List String)
  deriving DecidableEq, Repr

/-- A table with the keys that are set in it. -/
structure TableBlock where
  header : Header
  assignments : List Assignment
  deriving Repr

namespace Entries

/-- Gives a key that is there another node. -/
def replace (entries : Entries) (key : String) (node : Node) : Entries :=
  entries.map fun entry => if entry.1 = key then (key, node) else entry

/-- Changes the last of several tables. -/
def changeLast (change : Entries → Option Entries) :
    List Entries → Option (List Entries)
  | [] => none
  | [last] => (change last).map fun last => [last]
  | first :: rest => (changeLast change rest).map (first :: ·)

/-- Sets a new key. -/
def insertNew (entries : Entries) (key : String) (node : Node) : Option Entries :=
  match entries.lookup key with
  | none => some (entries ++ [(key, node)])
  | some _ => none

/-- Sets a key with dots.  The table in which the last part is set is either the given one or one
that dots have made. -/
def assign (value : TomlValue) : List String → Entries → Option Entries
  | [], _ => none
  | [key], entries => insertNew entries key (.value value)
  | key :: rest, entries =>
    match entries.lookup key with
    | none => do
      let below ← assign value rest []
      return entries ++ [(key, .table .dotted below)]
    | some (.value _) => none
    | some (.tables items) =>
      if rest.length = 1 then none
      else do
        let items ← changeLast (assign value rest) items
        return replace entries key (.tables items)
    | some (.table origin below) =>
      if origin = .opened || (rest.length = 1 && origin ≠ .dotted) then none
      else do
        let below ← assign value rest below
        return replace entries key (.table origin below)

/-- Sets keys one after the other. -/
def assignAll (entries : Entries) (assignments : List Assignment) : Option Entries :=
  assignments.foldlM (fun entries entry => assign entry.value entry.path entries) entries

/-- Changes the table that a path leads to.  Tables on the way that are not there come to be by
being mentioned; an array of tables stands for its last one. -/
def changeAt (change : Entries → Option Entries) : List String → Entries → Option Entries
  | [], entries => change entries
  | key :: rest, entries =>
    match entries.lookup key with
    | none => do
      let below ← changeAt change rest []
      return entries ++ [(key, .table .mentioned below)]
    | some (.value _) => none
    | some (.tables items) => do
      let items ← changeLast (changeAt change rest) items
      return replace entries key (.tables items)
    | some (.table origin below) => do
      let below ← changeAt change rest below
      return replace entries key (.table origin below)

/-- Opens a table, which is new or has only been mentioned, and sets keys in it. -/
def openTable (key : String) (assignments : List Assignment) (entries : Entries) :
    Option Entries :=
  match entries.lookup key with
  | none => do
    let below ← assignAll [] assignments
    return entries ++ [(key, .table .opened below)]
  | some (.table .mentioned below) => do
    let below ← assignAll below assignments
    return replace entries key (.table .opened below)
  | some _ => none

/-- Adds a table to an array of tables, which is new or was made in this way, and sets keys in it. -/
def addTable (key : String) (assignments : List Assignment) (entries : Entries) :
    Option Entries := do
  let table ← assignAll [] assignments
  match entries.lookup key with
  | none => return entries ++ [(key, .tables [table])]
  | some (.tables items) => return replace entries key (.tables (items ++ [table]))
  | some _ => none

/-- Adds a table with its keys. -/
def addBlock (entries : Entries) (block : TableBlock) : Option Entries :=
  let add := fun (path : List String) (change : String → Entries → Option Entries) =>
    match path.getLast? with
    | none => none
    | some key => changeAt (change key) path.dropLast entries
  match block.header with
  | .table path => add path fun key => openTable key block.assignments
  | .tables path => add path fun key => addTable key block.assignments

mutual

/-- The value of a node. -/
def nodeValue : Node → TomlValue
  | .value v => v
  | .table _ entries => .table (toValues entries)
  | .tables items => .array (tableValues items)

/-- The values of keys. -/
def toValues : List (String × Node) → List (String × TomlValue)
  | [] => []
  | (key, node) :: rest => (key, nodeValue node) :: toValues rest

/-- The values of several tables. -/
def tableValues : List (List (String × Node)) → List TomlValue
  | [] => []
  | entries :: rest => .table (toValues entries) :: tableValues rest

end

end Entries

end PackageAudit.Toml
