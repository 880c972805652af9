/-
Ascending lists.

A list whose members stand in strictly increasing order represents a finite set, and a
list of pairs whose first components do so represents a finite table.  Two such lists
with the same members are equal, so a set or table has one representation only, and
walking along it always gives the members in order.
-/
namespace PackageAudit.Ascending

variable {α β : Type} [Ord α]

/-- Adds a member to an ascending list; one that is there already is not repeated. -/
def insert (a : α) : List α → List α
  | [] => [a]
  | b :: rest =>
    match compare a b with
    | .lt => a :: b :: rest
    | .eq => b :: rest
    | .gt => b :: insert a rest

/-- The ascending list of the members of a list. -/
def ofList (items : List α) : List α :=
  items.foldl (fun set a => insert a set) []

/-- The ascending list of the members of two lists, the first of which is ascending. -/
def union (set items : List α) : List α :=
  items.foldl (fun set a => insert a set) set

/-- The value of a key in a table. -/
def find? (key : α) : List (α × β) → Option β
  | [] => none
  | (k, value) :: rest =>
    match compare key k with
    | .lt => none
    | .eq => some value
    | .gt => find? key rest

/-- Gives a key the value that `update` makes of its old value, if it has one. -/
def alter (key : α) (update : Option β → β) : List (α × β) → List (α × β)
  | [] => [(key, update none)]
  | (k, value) :: rest =>
    match compare key k with
    | .lt => (key, update none) :: (k, value) :: rest
    | .eq => (k, update (some value)) :: rest
    | .gt => (k, value) :: alter key update rest

/-- The ascending table of a list of pairs.  Of several pairs with one key the last counts. -/
def ofPairs (pairs : List (α × β)) : List (α × β) :=
  pairs.foldl (fun table pair => alter pair.1 (fun _ => pair.2) table) []

/-- Gives a key a value, unless it has one already. -/
def insertNew (key : α) (value : β) (table : List (α × β)) : List (α × β) :=
  alter key (·.getD value) table

/-- Adds up a count for a key. -/
def count (key : α) (n : UInt32) (table : List (α × UInt32)) : List (α × UInt32) :=
  alter key (fun old => old.getD 0 + n) table

end PackageAudit.Ascending
