/-
The source languages whose lines are counted.
-/
import PackageAudit.Path

namespace PackageAudit

/-- A source language. -/
inductive Language where
  | java
  | kotlin
  deriving DecidableEq, Repr

namespace Language

/-- All languages. -/
def all : List Language := [.java, .kotlin]

/-- The name of a language. -/
def name : Language → String
  | .java => "java"
  | .kotlin => "kotlin"

/-- Whether block comments may lie inside one another. -/
def nestedComments : Language → Bool
  | .java => false
  | .kotlin => true

/-- Whether there are raw strings, which stand between three quotes and may span lines. -/
def rawStrings : Language → Bool
  | .java => false
  | .kotlin => true

/-- The language of a file, by the extension of its name. -/
def ofPath? (path : String) : Option Language :=
  match Path.extension? path with
  | some "java" => some .java
  | some "kt" => some .kotlin
  | _ => none

/-- A text in which ASCII letters are in lower case. -/
def lowered (text : String) : String := String.ofList (text.toList.map Char.toLower)

/-- The language with a given name, in either case.  The error is the text that was not understood. -/
def parse (text : String) : Except String Language :=
  match lowered text with
  | "java" => .ok .java
  | "kotlin" => .ok .kotlin
  | "kt" => .ok .kotlin
  | other => .error other

/-- The message for a text that names no language. -/
def unknownMessage (text : String) : String :=
  "unknown language '" ++ text ++ "' (expected java or kotlin)"

end Language

end PackageAudit
