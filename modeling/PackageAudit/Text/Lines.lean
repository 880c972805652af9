/-
The lines of a text.

A line ends with a line feed, and a carriage return directly before the line feed belongs
to the line end.  Text behind the last line feed is one more line if there is any; a
carriage return at its end is part of it.
-/
namespace PackageAudit.Text

/-- Puts a character in front of the lines that follow it.  The flag says whether a line feed
comes directly behind the character. -/
def pushLine (c : Char) (follows : Bool × List (List Char)) : Bool × List (List Char) :=
  if c = '\n' then (true, [] :: follows.2)
  else if c = '\r' && follows.1 then (false, follows.2)
  else match follows.2 with
    | [] => (false, [[c]])
    | line :: rest => (false, (c :: line) :: rest)

/-- The lines of a text, without their line ends. -/
def lines (text : List Char) : List (List Char) :=
  (text.foldr pushLine (false, [])).2

/-- The text of lines, with a line feed behind each. -/
def unlines (lines : List String) : String := String.join (lines.map (· ++ "\n"))

end PackageAudit.Text
