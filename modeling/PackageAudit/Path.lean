/-
Paths.

A path is a text whose pieces are divided by slashes.  Empty pieces and the piece `.` say
nothing and are left out when paths are compared, except that a `.` at the very start
and a slash at the very start count.  A path is shown as it was given.
-/
namespace PackageAudit.Path

/-- A step of a path. -/
inductive Component where
  | root
  | current
  | parent
  | normal (name : String)
  deriving DecidableEq, Repr

/-- The pieces of a text between slashes; there is always at least one. -/
def pieces (text : List Char) : List (List Char) := text.splitOn '/'

/-- Whether a piece says nothing. -/
def isTrivial (piece : List Char) : Bool := piece.isEmpty || piece == ['.']

/-- Whether a path starts at the root. -/
def isAbsolute (path : String) : Bool := path.toList.head? == some '/'

/-- The step of a piece that says something. -/
def Component.ofPiece (piece : List Char) : Component :=
  if piece == ['.', '.'] then .parent else .normal (String.ofList piece)

/-- What a path begins with before its pieces, and the rest of the path: a slash, or a `.` that
is a piece of its own. -/
def splitStart (path : List Char) : List Component × List Char × List Char :=
  match path with
  | '/' :: rest => ([.root], ['/'], rest)
  | ['.'] => ([.current], ['.'], [])
  | '.' :: '/' :: rest => ([.current], ['.'], '/' :: rest)
  | _ => ([], [], path)

/-- The steps of a path. -/
def components (path : String) : List Component :=
  let (start, _, body) := splitStart path.toList
  start ++ ((pieces body).filter (fun piece => !isTrivial piece)).map Component.ofPiece

/-- Whether the steps of one path end with the steps of another. -/
def endsWith (path ending : String) : Bool :=
  (components ending).isSuffixOf (components path)

/-- The name that a path ends with, if its last step is a name. -/
def fileName? (path : String) : Option String :=
  match (components path).getLast? with
  | some (.normal name) => some name
  | _ => none

/-- The part of a file name behind its last dot.  A dot at the very start begins no extension. -/
def extensionOf? (name : List Char) : Option String :=
  let reversed := name.reverse
  match reversed.dropWhile (· ≠ '.') with
  | [] | [_] => none
  | _ => some (String.ofList (reversed.takeWhile (· ≠ '.')).reverse)

/-- The extension of the file name that a path ends with. -/
def extension? (path : String) : Option String :=
  (fileName? path).bind fun name => extensionOf? name.toList

/-- Drops pieces that say nothing from the end of a list of pieces. -/
def trimPieces (parts : List (List Char)) : List (List Char) :=
  (parts.reverse.dropWhile isTrivial).reverse

/-- Puts pieces together with slashes. -/
def joinPieces (parts : List (List Char)) : List Char :=
  List.intercalate ['/'] parts

/-- A path without its last step.  The root and the empty path have none to leave out. -/
def parent? (path : String) : Option String :=
  let (start, text, body) := splitStart path.toList
  match trimPieces (pieces body) with
  | [] => if start == [.current] then some "" else none
  | parts => some (String.ofList (text ++ joinPieces (trimPieces parts.dropLast)))

/-- The path that leads from a directory along another path. -/
def join (directory path : String) : String :=
  if isAbsolute path then path
  else if directory.isEmpty || directory.toList.getLast? == some '/' then directory ++ path
  else directory ++ "/" ++ path

end PackageAudit.Path
