/-
Files and directories.

What the program reads is seen as trees: a file with its bytes, or a directory with named
trees in the order of their names.  `Files` tells what stands at a path and which files lie below
a directory, wherever they come from; `FileTree.resolve` finds the first in a tree by walking along
the path.
-/
import PackageAudit.Ascending
import PackageAudit.Path
import PackageAudit.Text.Utf8

namespace PackageAudit

/-- A file, or a directory with an ascending table of what it holds. -/
inductive FileTree where
  | file (data : List UInt8)
  | directory (entries : List (String × FileTree))
  deriving Repr

/-- Why a file cannot be read. -/
inductive FileError where
  | notFound
  | notADirectory
  | isADirectory
  | notUtf8
  /-- Any other reason that the system gives. -/
  | system (message : String)
  deriving DecidableEq, Repr

/-- The message that reports an error. -/
def FileError.message : FileError → String
  | .notFound => "No such file or directory (os error 2)"
  | .notADirectory => "Not a directory (os error 20)"
  | .isADirectory => "Is a directory (os error 21)"
  | .notUtf8 => "stream did not contain valid UTF-8"
  | .system message => message

/-- What stands at each path, and which files lie below it. -/
structure Files where
  get : String → Except FileError FileTree
  /-- The files below the directory at a path, with their paths, in the order in which they are
  come upon. -/
  walk : String → Except FileError (List (String × List UInt8))

namespace Files

/-- The bytes of the file at a path. -/
def read (files : Files) (path : String) : Except FileError (List UInt8) := do
  match ← files.get path with
  | .file data => return data
  | .directory _ => throw .isADirectory

/-- The text of the file at a path. -/
def readText (files : Files) (path : String) : Except FileError String := do
  match Text.Utf8.decode? (← files.read path) with
  | some text => return text
  | none => throw .notUtf8

/-- Whether there is a file at a path. -/
def isFile (files : Files) (path : String) : Bool :=
  match files.get path with
  | .ok (.file _) => true
  | _ => false

/-- Whether there is anything at a path. -/
def isThere (files : Files) (path : String) : Bool :=
  match files.get path with
  | .ok _ => true
  | .error _ => false

end Files

namespace FileTree

mutual

/-- All files of a tree with their paths, depth first; `path` is that of the tree. -/
def filesBelow (path : String) : FileTree → List (String × List UInt8)
  | .file data => [(path, data)]
  | .directory entries => filesOfEntries path entries

/-- All files of the entries of a directory. -/
def filesOfEntries (path : String) : List (String × FileTree) → List (String × List UInt8)
  | [] => []
  | (name, tree) :: rest =>
    filesBelow (Path.join path name) tree ++ filesOfEntries path rest

end

end FileTree

/-- The trees at paths as files; those below a directory are come upon in the order of their
names. -/
def Files.ofTrees (get : String → Except FileError FileTree) : Files where
  get := get
  walk path := do
    match ← get path with
    | .directory entries => return FileTree.filesOfEntries path entries
    | .file _ => throw .notADirectory

namespace FileTree

/-- The entries of a directory. -/
def entries? : FileTree → Option (List (String × FileTree))
  | .directory entries => some entries
  | .file _ => none

/-- Walks along the pieces of a path.  The first tree of `trail` is where the walk stands, and the
others lie above it; the topmost lies above itself. -/
def walk : List FileTree → List (List Char) → Except FileError (List FileTree)
  | trail, [] => .ok trail
  | [], _ :: _ => .error .notFound
  | here :: above, piece :: rest =>
    match here with
    | .file _ => .error .notADirectory
    | .directory entries =>
      if Path.isTrivial piece then walk (here :: above) rest
      else if piece == ['.', '.'] then
        walk (if above.isEmpty then [here] else above) rest
      else
        match entries.lookup (String.ofList piece) with
        | none => .error .notFound
        | some tree => walk (tree :: here :: above) rest

/-- What stands at a path of a tree.  A path that does not start at the top of the tree starts at
its directory `workingDirectory`. -/
def resolve (tree : FileTree) (workingDirectory path : String) : Except FileError FileTree := do
  if path.isEmpty then throw .notFound
  let trail ← walk [tree] (Path.pieces (Path.join workingDirectory path).toList)
  match trail with
  | here :: _ => return here
  | [] => throw .notFound

/-- A tree as files. -/
def toFiles (tree : FileTree) (workingDirectory : String) : Files :=
  .ofTrees (tree.resolve workingDirectory)

/-- Puts a tree at the place that names lead to.  Directories on the way are made; a file on the way
gives way to a directory. -/
def insert (new : FileTree) : List String → FileTree → FileTree
  | [], _ => new
  | name :: rest, tree =>
    .directory (Ascending.alter name
      (fun old => insert new rest (old.getD (.directory []))) ((entries? tree).getD []))

end FileTree

end PackageAudit
