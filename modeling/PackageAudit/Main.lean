/-
The program: it reads the files that a run may look at, runs it, and carries out what the run
leaves behind.
-/
import PackageAudit.CommandLine.Run

namespace PackageAudit.CommandLine

/-- The reason that the system gives for a failure. -/
def fileError : IO.Error → FileError
  | .noFileOrDirectory _ _ _ => .notFound
  | .inappropriateType _ _ _ => .notADirectory
  | e => .system (toString e)

/-- Reads a file or a directory with all that lies below it.  Links below a directory are left
out. -/
partial def readTree (path : String) : IO (Except FileError FileTree) := do
  let place := System.mkFilePath [path]
  try
    if (← place.metadata).type == .dir then
      let mut entries := []
      for entry in ← place.readDir do
        let kind := (← entry.path.symlinkMetadata).type
        if kind == .dir || kind == .file then
          match ← readTree entry.path.toString with
          | .ok tree => entries := (entry.fileName, tree) :: entries
          | .error e => return .error e
      return .ok (.directory (entries.foldl (fun table (name, tree) =>
        Ascending.insertNew name tree table) []))
    else
      return .ok (.file (← IO.FS.readBinFile place).toList)
  catch e => return .error (fileError e)

/-- Reads what stands at paths. -/
def readPaths (paths : List String) : IO (List (String × Except FileError FileTree)) :=
  paths.mapM fun path => do return (path, ← readTree path)

/-- What was read, as files. -/
def filesOf (table : List (String × Except FileError FileTree)) : Files :=
  .ofTrees fun path => (table.lookup path).getD (.error .notFound)

/-- The surroundings of this run. -/
def currentEnvironment : IO Environment := do
  return {
    workingDirectory := (← IO.currentDir).toString
    configDirectory := ← IO.getEnv "CODE_ASSERT_CONFIG_DIR"
    home := ← IO.getEnv "HOME" }

/-- All files that a run looks at. -/
def readFiles (environment : Environment) (arguments : List String) : IO Files := do
  match Invocation.parse arguments with
  | .error _ => return filesOf []
  | .ok invocation =>
    let table ← readPaths (invocation.configPaths environment)
    let inputs ← readPaths (invocation.inputPaths (filesOf table) environment)
    return filesOf (table ++ inputs)

/-- Says on the error output why a run failed. -/
def reportFailure (failure : Failure) : IO Unit := do
  IO.eprintln ("Error: " ++ failure.message)
  for cause in failure.cause? do
    IO.eprintln ("\nCaused by:\n    " ++ cause)
  for help in failure.help? do
    IO.eprintln ("\nhelp: " ++ help)

/-- Carries out what a run leaves behind, and gives its exit code. -/
def finish (outcome : Outcome) : IO UInt32 := do
  if outcome.exitCode == 2 then IO.eprint usageText
  for (path, text) in outcome.written do
    try IO.FS.writeFile (System.mkFilePath [path]) text
    catch _ =>
      reportFailure (.unwritable path)
      return 1
  IO.print outcome.output
  for failure in outcome.failure do reportFailure failure
  return outcome.exitCode

end PackageAudit.CommandLine

open PackageAudit.CommandLine in
/-- Runs the program with the arguments of the command line. -/
def main (arguments : List String) : IO UInt32 := do
  let environment ← currentEnvironment
  let files ← readFiles environment arguments
  finish (run files environment arguments)
