/-
Running a command.

A command reads files, prints a text, may write a file, and ends with an exit code: 0 for
success, 1 for a failure or findings that fail the check, 2 for arguments that make no sense.
-/
import PackageAudit.Analysis.Run
import PackageAudit.CommandLine.Output
import PackageAudit.Configuration.File

namespace PackageAudit.CommandLine

/-- What surrounds a run. -/
structure Environment where
  workingDirectory : String
  /-- The directory of the shared configuration, if one was set. -/
  configDirectory : Option String
  home : Option String
  deriving DecidableEq, Repr

/-! ### Finding the configuration -/

/-- Where the configuration comes from. -/
inductive ConfigurationSource where
  | explicit (path : String)
  | project (path : String)
  /-- A configuration that projects share. -/
  | shared (path : String)
  | builtIn
  deriving DecidableEq, Repr

/-- The name of the configuration of a project. -/
def configName : String := "code-assert.toml"

/-- The names of the configuration of a project, in the order in which they are looked for. -/
def configNames : List String := [configName, "." ++ configName]

/-- The place of the configuration that projects share. -/
def Environment.sharedConfig? (environment : Environment) : Option String :=
  let directory := environment.configDirectory.or
    (environment.home.map (Path.join · ".code-assert"))
  directory.map (Path.join · "config.toml")

/-- Looks for the configuration: the one that was named, then that of the project, then the shared
one. -/
def ConfigurationSource.locate (files : Files) (environment : Environment)
    (explicit : Option String) : ConfigurationSource :=
  match explicit with
  | some path => .explicit path
  | none =>
    let candidates := configNames.map (Path.join environment.workingDirectory)
    match candidates.find? files.isFile with
    | some path => .project path
    | none =>
      match environment.sharedConfig?.filter files.isFile with
      | some path => .shared path
      | none => .builtIn

/-! ### Failures -/

/-- Why a command fails. -/
inductive Failure where
  | config (path : String) (cause : ConfigurationFileError)
  | analysis (cause : AnalysisError)
  | noInputs
  | build (cause : BuildError)
  | configExists (path : String)
  | unwritable (path : String)
  deriving DecidableEq, Repr

namespace Failure

/-- The message that reports a failure. -/
def message : Failure → String
  | .config path _ => "Failed to load config: " ++ path
  | .analysis _ => "Analysis failed"
  | .noInputs => "No inputs: pass paths or set model.inputs in code-assert.toml"
  | .build _ => "Failed to build model"
  | .configExists path =>
    "Configuration file already exists at " ++ path ++ ". Use --force to overwrite."
  | .unwritable path => "Failed to write " ++ path

/-- What lies behind a failure. -/
def cause? : Failure → Option String
  | .config _ cause => some cause.message
  | .analysis cause => some cause.message
  | .build cause => some cause.message
  | _ => none

/-- Advice on a failure. -/
def help? : Failure → Option String
  | .analysis cause => cause.help?
  | .build cause => cause.help?
  | _ => none

end Failure

/-! ### Commands -/

/-- Takes the inputs of a configuration relative to the directory of its file. -/
def relocate (path : String) (config : Configuration) : Configuration :=
  let directory := (Path.parent? path).getD ""
  let inputs := config.model.inputs.map (Path.join directory)
  { config with model := { config.model with inputs } }

/-- Drops the inputs of a configuration. -/
def withoutInputs (config : Configuration) : Configuration :=
  { config with model := { config.model with inputs := [] } }

/-- Loads the configuration.  Inputs of a shared one mean nothing for a project. -/
def ConfigurationSource.load (source : ConfigurationSource) (files : Files) :
    Except Failure Configuration :=
  let read := fun path (change : Configuration → Configuration) =>
    match Configuration.read files path with
    | .ok config => .ok (change config)
    | .error cause => .error (.config path cause)
  match source with
  | .explicit path => read path (relocate path)
  | .project path => read path (relocate path)
  | .shared path => read path withoutInputs
  | .builtIn => .ok {}

/-- What a command that did not fail has done. -/
structure Done where
  output : String
  failed : Bool := false
  written : Option (String × String) := none
  deriving DecidableEq, Repr

/-- Whether a report tells of declarations that were of no use. -/
def hasUnused (report : Report) : Bool :=
  !(report.ofKind .unusedRule).isEmpty || !(report.ofKind .unusedException).isEmpty

/-- Checks rules and cycles. -/
def runCheck (files : Files) (config : Configuration) (paths : List String) (format : CheckFormat)
    (noCycles failOnUnused : Bool) : Except Failure Done := do
  let overrides : Overrides := { inputs := paths, cycles := if noCycles then some false else none }
  let report ← (config.prepare overrides >>= fun config => config.analyze files).mapError
    Failure.analysis
  return {
    output := report.render format
    failed := report.hasErrors || (failOnUnused && hasUnused report) }

/-- Prints the model. -/
def runModel (files : Files) (config : Configuration) (paths : List String) (format : ModelFormat) :
    Except Failure Done := do
  let settings := if paths.isEmpty then config.model else { config.model with inputs := paths }
  if settings.inputs.isEmpty then throw .noInputs
  let outcome ← (settings.build files).mapError Failure.build
  return { output := outcome.render format }

/-- What is printed when a configuration has been written. -/
def nextSteps : String :=
  Text.unlines [
    "Created " ++ configName,
    "",
    "Next steps:",
    "  1. Point model.inputs at your compiled classes or jars",
    "  2. Declare [[rules.package]] entries for your packages",
    "  3. Run: code-assert check"]

/-- Writes the configuration that a project starts from. -/
def runInit (files : Files) (environment : Environment) (force : Bool) : Except Failure Done := do
  let path := Path.join environment.workingDirectory configName
  if files.isThere path && !force then throw (.configExists path)
  match files.get path with
  | .ok (.directory _) => throw (.unwritable path)
  | _ => return { output := nextSteps, written := some (path, Configuration.starter) }

/-- Runs a command. -/
def Invocation.run (invocation : Invocation) (files : Files) (environment : Environment) :
    Except Failure Done := do
  let load := (ConfigurationSource.locate files environment invocation.config).load files
  match invocation.command with
  | .check paths format noCycles failOnUnused =>
    runCheck files (← load) paths format noCycles failOnUnused
  | .model paths format => runModel files (← load) paths format
  | .init force => runInit files environment force

/-! ### What is read -/

/-- The paths at which a command looks before it knows its inputs. -/
def Invocation.configPaths (invocation : Invocation) (environment : Environment) : List String :=
  invocation.config.toList ++ configNames.map (Path.join environment.workingDirectory)
    ++ environment.sharedConfig?.toList

/-- The inputs that a command reads, given the files at the paths of its configuration. -/
def Invocation.inputPaths (invocation : Invocation) (files : Files) (environment : Environment) :
    List String :=
  let configured :=
    match (ConfigurationSource.locate files environment invocation.config).load files with
    | .ok config => config.model.inputs
    | .error _ => []
  match invocation.command with
  | .check paths _ _ _ => if paths.isEmpty then configured else paths
  | .model paths _ => if paths.isEmpty then configured else paths
  | .init _ => []

/-! ### The whole run -/

/-- What a run leaves behind. -/
structure Outcome where
  exitCode : UInt32
  output : String := ""
  failure : Option Failure := none
  written : Option (String × String) := none
  deriving DecidableEq, Repr

/-- The name and version of the program. -/
def versionText : String := "code-assert 0.1.0\n"

/-- How the program is used. -/
def usageText : String :=
  Text.unlines [
    "Usage: code-assert [-v] [-c CONFIG] COMMAND",
    "",
    "Commands:",
    "  check [-f text|json|compact] [--no-cycles] [--fail-on-unused] [PATH]...",
    "  model [-f text|json] [PATH]...",
    "  init [--force]"]

/-- Runs the program. -/
def run (files : Files) (environment : Environment) (arguments : List String) : Outcome :=
  match Invocation.parse arguments with
  | .error .misuse => { exitCode := 2 }
  | .error .version => { exitCode := 0, output := versionText }
  | .error .help => { exitCode := 0, output := usageText }
  | .ok invocation =>
    match invocation.run files environment with
    | .error failure => { exitCode := 1, failure := some failure }
    | .ok done =>
      { exitCode := if done.failed then 1 else 0, output := done.output, written := done.written }

end PackageAudit.CommandLine
