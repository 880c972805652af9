/-
Configurations: what an analysis is to read and to check.
-/
import PackageAudit.Cycle
import PackageAudit.Ignore
import PackageAudit.Rules.RuleSet
import PackageAudit.Source.Language
import PackageAudit.Text.Lines

namespace PackageAudit

/-- What a model is built from. -/
structure ModelSettings where
  /-- Paths of directories, class files, archives and source files. -/
  inputs : List String := []
  /-- Classes are left out if their names start with one of these. -/
  ignorePackages : List String := []
  /-- Packages whose names start with one of these are taken as one. -/
  mergePackages : List String := []
  /-- The languages of the source files whose lines are counted. -/
  languages : List Language := Language.all
  /-- How many inputs may be read at a time.  What is read does not depend on it. -/
  parallelism : Option Nat := none
  deriving DecidableEq, Repr

/-- Which cycles are looked for. -/
structure CycleSettings where
  enabled : Bool := true
  scope : CycleScope := .packages
  /-- Groups of names whose cycles are not reported. -/
  allow : List (List String) := []
  deriving DecidableEq, Repr

/-- All that an analysis is told.  Without rules none are checked. -/
structure Configuration where
  model : ModelSettings := {}
  rules : Option RuleSet := none
  cycles : CycleSettings := {}
  ignores : List IgnoreEntry := []
  deriving DecidableEq, Repr

/-- What a caller may set in place of a configuration's own settings. -/
structure Overrides where
  inputs : List String := []
  rules : Option RuleSet := none
  cycles : Option Bool := none
  deriving DecidableEq, Repr

/-- A configuration with the settings of the caller. -/
def Configuration.override (config : Configuration) (overrides : Overrides) : Configuration where
  model :=
    if overrides.inputs.isEmpty then config.model
    else { config.model with inputs := overrides.inputs }
  rules := overrides.rules.or config.rules
  cycles := { config.cycles with enabled := overrides.cycles.getD config.cycles.enabled }
  ignores := config.ignores

/-- The configuration that a new project starts from, as text. -/
def Configuration.starter : String :=
  Text.unlines [
    "# code-assert configuration",
    "",
    "[model]",
    "inputs = [\"target/classes\"]",
    "ignore-packages = [\"java.\", \"javax.\", \"kotlin.\"]",
    "# merge-packages = [\"org.junit\"]",
    "# languages = [\"java\", \"kotlin\"]",
    "# parallelism = 4",
    "",
    "[rules]",
    "mode = \"deny-by-default\"",
    "externals = [\"java.*\", \"javax.*\", \"kotlin.*\"]",
    "allow-intra-package-cycles = false",
    "",
    "# [[rules.package]]",
    "# pattern = \"com.example.api\"",
    "# may-use = [\"com.example.model\"]",
    "# must-not-use = [\"com.example.impl.*\"]",
    "",
    "[cycles]",
    "enabled = true",
    "scope = \"packages\"",
    "allow = []",
    "",
    "# [[ignore]]",
    "# because = \"legacy bridge, removal tracked\"",
    "# patterns = [\"com.example.legacy* -> com.example.api\"]"]

end PackageAudit
