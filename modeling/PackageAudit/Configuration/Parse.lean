/-
Configurations from TOML text.

A part of the document is a table, all of whose keys must be known, or an array with its
settings in order.
-/
import PackageAudit.Configuration.Document
import PackageAudit.Toml.Statement

namespace PackageAudit

/-- Reads a setting that may be missing. -/
def settingOr {α : Type} (missing : α) (read? : TomlValue → Option α) : Option TomlValue → Option α
  | none => some missing
  | some value => read? value

/-- Reads a setting that need not be there. -/
def optionalSetting {α : Type} (read? : TomlValue → Option α) :
    Option TomlValue → Option (Option α)
  | none => some none
  | some value => (read? value).map some

/-- Reads a list of texts that may be missing. -/
def textsSetting : Option TomlValue → Option (List String) := settingOr [] TomlValue.texts?

/-- Reads what a model is built from. -/
def ModelSection.ofToml? (value : TomlValue) : Option ModelSection := do
  match ← value.fields? ["inputs", "ignore-packages", "merge-packages", "languages",
      "parallelism"] with
  | [inputs, ignorePackages, mergePackages, languages, parallelism] =>
    return {
      inputs := ← textsSetting inputs
      ignorePackages := ← textsSetting ignorePackages
      mergePackages := ← textsSetting mergePackages
      languages := ← optionalSetting TomlValue.texts? languages
      parallelism := ← optionalSetting TomlValue.count? parallelism }
  | _ => none

/-- Reads the rules of a package, of which only the pattern must be there. -/
def PackageSection.ofToml? (value : TomlValue) : Option PackageSection := do
  match ← value.fields? ["pattern", "may-use", "must-use", "must-not-use", "may-be-used-by",
      "must-be-used-by", "must-not-be-used-by"] with
  | [some pattern, mayUse, mustUse, mustNotUse, mayBeUsedBy, mustBeUsedBy, mustNotBeUsedBy] =>
    return {
      pattern := ← pattern.text?
      mayUse := ← textsSetting mayUse
      mustUse := ← textsSetting mustUse
      mustNotUse := ← textsSetting mustNotUse
      mayBeUsedBy := ← textsSetting mayBeUsedBy
      mustBeUsedBy := ← textsSetting mustBeUsedBy
      mustNotBeUsedBy := ← textsSetting mustNotBeUsedBy }
  | _ => none

/-- Reads the declaration of rules. -/
def RulesSection.ofToml? (value : TomlValue) : Option RulesSection := do
  match ← value.fields? ["mode", "externals", "allow-intra-package-cycles", "package"] with
  | [mode, externals, allowIntraPackageCycles, packages] =>
    return {
      mode := ← optionalSetting TomlValue.text? mode
      externals := ← textsSetting externals
      allowIntraPackageCycles := ← settingOr false TomlValue.bool? allowIntraPackageCycles
      packages := ← settingOr [] (TomlValue.list? PackageSection.ofToml?) packages }
  | _ => none

/-- Reads which cycles are looked for. -/
def CyclesSection.ofToml? (value : TomlValue) : Option CyclesSection := do
  match ← value.fields? ["enabled", "scope", "allow"] with
  | [enabled, scope, allow] =>
    return {
      enabled := ← optionalSetting TomlValue.bool? enabled
      scope := ← optionalSetting TomlValue.text? scope
      allow := ← settingOr [] (TomlValue.list? TomlValue.texts?) allow }
  | _ => none

/-- Reads accepted findings with their reason. -/
def IgnoreSection.ofToml? (value : TomlValue) : Option IgnoreSection := do
  match ← value.fields? ["because", "patterns"] with
  | [some because, some patterns] => return ⟨← because.text?, ← patterns.texts?⟩
  | _ => none

/-- Reads a document. -/
def ConfigurationDocument.ofToml? (value : TomlValue) : Option ConfigurationDocument := do
  match ← value.fields? ["model", "rules", "cycles", "ignore"] with
  | [model, rules, cycles, ignores] =>
    return {
      model := ← settingOr {} ModelSection.ofToml? model
      rules := ← optionalSetting RulesSection.ofToml? rules
      cycles := ← settingOr {} CyclesSection.ofToml? cycles
      ignores := ← settingOr [] (TomlValue.list? IgnoreSection.ofToml?) ignores }
  | _ => none

/-- Why a text makes no configuration: it is no TOML document, or not one with these settings, or
its settings are at fault. -/
inductive ConfigurationError where
  | malformed
  | invalid (cause : LoadError)
  deriving DecidableEq, Repr

/-- The message that reports an error. -/
def ConfigurationError.message : ConfigurationError → String
  | .malformed => "Failed to parse config"
  | .invalid cause => "Invalid config: " ++ cause.message

/-- Reads a configuration. -/
def Configuration.parse (text : String) : Except ConfigurationError Configuration :=
  match (Toml.parse text).bind ConfigurationDocument.ofToml? with
  | none => .error .malformed
  | some document =>
    match document.load with
    | .ok config => .ok config
    | .error cause => .error (.invalid cause)

end PackageAudit
