/-
A whole analysis: reading the inputs of a configuration and checking the model.
-/
import PackageAudit.Analysis.Check
import PackageAudit.Inputs.Build

namespace PackageAudit

/-- Why an analysis gives no report. -/
inductive AnalysisError where
  | noInputs
  | build (cause : BuildError)
  | rules (cause : RuleSetError)
  deriving DecidableEq, Repr

namespace AnalysisError

/-- The message that reports an error. -/
def message : AnalysisError → String
  | .noInputs => "no inputs given"
  | .build cause => cause.message
  | .rules cause => cause.message

/-- The code of an error in diagnostics. -/
def code : AnalysisError → String
  | .noInputs => "code_assert::no_inputs"
  | .build cause => cause.code
  | .rules cause => cause.code

/-- Advice on an error. -/
def help? : AnalysisError → Option String
  | .noInputs =>
    some "pass paths on the command line or set `model.inputs` in code-assert.toml"
  | .build cause => cause.help?
  | .rules cause => cause.help?

end AnalysisError

namespace Configuration

/-- A configuration with the settings of the caller, which must have inputs then. -/
def prepare (config : Configuration) (overrides : Overrides) :
    Except AnalysisError Configuration :=
  let config := config.override overrides
  if config.model.inputs.isEmpty then .error .noInputs else .ok config

/-- Checks a model that has been built. -/
def report (config : Configuration) (outcome : BuildOutcome) : Except AnalysisError Report :=
  match config.check outcome with
  | .ok report => .ok report
  | .error cause => .error (.rules cause)

/-- Builds the model of a configuration and checks it. -/
def analyze (config : Configuration) (files : Files) : Except AnalysisError Report :=
  match config.model.build files with
  | .ok outcome => config.report outcome
  | .error cause => .error (.build cause)

end Configuration

end PackageAudit
