/-
The arguments of the command line.

Options stand before the command or behind it.  An option with a value takes the rest of its
own argument, behind an equals sign or right behind its letter, or the next argument, unless
that looks like an option itself.  Two hyphens end the options.  An option may be given once
before the command and once behind it; the one behind it counts.
-/
namespace PackageAudit.CommandLine

/-! ### Options -/

/-- Why the arguments ask for no command to be run. -/
inductive Interruption where
  | misuse
  | version
  | help
  deriving DecidableEq, Repr

/-- What an option does. -/
inductive OptionKind where
  | flag
  /-- The option has a value: one of the choices, or if there are none, any text but the empty
  one. -/
  | value (choices : List String)
  | immediate (what : Interruption)
  deriving DecidableEq, Repr

/-- An option, with the letter that stands for it, if one does. -/
structure OptionForm where
  name : String
  letter : Option Char
  kind : OptionKind
  deriving DecidableEq, Repr

/-- What arguments a command takes. -/
structure CommandForm where
  options : List OptionForm
  operands : Bool
  deriving DecidableEq, Repr

/-- Arguments that have been told apart. -/
structure Given where
  flags : List String := []
  values : List (String × String) := []
  operands : List String := []
  deriving DecidableEq, Repr

namespace Given

/-- Whether a flag was given. -/
def has (given : Given) (name : String) : Bool := given.flags.contains name

/-- The value of an option. -/
def value? (given : Given) (name : String) : Option String := given.values.lookup name

/-- Adds a flag, which must not have been given. -/
def addFlag (given : Given) (name : String) : Except Interruption Given :=
  if given.has name then .error .misuse
  else .ok { given with flags := given.flags ++ [name] }

/-- Adds the value of an option, which must not have been given. -/
def addValue (given : Given) (option : OptionForm) (value : String) : Except Interruption Given :=
  let accepted := match option.kind with
    | .value [] => !value.isEmpty
    | .value choices => choices.contains value
    | _ => false
  if accepted && (given.value? option.name).isNone then
    .ok { given with values := given.values ++ [(option.name, value)] }
  else .error .misuse

/-- Adds operands, none of which is empty. -/
def addOperands (given : Given) (form : CommandForm) (operands : List String) :
    Except Interruption Given :=
  if operands.isEmpty || (form.operands && operands.all (!·.isEmpty)) then
    .ok { given with operands := given.operands ++ operands }
  else .error .misuse

end Given

/-- Whether an argument is taken for an option. -/
def looksLikeOption (argument : String) : Bool :=
  argument.toList.head? == some '-' && argument ≠ "-"

/-- The value right behind the letter of an option; an equals sign in front of it is left out. -/
def attachedValue (rest : List Char) : String :=
  match rest with
  | '=' :: value => String.ofList value
  | value => String.ofList value

/-- Reads the letters of an argument.  If the last one is that of an option whose value is missing,
the option is given back. -/
def readLetters (form : CommandForm) :
    List Char → Given → Except Interruption (Given × Option OptionForm)
  | [], given => .ok (given, none)
  | c :: rest, given => do
    match form.options.find? (·.letter == some c) with
    | none => throw .misuse
    | some option =>
      match option.kind with
      | .flag => readLetters form rest (← given.addFlag option.name)
      | .immediate what => throw what
      | .value _ =>
        if rest.isEmpty then return (given, some option)
        else return (← given.addValue option (attachedValue rest), none)

/-- Reads the name of an option behind two hyphens, with or without a value.  If its value is
missing, the option is given back. -/
def readName (form : CommandForm) (argument : List Char) (given : Given) :
    Except Interruption (Given × Option OptionForm) := do
  let name := String.ofList (argument.takeWhile (· ≠ '='))
  let value := match argument.dropWhile (· ≠ '=') with
    | [] => none
    | _ :: value => some (String.ofList value)
  match form.options.find? (·.name == name) with
  | none => throw .misuse
  | some option =>
    match option.kind, value with
    | .flag, none => return (← given.addFlag option.name, none)
    | .immediate what, none => throw what
    | .value _, none => return (given, some option)
    | .value _, some value => return (← given.addValue option value, none)
    | _, some _ => throw .misuse

/-- Reads an argument that is taken for an option. -/
def readOption (form : CommandForm) (argument : String) (given : Given) :
    Except Interruption (Given × Option OptionForm) :=
  match argument.toList with
  | '-' :: '-' :: rest => readName form rest given
  | _ :: rest => readLetters form rest given
  | [] => .error .misuse

/-- Reads arguments.  With `stopAtOperand` the first operand ends the reading, and it is given back
with what follows it. -/
def readArguments (form : CommandForm) (stopAtOperand : Bool) :
    List String → Given → Except Interruption (Given × List String)
  | [], given => .ok (given, [])
  | argument :: rest, given => do
    if argument = "--" then return (← given.addOperands form rest, [])
    else if looksLikeOption argument then
      match ← readOption form argument given with
      | (given, none) => readArguments form stopAtOperand rest given
      | (given, some option) =>
        match rest with
        | [] => throw .misuse
        | value :: rest =>
          if looksLikeOption value then throw .misuse
          else readArguments form stopAtOperand rest (← given.addValue option value)
    else if stopAtOperand then return (given, argument :: rest)
    else readArguments form stopAtOperand rest (← given.addOperands form [argument])

/-! ### Commands -/

/-- How findings are shown. -/
inductive CheckFormat where
  | text
  | json
  | compact
  deriving DecidableEq, Repr

/-- How a model is shown. -/
inductive ModelFormat where
  | text
  | json
  deriving DecidableEq, Repr

/-- A command with its arguments. -/
inductive Command where
  | check (paths : List String) (format : CheckFormat) (noCycles failOnUnused : Bool)
  | model (paths : List String) (format : ModelFormat)
  | init (force : Bool)
  deriving DecidableEq, Repr

/-- What the command line asks for. -/
structure Invocation where
  verbose : Bool
  config : Option String
  command : Command
  deriving DecidableEq, Repr

/-- Options that stand before the command or behind it. -/
def sharedOptions : List OptionForm :=
  [⟨"verbose", some 'v', .flag⟩, ⟨"config", some 'c', .value []⟩,
    ⟨"help", some 'h', .immediate .help⟩]

/-- The arguments before the command. -/
def frontForm : CommandForm :=
  ⟨sharedOptions ++ [⟨"version", some 'V', .immediate .version⟩], false⟩

/-- The arguments of `check`. -/
def checkForm : CommandForm :=
  ⟨sharedOptions ++ [⟨"format", some 'f', .value ["text", "json", "compact"]⟩,
    ⟨"no-cycles", none, .flag⟩, ⟨"fail-on-unused", none, .flag⟩], true⟩

/-- The arguments of `model`. -/
def modelForm : CommandForm :=
  ⟨sharedOptions ++ [⟨"format", some 'f', .value ["text", "json"]⟩], true⟩

/-- The arguments of `init`. -/
def initForm : CommandForm :=
  ⟨sharedOptions ++ [⟨"force", none, .flag⟩], false⟩

/-- The command of a name, made from the arguments behind it. -/
def commandOf (name : String) (arguments : List String) :
    Except Interruption (Given × Command) := do
  let read := fun form => (readArguments form false arguments {}).map Prod.fst
  match name with
  | "check" =>
    let given ← read checkForm
    let format := match given.value? "format" with
      | some "json" => CheckFormat.json
      | some "compact" => .compact
      | _ => .text
    return (given, .check given.operands format (given.has "no-cycles")
      (given.has "fail-on-unused"))
  | "model" =>
    let given ← read modelForm
    let format := match given.value? "format" with
      | some "json" => ModelFormat.json
      | _ => .text
    return (given, .model given.operands format)
  | "init" =>
    let given ← read initForm
    return (given, .init (given.has "force"))
  | "help" => throw .help
  | _ => throw .misuse

/-- Reads the command line. -/
def Invocation.parse (arguments : List String) : Except Interruption Invocation := do
  match ← readArguments frontForm true arguments {} with
  | (_, []) => throw .misuse
  | (front, name :: rest) =>
    let (given, command) ← commandOf name rest
    return {
      verbose := front.has "verbose" || given.has "verbose"
      config := (given.value? "config").or (front.value? "config")
      command }

end PackageAudit.CommandLine
