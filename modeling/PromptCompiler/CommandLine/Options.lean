import PromptCompiler.CommandLine.Integer

/-! # Reading options

An argument is an option if it begins with a dash and is more than a dash, unless it is a negative
number or holds a blank without being a known option. A known option may be cut short where no other
begins the same, and may be given its value after an equals sign or as the next argument. After two
dashes every argument is positional. All arguments are classified before any of them takes effect;
then they take effect in their order.
-/

namespace PromptCompiler.CommandLine

/-- What an option asks for. -/
inductive OptionKind where
  | help
  /-- Something that is on or off; no value. -/
  | flag
  | text
  | integer
deriving DecidableEq, Repr

/-- An option that a command knows. -/
structure OptionSpec where
  /-- The name of the option, with its dashes. -/
  name : Text
  kind : OptionKind
deriving DecidableEq

/-- Why the options of a command line do not lead to a run. -/
inductive Halt where
  | help
  /-- The command line is not understood. -/
  | misuse
deriving DecidableEq, Repr

/-- The names of the option for the help text, short and long. -/
def shortHelp : Text := "-h".toList

def helpSpecs : List OptionSpec := [⟨shortHelp, .help⟩, ⟨"--help".toList, .help⟩]

/-- What an argument is. -/
inductive Argument where
  /-- Two dashes, after which all arguments are positional. -/
  | separator
  | positional
  /-- An option that the command does not know. -/
  | unknown
  /-- An option with the name by which it is known and the value that is part of the argument. -/
  | option (spec : OptionSpec) (value : Option Text)
deriving DecidableEq

def splitValue? (argument : Text) : Option (Text × Text) :=
  match argument.span (· != '=') with
  | (name, _ :: value) => some (name, value)
  | (_, []) => none

/-- The options that an argument may stand for without being one of them exactly, with their values. A
long option may be cut short; what follows a short one in the same argument is its value. -/
def candidates (specs : List OptionSpec) (argument : Text) : List (OptionSpec × Option Text) :=
  match argument with
  | '-' :: '-' :: _ =>
    let (name, value) :=
      match splitValue? argument with
      | some (name, value) => (name, some value)
      | none => (argument, none)
    (specs.filter fun spec => name.isPrefixOf spec.name).map (·, value)
  | _ =>
    (specs.filter fun spec => spec.name = argument.take 2).map (·, some (argument.drop 2))

/-- Whether a text is a negative number: digits, or a point between optional and obligatory digits. -/
def isNegativeNumber : Text → Bool
  | '-' :: rest =>
    let isDigit (c : Char) : Bool := (Unicode.digitValue? c).isSome
    let number := if rest.getLast? = some '\n' then rest.dropLast else rest
    match number.span isDigit with
    | ([], []) => false
    | (_, []) => true
    | (_, '.' :: decimals) => decimals ≠ [] && decimals.all isDigit
    | _ => false
  | _ => false

/-- What an argument before two dashes is; nothing if it may stand for several options. -/
def classify (specs : List OptionSpec) (argument : Text) : Option Argument :=
  let exact (name : Text) : Option OptionSpec := specs.find? fun spec => spec.name = name
  if ['-'].isPrefixOf argument = false then some .positional
  else match exact argument with
    | some spec => some (.option spec none)
    | none =>
      if argument.length = 1 then some .positional
      else
        let valued :=
          if ['-', '-'].isPrefixOf argument then
            (splitValue? argument).bind fun (name, value) => (exact name).map (·, value)
          else none
        match valued, candidates specs argument with
        | some (spec, value), _ => some (.option spec (some value))
        | none, [(spec, value)] => some (.option spec value)
        | none, _ :: _ :: _ => none
        | none, [] =>
          if isNegativeNumber argument || argument.contains ' ' then some .positional
          else some .unknown

/-- The arguments with what each of them is. -/
def classifyAll (specs : List OptionSpec) : List Text → Option (List (Text × Argument))
  | [] => some []
  | argument :: rest =>
    if argument = ['-', '-'] then
      some ((argument, .separator) :: rest.map fun later => (later, .positional))
    else do
      let kind ← classify specs argument
      return (argument, kind) :: (← classifyAll specs rest)

def accepts (kind : OptionKind) (value : Text) : Bool :=
  match kind with
  | .integer => (integer? value).isSome
  | _ => true

/-- What an option that takes no value comes to when it has one. After the short name of the help option
its letter may be repeated and other letters may follow; everything else is not understood. -/
def withoutValue (spec : OptionSpec) (value : Text) : Halt :=
  if spec.name = shortHelp then
    match value.dropWhile (· == 'h') with
    | '-' :: _ | '=' :: _ => .misuse
    | _ => .help
  else .misuse

/-- The options of a command line with their values, in order; a flag has the empty text. -/
abbrev Settings := List (OptionSpec × Text)

/-- What a command line gives. -/
structure Given where
  settings : Settings
  /-- The arguments that belong to no known option, in order. -/
  extras : List Text

/-- What a command line gives with one more option before it. -/
def Given.set (given : Given) (spec : OptionSpec) (value : Text) : Given :=
  { given with settings := (spec, value) :: given.settings }

/-- The arguments taking effect in their order. -/
def collect : List (Text × Argument) → Except Halt Given
  | [] => .ok ⟨[], []⟩
  | (_, .option spec value) :: rest =>
    match spec.kind, value with
    | .help, none => .error .help
    | .flag, none => return (← collect rest).set spec []
    | .help, some value | .flag, some value => .error (withoutValue spec value)
    | kind, some value =>
      if accepts kind value then return (← collect rest).set spec value else .error .misuse
    | kind, none =>
      match rest with
      | (value, .positional) :: rest =>
        if accepts kind value then return (← collect rest).set spec value else .error .misuse
      | _ => .error .misuse
  | (argument, _) :: rest => do
    let given ← collect rest
    return { given with extras := argument :: given.extras }

/-- The options of a command that takes no other arguments. -/
def readOptions (specs : List OptionSpec) (arguments : List Text) : Except Halt Settings :=
  match classifyAll specs arguments with
  | none => .error .misuse
  | some classified => do
    let given ← collect classified
    if given.extras = [] then .ok given.settings else .error .misuse

/-- The last value of an option, if it is set. -/
def Settings.get? (settings : Settings) (name : Text) : Option Text :=
  (settings.reverse.find? fun setting => setting.1.name = name).map Prod.snd

end PromptCompiler.CommandLine
