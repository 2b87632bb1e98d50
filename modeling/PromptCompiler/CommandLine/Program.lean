import PromptCompiler.CommandLine.Verify

/-! # The program

The program is called with the name of a command and its arguments. What stands before the name and
is no known option goes to the command as well. A call without a command prints how the program is
called.
-/

namespace PromptCompiler.CommandLine

def version : Text := "0.1.0".toList

/-- What the program says about itself. -/
def aboutText : Text :=
  "promptport ".toList ++ version ++
    "\nDeterministic compiler and verifier for command -> prompt artifacts\n".toList

def programUsage : Text := "usage: promptport [-h] about|generate|verify ...".toList

def aboutUsage : Text := "usage: promptport about [-h]".toList

/-- How the program ends: a command returns its code, or the program stops with a code before that. -/
inductive Ending where
  | returned (code : Nat)
  | stopped (code : Nat)
deriving DecidableEq, Repr

/-- A call of the program, read up to its command. -/
structure Call where
  extras : List Text
  command : Option (Text × List Text)

/-- The arguments of the program up to its command, taking effect in their order. -/
def readCall : List (Text × Argument) → Except Halt Call
  | [] => .ok ⟨[], none⟩
  | (argument, .unknown) :: rest => do
    let call ← readCall rest
    return { call with extras := argument :: call.extras }
  | (_, .option _ none) :: _ => .error .help
  | (_, .option spec (some value)) :: _ => .error (withoutValue spec value)
  | (argument, .positional) :: rest => .ok ⟨[], some (argument, rest.map Prod.fst)⟩
  | (argument, .separator) :: rest => if rest.isEmpty then .ok ⟨[argument], none⟩ else .error .misuse

/-- The program stopped with the way to call it. -/
def stop (usage : Text) : Halt → StateM World Ending
  | .help => do
    modify fun world => { world with output := world.output ++ usage ++ ['\n'] }
    return .stopped 0
  | .misuse => do
    modify fun world => { world with complaints := world.complaints ++ usage ++ ['\n'] }
    return .stopped codeOfMisuse

/-- The command that tells about the program. -/
def about (extras arguments : List Text) : StateM World Ending := do
  match (classifyAll helpSpecs arguments).elim (.error .misuse) collect with
  | .error halt => stop aboutUsage halt
  | .ok given =>
    if extras ++ given.extras = [] then
      modify fun world => { world with output := world.output ++ aboutText }
      return .returned 0
    else stop programUsage .misuse

def generateCommand : Text := "generate".toList

def verifyCommand : Text := "verify".toList

def aboutCommand : Text := "about".toList

def Call.ofArguments (arguments : List Text) : Except Halt Call :=
  (classifyAll helpSpecs arguments).elim (.error .misuse) readCall

/-- The program, called in a directory. -/
def program (current : Location) (arguments : List Text) : StateM World Ending := do
  match Call.ofArguments arguments with
  | .error halt => stop programUsage halt
  | .ok ⟨_, none⟩ =>
    modify fun world => { world with output := world.output ++ programUsage ++ ['\n'] }
    return .returned codeOfFault
  | .ok ⟨extras, some (command, rest)⟩ =>
    if command = aboutCommand then about extras rest
    else if command = generateCommand then return .returned (← compile current (extras ++ rest))
    else if command = verifyCommand then return .returned (← verify current (extras ++ rest))
    else stop programUsage .misuse

/-- The text of the project root that a call names; a dot if it names none. -/
def namedRoot (arguments : List Text) : Text :=
  match Call.ofArguments arguments with
  | .ok ⟨extras, some (command, rest)⟩ =>
    let specs := if command = verifyCommand then verifySpecs else compileSpecs
    match readOptions specs (extras ++ rest) with
    | .ok settings => (settings.get? rootOption).getD ['.']
    | .error _ => ['.']
  | _ => ['.']

end PromptCompiler.CommandLine
