import PromptCompiler.CommandLine.Options
import PromptCompiler.Path.Containment
import PromptCompiler.Run.Compile

/-! # The command that compiles a project

The command returns 0 if every artifact was written, 1 if there are no sources, if an artifact was
withheld, or if a strict run omitted tools, 2 if the command line is not understood, and 3 if the run
ended with a fault.
-/

namespace PromptCompiler.CommandLine

/-- The code for a run that found something wrong. -/
def codeOfFailure : Nat := 1

/-- The code for a command line that is not understood. -/
def codeOfMisuse : Nat := 2

/-- The code for a run that ended with a fault. -/
def codeOfFault : Nat := 3

def rootOption : Text := "--repo".toList

/-- The option by which omitted tools count as a failure. -/
def strictOption : Text := "--strict".toList

def commandsOption : Text := "--commands-dir".toList

def promptsOption : Text := "--out-dir".toList

def tableOption : Text := "--tool-map".toList

/-- The options that say where a project keeps its files. -/
def layoutSpecs : List OptionSpec :=
  [⟨rootOption, .text⟩, ⟨commandsOption, .text⟩, ⟨promptsOption, .text⟩, ⟨tableOption, .text⟩]

def compileSpecs : List OptionSpec := helpSpecs ++ layoutSpecs ++ [⟨strictOption, .flag⟩]

def compileUsage : Text :=
  ("usage: promptport generate [-h] [--repo REPO] [--strict] [--commands-dir COMMANDS_DIR] " ++
    "[--out-dir OUT_DIR] [--tool-map TOOL_MAP]").toList

/-- A run brought to an end: a fault is printed and gives its code. -/
def conclude (run : Run Nat) : StateM World Nat := do
  match ← run.run with
  | .ok code => return code
  | .error fault =>
    modify fun world =>
      { world with
        complaints := world.complaints ++ "ERROR: ".toList ++ fault.message ++ ['\n'] }
    return codeOfFault

/-- The options of a command brought to a run: the help text and the way to call the command are printed
where they are due. -/
def withOptions (usage : Text) (specs : List OptionSpec) (arguments : List Text)
    (run : Settings → Run Nat) : StateM World Nat := do
  match readOptions specs arguments with
  | .ok settings => conclude (run settings)
  | .error .help =>
    modify fun world => { world with output := world.output ++ usage ++ ['\n'] }
    return 0
  | .error .misuse =>
    modify fun world => { world with complaints := world.complaints ++ usage ++ ['\n'] }
    return codeOfMisuse

/-- The real root of the project, as the options give it from the current directory. -/
def rootOf (current : Location) (settings : Settings) : Run Path := do
  let text := (settings.get? rootOption).getD ['.']
  let tree ← Run.currentTree
  let root := Path.ofLocation (← tree.resolve ((Path.ofLocation current).join text))
  if ← Run.ask (·.isDirectory root) then return root
  else throw (.rootNotDirectory text)

/-- Where the project keeps its files, as the options give it from the current directory. -/
def layoutOf (current : Location) (settings : Settings) : Run Layout := do
  let root ← rootOf current settings
  let tree ← Run.currentTree
  let path (name default : Text) : Run Path :=
    liftM (tree.resolveInRoot root ((settings.get? name).getD default) .none)
  let commands ← path commandsOption Layout.defaultCommands
  let prompts ← path promptsOption Layout.defaultPrompts
  let table ← path tableOption Layout.defaultTable
  return ⟨root, commands, prompts, table⟩

/-- The result of compiling a project reported, and turned into a code. -/
def reportCompile (layout : Layout) (strict : Bool) (tally : Tally) (count : Nat) : Run Nat := do
  if count = 0 then
    Run.complain ("ERROR: No command files found at ".toList ++
      layout.root.relativeOrOwn layout.commands)
    return codeOfFailure
  if tally.withheldCount ≠ 0 then
    Run.complain []
    Run.complain ("ERROR: ".toList ++ Text.ofNat tally.withheldCount ++
      " file(s) skipped due to unbalanced fences.".toList)
  if tally.omittedCount ≠ 0 then
    Run.complain []
    Run.complain ("WARN: ".toList ++ Text.ofNat tally.omittedCount ++
      " unknown tool occurrences omitted: ".toList ++ Text.listed tally.omittedNames ++
      if strict then [] else " (run with --strict to fail on unknown tools)".toList)
  Run.print ("Generated ".toList ++ Text.ofNat count ++ " prompt files into ".toList ++
    layout.root.relativeOrOwn layout.prompts)
  return if tally.withheldCount ≠ 0 ∨ (tally.omittedCount ≠ 0 ∧ strict) then codeOfFailure else 0

/-- The command that compiles a project, called in a directory. -/
def compile (current : Location) (arguments : List Text) : StateM World Nat :=
  withOptions compileUsage compileSpecs arguments fun settings => do
    let layout ← layoutOf current settings
    let (tally, count) ← layout.compile
    reportCompile layout (settings.get? strictOption).isSome tally count

end PromptCompiler.CommandLine
