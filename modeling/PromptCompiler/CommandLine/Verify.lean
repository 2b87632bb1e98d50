import PromptCompiler.CommandLine.Compile
import PromptCompiler.Run.Verify

/-! # The command that verifies a project

The command returns 0 if no check found an error, 1 if one did, 2 if the command line is not
understood, and 3 if the run ended with a fault.
-/

namespace PromptCompiler.CommandLine

/-- The option by which every verified artifact is printed. -/
def verboseOption : Text := "--verbose".toList

/-- The option for the least number of sources that is not suspicious. -/
def minimumOption : Text := "--min-commands".toList

/-- The least number of sources that is not suspicious, if no other is given. -/
def defaultMinimum : Int := 20

def verifySpecs : List OptionSpec :=
  helpSpecs ++ layoutSpecs ++ [⟨verboseOption, .flag⟩, ⟨minimumOption, .integer⟩]

def verifyUsage : Text :=
  ("usage: promptport verify [-h] [--repo REPO] [--verbose] [--commands-dir COMMANDS_DIR] " ++
    "[--out-dir OUT_DIR] [--tool-map TOOL_MAP] [--min-commands MIN_COMMANDS]").toList

def minimumOf (settings : Settings) : Int :=
  ((settings.get? minimumOption).bind integer?).getD defaultMinimum

/-- The command that verifies a project, called in a directory. -/
def verify (current : Location) (arguments : List Text) : StateM World Nat :=
  withOptions verifyUsage verifySpecs arguments fun settings => do
    let layout ← layoutOf current settings
    let review ← layout.review (minimumOf settings)
    let passed ← Layout.printReview review (settings.get? verboseOption).isSome
    return if passed then 0 else codeOfFailure

end PromptCompiler.CommandLine
