import PromptCompiler.Review.Checks
import PromptCompiler.Run.Layout
import PromptCompiler.Run.Storage

/-! # Verifying a project

The sources, the artifacts and the tool table of a project are read, and the review of them is
printed by check. Verifying changes nothing in the directory tree.
-/

namespace PromptCompiler

namespace Layout

def readTexts (directory : Path) (names : List Name) : Run (OrderedMap Text) := do
  let texts ← names.mapM fun name => return (name.text, ← Run.readText (directory.child name))
  return .ofList texts

/-- What a review of a project looks at. -/
def review (layout : Layout) (minimum : Int) : Run Review := do
  let table ← ToolTable.load layout.table
  let sources ← readTexts layout.commands (← Run.ask (·.sources layout.commands))
  let artifacts ← readTexts layout.prompts (← Run.ask (·.artifacts layout.prompts))
  return {
    project := ⟨← Run.currentTree, layout.root, table⟩
    commands := layout.commands
    sources := sources
    artifacts := artifacts
    minimum := minimum }

/-- Diagnostics are printed by check. -/
def printGrouped (noun : Text) (diagnostics : List Diagnostic) : Run Unit := do
  for (check, group) in Diagnostic.grouped diagnostics do
    Run.print ('[' :: check ++ "] ".toList ++ Text.ofNat group.length ++ [' '] ++ noun ++ "(s):".toList)
    for diagnostic in group do
      let subject := if diagnostic.artifact = [] then [] else diagnostic.artifact ++ ": ".toList
      Run.print ("  - ".toList ++ subject ++ diagnostic.message)

/-- A review is printed; the result is whether it found no errors. -/
def printReview (review : Review) (verbose : Bool) : Run Bool := do
  let errors ← liftM (review.errors.mapError Fault.stopped)
  let warnings ← liftM (review.warnings.mapError Fault.stopped)
  unless warnings = [] do
    Run.print []
    printGrouped "warning".toList warnings
  if errors = [] then
    if verbose then
      for source in review.sources.keys do
        Run.print ("  OK ".toList ++ Artifact.nameFor source)
    Run.print ("OK: All checks passed (".toList ++ Text.ofNat review.sources.entries.length ++
      " prompts verified)".toList)
    return true
  else
    Run.print []
    printGrouped "error".toList errors
    Run.print []
    Run.print ("FAIL: ".toList ++ Text.ofNat errors.length ++ " error(s) across ".toList ++
      Text.ofNat (Diagnostic.grouped errors).length ++ " check type(s)".toList)
    return false

end Layout

end PromptCompiler
