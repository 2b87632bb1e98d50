import PromptCompiler.Document.Draft
import PromptCompiler.Run.Layout
import PromptCompiler.Run.Storage

/-! # Compiling a project

All sources of a project are compiled in the order of their names. Each artifact is written unless it
is withheld; then artifacts without a source are removed, and stubs for unknown tools are entered
into the table, all in one write.
-/

namespace PromptCompiler

namespace Layout

/-- The ending of the name under which an artifact is written before it takes its place. -/
def draftEnding : Text := ".tmp.gen".toList

/-- One source is compiled and its artifact written; the result is the sums of the run so far. -/
def compileSource (layout : Layout) (table : ToolTable) (tally : Tally) (source : Name) :
    Run Tally := do
  let path := layout.commands.child source
  let text ← Run.readText path
  let draft := (⟨← Run.currentTree, layout.root, table⟩ : Project).compile path text tally
  for warning in draft.warnings do Run.complain ("WARN: ".toList ++ warning)
  for error in draft.errors do Run.complain ("ERROR: ".toList ++ error)
  let artifact := Artifact.nameFor source.text
  let counted := { draft.tally with artifacts := draft.tally.artifacts ++ [artifact] }
  if draft.withheld then
    return { counted with withheldCount := counted.withheldCount + 1 }
  else
    Run.replaceText (layout.prompts.join artifact) draftEnding draft.output
    return counted

/-- The artifacts in a directory that are not among the expected ones are removed; the result is their
names. -/
def removeOrphans (prompts : Path) (expected : List Text) : Run (List Name) := do
  let orphans := (← Run.ask (·.artifacts prompts)).filter fun name => name.text ∉ expected
  for name in orphans do Run.change (·.remove (prompts.child name))
  return orphans

/-- The stubs of a run are entered into the table, with a notice. -/
def saveStubs (layout : Layout) (table stubs : ToolTable) : Run Unit := do
  unless stubs.entries = [] do
    (table.withStubs stubs).save layout.table
    Run.complain []
    Run.complain ("WARN: auto-stubbed ".toList ++ Text.ofNat stubs.entries.length ++
      " unknown tools as UNMAPPED:".toList)
    for name in stubs.keys do
      Run.complain ("  \"".toList ++ name ++ "\": \"UNMAPPED\"".toList)
    Run.complain "  Fill in Copilot equivalents before next run.".toList
    Run.complain []

/-- A project is compiled; the result is the sums of the run and the number of sources. -/
def compile (layout : Layout) : Run (Tally × Nat) := do
  let table ← ToolTable.load layout.table
  let sources ← Run.ask (·.sources layout.commands)
  if sources = [] then return (.empty, 0)
  Run.ensureDirectory layout.prompts
  let tally ← sources.foldlM (layout.compileSource table) .empty
  for name in ← removeOrphans layout.prompts tally.artifacts do
    Run.print ("Removed orphan: ".toList ++ name.text)
  layout.saveStubs table tally.stubs
  return (tally, sources.length)

end Layout

end PromptCompiler
