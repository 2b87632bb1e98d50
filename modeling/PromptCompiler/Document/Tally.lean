import PromptCompiler.ToolTable.Basic

/-! # What a run adds up

While documents are compiled one after the other, a run collects the stubs for unknown tools, the
omitted tools, the number of documents withheld, and the names of the artifacts that belong to the
sources.
-/

namespace PromptCompiler

/-- The sums of a run so far. -/
structure Tally where
  /-- The tools to be entered into the table. -/
  stubs : ToolTable
  /-- The omitted tools, each once, in order of first occurrence. -/
  omittedNames : List Text
  /-- How often tools were omitted, counted once for each document. -/
  omittedCount : Nat
  /-- How many documents were withheld. -/
  withheldCount : Nat
  /-- The names of the artifacts of the sources so far. -/
  artifacts : List Text
deriving DecidableEq

namespace Tally

def empty : Tally := ⟨.empty, [], 0, 0, []⟩

/-- The sums after one more document's omitted tools. -/
def recordOmitted (tally : Tally) (names : List Text) : Tally :=
  { tally with
    omittedNames := Text.distinct (tally.omittedNames ++ names)
    omittedCount := tally.omittedCount + names.length }

end Tally

end PromptCompiler
