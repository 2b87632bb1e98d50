import PromptCompiler.OrderedMap
import PromptCompiler.Text.LowerCase

/-! # Tool tables

A tool table gives each tool of the source documents its name in the prompts. A tool is looked up by
its exact name, and failing that by the first name that is equal in lower case. The value
`UNMAPPED` marks a tool that is known to have no counterpart; it is also what a newly met tool is
entered with.
-/

namespace PromptCompiler

/-- The names of tools with their names in prompts, in the order of the table. -/
abbrev ToolTable := OrderedMap Text

namespace ToolTable

/-- The value of a tool without a counterpart. -/
def unmapped : Text := "UNMAPPED".toList

/-- The beginning of the names of tools that are passed on as they are. -/
def passedOnMark : Text := "mcp__".toList

def isPassedOn (name : Text) : Bool := passedOnMark.isPrefixOf name

/-- The entry for a tool: of its exact name, else of the first name that is equal in lower case. -/
def lookup? (table : ToolTable) (name : Text) : Option (Text × Text) :=
  match table.get? name with
  | some value => some (name, value)
  | none => table.entries.find? fun entry => Text.lower entry.1 = Text.lower name

/-- The table with the stubs that it lacks appended. -/
def withStubs (table stubs : ToolTable) : ToolTable := table.mergeMissing stubs

end ToolTable

end PromptCompiler
