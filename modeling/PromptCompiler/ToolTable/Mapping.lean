import PromptCompiler.ToolTable.Basic

/-! # Mapping tool lists

A list of tools is mapped name by name: a name is passed on, replaced by its value in the table, or
omitted, because its value says so or because the table does not know it. The result names each tool
once, in increasing order; each omitted name gives one warning; each unknown name leaves a stub
among those that wait to be entered into the table.
-/

namespace PromptCompiler.ToolTable

/-- What becomes of a tool. -/
inductive Fate where
  | passedOn
  | mapped (target : Text)
  /-- The table says that it has no counterpart. -/
  | declined
  /-- The table does not know it. -/
  | unknown
deriving DecidableEq

def fate (table : ToolTable) (name : Text) : Fate :=
  if isPassedOn name then .passedOn
  else match table.lookup? name with
    | none => .unknown
    | some (_, value) => if value = unmapped then .declined else .mapped value

/-- The name of a tool in prompts, unless it is omitted. -/
def target? (table : ToolTable) (name : Text) : Option Text :=
  match table.fate name with
  | .passedOn => some name
  | .mapped target => some target
  | .declined | .unknown => none

def omits (table : ToolTable) (name : Text) : Bool := (table.target? name).isNone

/-- The warning for an omitted tool in a document of the given label. -/
def warning (table : ToolTable) (label name : Text) : Text :=
  "unknown tool \"".toList ++ name ++ "\" in ".toList ++ label ++ "; omitted".toList ++
    if table.fate name = .declined then " (".toList ++ unmapped ++ " in tool map)".toList else []

/-- The result of mapping a list of tools. -/
structure Mapping where
  /-- The names in prompts, each once, in increasing order. -/
  tools : List Text
  /-- The omitted names, each once, in order of first occurrence. -/
  omitted : List Text
  /-- One warning for each omitted name, in the same order. -/
  warnings : List Text
deriving DecidableEq

/-- The tools of a list mapped by a table, for a document of the given label. -/
def mapTools (table : ToolTable) (label : Text) (names : List Text) : Mapping :=
  let omitted := Text.distinct (names.filter table.omits)
  { tools := Text.sortedDistinct (names.filterMap table.target?)
    omitted := omitted
    warnings := omitted.map (table.warning label) }

/-- The stubs after one more tool: an unknown tool is entered unless an equal name in lower case is. -/
def stub (table stubs : ToolTable) (name : Text) : ToolTable :=
  if table.fate name = .unknown ∧ stubs.lookup? name = none then stubs.insert name unmapped else stubs

/-- The stubs after a list of tools. -/
def stubAll (table stubs : ToolTable) (names : List Text) : ToolTable := names.foldl table.stub stubs

end PromptCompiler.ToolTable
