import PromptCompiler.Proofs.LowerCase
import PromptCompiler.Proofs.MappedTools
import PromptCompiler.Proofs.ToolAccuracy

/-! # Tools that are passed on

Tools are mapped by their names in lower case, and a tool that is passed on is passed on in lower case too. So the
prompt has a tool in the spelling of its source only if this spelling is in lower case already, or if the table happens
to give this very name to another tool of the source. The tools line of the artifact says what the mapping says.
-/

namespace PromptCompiler

open Artifact

namespace ToolTable

/-- The mark of tools that are passed on is in lower case, so that lowering a name keeps it. -/
theorem passedOnMark_lower {name : Text} (mark : passedOnMark <+: name) : passedOnMark <+: Text.lower name :=
  Text.prefix_lower (by decide) mark

private theorem ne_unmapped_of_mark {name : Text} (mark : passedOnMark <+: name) : name ≠ unmapped := by
  rintro rfl
  revert mark
  decide

/-- A table gives a tool to one of the given names: the name is not passed on, and its entry has the tool as its value. -/
def GivesTo (table : ToolTable) (names : List Text) (tool : Text) : Prop :=
  ∃ name ∈ names, ¬ passedOnMark <+: Text.lower name ∧ ∃ key, table.Selects (Text.lower name) (key, tool)

/-- Among the names in lower case, a marked name is mapped to itself only if it is in lower case. -/
theorem mem_mapTools_lower_iff {table : ToolTable} {label : Text} {names : List Text} {name : Text} (member : name ∈ names)
    (mark : passedOnMark <+: name) :
    name ∈ (table.mapTools label (names.map Text.lower)).tools ↔ Text.lower name = name ∨ table.GivesTo names name := by
  have lowered : name ∈ names.map Text.lower ↔ Text.lower name = name := by
    constructor
    · intro listed
      obtain ⟨written, -, rfl⟩ := List.mem_map.mp listed
      exact Text.lower_lower written
    · exact fun same => List.mem_map.mpr ⟨name, member, same⟩
  have other : name ≠ unmapped := ne_unmapped_of_mark mark
  have given : (∃ lower ∈ names.map Text.lower, ¬ passedOnMark <+: lower ∧ name ≠ unmapped ∧
      ∃ key, table.Selects lower (key, name)) ↔ table.GivesTo names name := by
    simp only [List.mem_map, exists_exists_and_eq_and, GivesTo, ne_eq, other, not_false_eq_true, true_and]
  rw [(maps_mapTools table label (names.map Text.lower)).mem_tools, lowered, given, and_iff_left mark]

private theorem lower_mem_mapTools {table : ToolTable} {label : Text} {names : List Text} {name : Text}
    (member : name ∈ names)
    (mark : passedOnMark <+: name) : Text.lower name ∈ (table.mapTools label (names.map Text.lower)).tools := by
  rw [(maps_mapTools table label (names.map Text.lower)).mem_tools]
  exact .inl ⟨List.mem_map_of_mem member, passedOnMark_lower mark⟩

end ToolTable

/-! ## The tools line -/

namespace Artifact

/-- A mapped tool stands between single quotes in the tools line. -/
theorem infix_toolsLine {names tools : List Text} {tool : Text} (member : tool ∈ tools) :
    quotedTool tool <:+: toolsLine (some names) tools := by
  have written : quotedTool tool <:+: writtenTools tools := Text.infix_intercalate (List.mem_map_of_mem member)
  exact written.trans ⟨"tools: [".toList, [']'], rfl⟩

namespace Parts

variable {parts : Parts}

/-- The lines of the header before that of the tools. -/
def linesBeforeTools (parts : Parts) : List Text :=
  ["name: ".toList ++ parts.command, quotedLine "description".toList parts.description] ++
    if parts.argumentHint = [] then [] else [quotedLine "argument-hint".toList parts.argumentHint]

private theorem headerLines_eq {names : List Text} (declared : parts.declared = some names) :
    parts.headerLines = parts.linesBeforeTools ++ [toolsLine (some names) parts.tools, routingLine] := by
  have line : toolsLine (some names) parts.tools ≠ [] := by
    rw [toolsLine_some]
    exact List.append_ne_nil_of_left_ne_nil (by decide) _
  have routing : routingLine ≠ [] := by decide
  have command : "name: ".toList ++ parts.command ≠ [] := List.append_ne_nil_of_left_ne_nil (by decide) _
  have quoted {key value : Text} (named : key ≠ []) : quotedLine key value ≠ [] := by
    rw [quotedLine, List.append_assoc]
    exact List.append_ne_nil_of_left_ne_nil (List.append_ne_nil_of_left_ne_nil named _) _
  have description : quotedLine "description".toList parts.description ≠ [] := quoted (by decide)
  have hint : quotedLine "argument-hint".toList parts.argumentHint ≠ [] := quoted (by decide)
  rw [headerLines, linesBeforeTools, declared]
  by_cases unhinted : parts.argumentHint = []
  · simp only [if_pos unhinted, List.filter_cons, List.filter_nil, ne_eq, command, description, line, routing,
      not_true_eq_false, not_false_eq_true, decide_true, decide_false, if_true, Bool.false_eq_true, if_false]
    rfl
  · simp only [if_neg unhinted, List.filter_cons, List.filter_nil, ne_eq, command, description, hint, line, routing,
      not_false_eq_true, decide_true, if_true]
    rfl

/-- An artifact begins with its header, of which the tools line is the last line but one. -/
theorem render_toolsLine {names : List Text} (declared : parts.declared = some names) :
    ∃ after, parts.render = Text.joinLines ("---".toList :: (parts.linesBeforeTools ++
      [toolsLine (some names) parts.tools, routingLine, "---".toList])) ++ '\n' :: after := by
  obtain ⟨tail, shape⟩ := parts.render_begins
  refine ⟨'\n' :: (declaredComment parts.declared ++ tail), ?_⟩
  rw [shape, header, headerLines_eq declared, List.cons_append, List.append_assoc]
  rfl

end Parts

end Artifact

namespace Project

/-- A declared tool that is passed on comes into the prompt in lower case, in the mapped tools and in the tools line. It
comes as it is written in the source exactly if that is in lower case, or the table gives that name to another tool. -/
theorem compile_passes_on_iff (project : Project) (path : Path) (source : Text) (tally : Tally) {names : List Text}
    (declared : (ToolDeclaration.ofText source).names = some names) {name : Text} (member : name ∈ names)
    (mark : ToolTable.passedOnMark <+: name) :
    let draft := project.compile path source tally
    let line := toolsLine (some names) draft.tools
    (∃ after, draft.output = draft.lineEnding.restore
      (Text.joinLines ("---".toList :: (draft.parts.linesBeforeTools ++ [line, routingLine, "---".toList])) ++ '\n' :: after)) ∧
    (Text.lower name ∈ draft.tools ∧ quotedTool (Text.lower name) <:+: line) ∧
    (name ∈ draft.tools ∧ quotedTool name <:+: line ↔ Text.lower name = name ∨ project.table.GivesTo names name) := by
  intro draft line
  have written : draft.parts.declared = some names := (compile_declared project path source tally).trans declared
  have mapped : draft.tools = (project.table.mapTools path.name (names.map Text.lower)).tools := by
    have lowered : Draft.toolNames source = names.map Text.lower := by
      rw [Draft.toolNames, ToolDeclaration.lowered, declared]
      rfl
    rw [← lowered]
    exact compile_tools project path source tally
  have passed : Text.lower name ∈ draft.tools := mapped ▸ ToolTable.lower_mem_mapTools member mark
  have kept : name ∈ draft.tools ↔ Text.lower name = name ∨ project.table.GivesTo names name := by
    rw [mapped]
    exact ToolTable.mem_mapTools_lower_iff member mark
  obtain ⟨after, shape⟩ := Parts.render_toolsLine written
  have output : draft.output = draft.lineEnding.restore draft.parts.render := compile_output project path source tally
  refine ⟨⟨after, output.trans (congrArg draft.lineEnding.restore shape)⟩, ⟨passed, infix_toolsLine passed⟩,
    fun listed => kept.mp listed.1, fun spelled => ?_⟩
  have listed := kept.mpr spelled
  exact ⟨listed, infix_toolsLine listed⟩

/-- A project with one tool in its table, whose name in prompts is not in lower case. -/
def passingProject : Project where
  tree := ⟨[]⟩
  root := .ofLocation []
  table := .ofList [("Read".toList, "mcp__Docs".toList)]

/-- The artifact of a source of the project. -/
def passingDraft (source : Text) : Draft := passingProject.compile (.ofLocation [Layout.sampleName]) source .empty

/-- A source with a tool in lower case, a tool with a capital letter, and a third tool, to which the table gives the name
of the second. -/
def passingSource : Text := "---\r\ntools:\r\n - mcp__docs\r\n - mcp__Docs\r\n - Read\r\n---\r\n".toList

theorem compile_passes_on_iff_sample :
    (ToolDeclaration.ofText passingSource).names = some ["mcp__docs".toList, "mcp__Docs".toList, "Read".toList] ∧
      (∀ name ∈ ["mcp__docs".toList, "mcp__Docs".toList],
        name ∈ ["mcp__docs".toList, "mcp__Docs".toList, "Read".toList] ∧ ToolTable.passedOnMark <+: name) ∧
      ∀ name ∈ ["mcp__docs".toList, "mcp__Docs".toList], name ∈ (passingDraft passingSource).tools := by
  have declared : (ToolDeclaration.ofText passingSource).names =
      some ["mcp__docs".toList, "mcp__Docs".toList, "Read".toList] := by
    decide
  have marked : ∀ name ∈ ["mcp__docs".toList, "mcp__Docs".toList],
      name ∈ ["mcp__docs".toList, "mcp__Docs".toList, "Read".toList] ∧ ToolTable.passedOnMark <+: name := by
    decide
  have lowered : Text.lower "mcp__docs".toList = "mcp__docs".toList := by decide
  have given : passingProject.table.GivesTo ["mcp__docs".toList, "mcp__Docs".toList, "Read".toList] "mcp__Docs".toList := by
    refine ⟨"Read".toList, by decide, by decide, "Read".toList, ?_⟩
    rw [ToolTable.selects_iff]
    decide
  refine ⟨declared, marked, fun name listed => ?_⟩
  obtain ⟨member, mark⟩ := marked name listed
  obtain ⟨-, -, kept⟩ := compile_passes_on_iff passingProject (.ofLocation [Layout.sampleName]) passingSource .empty
    declared member mark
  simp only [List.mem_cons, List.not_mem_nil, or_false] at listed
  rcases listed with rfl | rfl
  · exact (kept.mpr (.inl lowered)).1
  · exact (kept.mpr (.inr given)).1

/-- A tool with capital letters loses them on its way into the prompt. -/
theorem compile_passes_on_lowered :
    (ToolDeclaration.ofText "---\nallowed-tools: [mcp__GitHub]\n---\n".toList).names = some ["mcp__GitHub".toList] ∧
      ToolTable.passedOnMark <+: "mcp__GitHub".toList ∧
      (passingDraft "---\nallowed-tools: [mcp__GitHub]\n---\n".toList).tools = ["mcp__github".toList] ∧
      Text.occursIn (quotedTool "mcp__GitHub".toList)
        (passingDraft "---\nallowed-tools: [mcp__GitHub]\n---\n".toList).output = false := by
  decide +kernel

end Project

end PromptCompiler
