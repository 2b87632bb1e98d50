import PromptCompiler.Proofs.Integrity

/-! # Headers that read back

The header of an artifact is written line by line, with values between double quotes and tools between
single ones, and is read by the rules for any header, which trim values and take one pair of quotes away.
Nothing that a source or a table puts into it ends a line, so each line stands for its field: the keys
come in their order, quoted values come back in their escaped form, and tools come back as they are if
none of them holds a comma or has a quote at an end.
-/

namespace PromptCompiler

open Artifact

namespace Artifact

/-- A value without the backslashes that escaping puts before backslashes and double quotes. -/
def unescaped : Text → Text
  | [] => []
  | '\\' :: c :: rest => if c = '\\' ∨ c = '"' then c :: unescaped rest else '\\' :: unescaped (c :: rest)
  | c :: rest => c :: unescaped rest

private theorem unescaped_escaped (value : Text) : unescaped (escaped value) = value := by
  induction value with
  | nil => rfl
  | cons c rest ih =>
    have step : escaped (c :: rest) = (if c = '\\' ∨ c = '"' then ['\\', c] else [c]) ++ escaped rest := rfl
    by_cases special : c = '\\' ∨ c = '"'
    · rw [step, if_pos special]
      change unescaped ('\\' :: c :: escaped rest) = c :: rest
      rw [unescaped, if_pos special, ih]
    · rw [step, if_neg special]
      change unescaped (c :: escaped rest) = c :: rest
      rw [unescaped.eq_3 c _ fun _ _ backslash _ => special (.inl backslash), ih]

end Artifact

/-! ## Texts on one line -/

theorem ToolTable.not_mem_target? {table : ToolTable} (values : ∀ entry ∈ table.entries, '\n' ∉ entry.2) {name target : Text}
    (unbroken : '\n' ∉ name) (mapped : table.target? name = some target) : '\n' ∉ target := by
  have inTable {entry : Text × Text} (found : table.lookup? name = some entry) : '\n' ∉ entry.2 := by
    rw [lookup?] at found
    split at found
    · rename_i value exact
      obtain ⟨listed, first, same⟩ := Option.map_eq_some_iff.mp exact
      obtain rfl := Option.some.inj found
      exact same ▸ values listed (List.mem_of_find?_eq_some first)
    · exact values entry (List.mem_of_find?_eq_some found)
  rw [target?] at mapped
  cases fate : table.fate name with
  | passedOn =>
    rw [fate] at mapped
    exact Option.some.inj mapped ▸ unbroken
  | mapped value =>
    rw [fate] at mapped
    obtain rfl := Option.some.inj mapped
    rw [ToolTable.fate] at fate
    split at fate
    · cases fate
    · split at fate
      · cases fate
      · rename_i found
        split at fate
        · cases fate
        · cases fate
          exact inTable found
  | declined =>
    rw [fate] at mapped
    cases mapped
  | unknown =>
    rw [fate] at mapped
    cases mapped

private theorem Draft.not_mem_toolNames {source name : Text} (member : name ∈ toolNames source) : '\n' ∉ name := by
  rw [toolNames, ToolDeclaration.lowered] at member
  intro feed
  cases declared : (ToolDeclaration.ofText source).names with
  | none =>
    rw [declared] at member
    cases member
  | some names =>
    rw [declared] at member
    obtain ⟨written, listed, rfl⟩ := List.mem_map.mp member
    have inside := Text.feed_mem_of_mem_lowerAfter feed
    rw [ToolDeclaration.ofText] at declared
    split at declared
    · cases declared
    · rename_i lines rest header
      obtain ⟨line, among, broken⟩ := ToolDeclaration.exists_mem_of_names declared listed inside
      exact Header.not_mem_of_split? header line among broken

namespace Project

variable {project : Project} {path : Path} {source : Text} {tally : Tally}

theorem not_mem_tools (values : ∀ entry ∈ project.table.entries, '\n' ∉ entry.2) :
    ∀ tool ∈ (project.compile path source tally).parts.tools, '\n' ∉ tool := by
  intro tool member
  rw [compile_tools] at member
  have mapped : tool ∈ (Draft.toolNames source).filterMap project.table.target? :=
    List.mem_eraseDups.mp ((Text.sorted_perm _).mem_iff.mp member)
  obtain ⟨name, declared, target⟩ := List.mem_filterMap.mp mapped
  exact project.table.not_mem_target? values (Draft.not_mem_toolNames declared) target

theorem not_mem_command (named : '\n' ∉ path.name) : '\n' ∉ (project.compile path source tally).parts.command := by
  rw [compile_eq, Draft.complete_parts]
  change '\n' ∉ Draft.commandName _
  rw [Draft.commandName]
  split
  · rw [List.mem_append, not_or]
    exact ⟨by decide, fun feed => named ((base_sublist path.name).subset feed)⟩
  · intro feed
    obtain ⟨c, member, same⟩ := List.mem_map.mp feed
    split at same
    · cases same
    · exact Header.not_mem_getD_field source "name".toList (same ▸ member)

/-- Whatever is compiled, the header of the artifact reads back. Its keys come in a fixed order, with an argument hint
and tools exactly if the source has them. The agent is read as it is, and the description and the argument hint are read
in their escaped form, from which they can be told. And if no tool holds a comma or has a quote at an end, the
tools are read as they were mapped, and none if the source declares none. -/
theorem compile_header_reads_back (project : Project) (path : Path) (source : Text) (tally : Tally)
    (values : ∀ entry ∈ project.table.entries, '\n' ∉ entry.2) (named : '\n' ∉ path.name) :
    let draft := project.compile path source tally
    let fields := (Header.parts draft.output).fields
    (fields.keys = ["name".toList, "description".toList] ++
        (if Draft.fieldOf source "argument-hint".toList ≠ [] then ["argument-hint".toList] else []) ++
        (if ∃ key ∈ ToolDeclaration.keys, key ∈ (Header.parts source).fields.keys then ["tools".toList] else []) ++
        ["agent".toList] ∧
      fields.get? "agent".toList = some "agent".toList ∧
      fields.get? "description".toList = some (escaped draft.description) ∧
      (Draft.fieldOf source "argument-hint".toList ≠ [] →
        fields.get? "argument-hint".toList = some (escaped (Draft.fieldOf source "argument-hint".toList)))) ∧
    (∀ value, unescaped (escaped value) = value) ∧
    ((∀ tool ∈ draft.tools, ',' ∉ tool ∧ tool.head?.any isQuote = false ∧ tool.getLast?.any isQuote = false) →
      tools? draft.output = (ToolDeclaration.ofText source).names.map fun _ => draft.tools) := by
  intro draft fields
  have oneLine : draft.parts.OneLine := compile_oneLine (not_mem_command named) (not_mem_tools values)
  have hint : draft.parts.argumentHint = Draft.fieldOf source "argument-hint".toList := compile_argumentHint ..
  have declared : draft.parts.declared = (ToolDeclaration.ofText source).names := compile_declared ..
  have same : fields = (Header.parts draft.parts.render).fields :=
    read_compile_output (fun text => (Header.parts text).fields) (fun text => by rw [Header.parts_restore]) ..
  refine ⟨⟨?_, ?_, ?_, ?_⟩, unescaped_escaped, fun readable => ?_⟩
  · rw [same, Parts.keys_render oneLine, hint, declared, Parts.writtenKeys]
    simp only [decide_eq_true_eq, ToolDeclaration.names_isSome_iff]
  · rw [same]
    refine Parts.get?_render oneLine ?_
    exact List.mem_append_right _ (List.mem_singleton_self _)
  · rw [same]
    refine Parts.get?_render oneLine ?_
    simp only [Parts.writtenFields, List.append_assoc]
    exact List.mem_append_left _ (List.mem_cons_of_mem _ List.mem_cons_self)
  · intro hinted
    rw [same, ← hint]
    rw [← hint] at hinted
    refine Parts.get?_render oneLine ?_
    rw [Parts.writtenFields, if_pos hinted]
    exact List.mem_append_left _ (List.mem_append_left _ (List.mem_append_right _ List.mem_cons_self))
  · rw [compile_output, Parts.tools?_restore, ← declared]
    cases names : draft.parts.declared with
    | none => exact Parts.tools?_render_none oneLine names
    | some names' =>
      have noCommas : ∀ tool ∈ draft.parts.tools, ',' ∉ tool := fun tool member => (readable tool member).1
      have whole : draft.parts.tools.map (Text.trimOf isQuote) = draft.parts.tools :=
        (List.map_congr_left fun tool member => Text.trimOf_eq_self (readable tool member).2.1
          (readable tool member).2.2).trans (List.map_id _)
      rw [Parts.tools?_render oneLine names, readTools_writtenTools noCommas, whole]
      rfl

/-- A source with a hint in brackets, quotes and a backslash, and with carriage returns. -/
def hintingSource : Text :=
  "---\r\nargument-hint: [\"a\\b\"]\r\nallowed-tools: [Ask]\r\n---\r\nHello\r\n".toList

theorem compile_header_reads_back_sample :
    (∀ entry ∈ (askingProject questionTool).table.entries, '\n' ∉ entry.2) ∧
      '\n' ∉ (Path.ofLocation (Layout.sampleName :: Layout.commandsPlace [])).name ∧
      (∀ tool ∈ (askingDraft questionTool hintingSource).tools,
        ',' ∉ tool ∧ tool.head?.any isQuote = false ∧ tool.getLast?.any isQuote = false) ∧
      (Header.parts (askingDraft questionTool hintingSource).output).fields.keys =
        ["name".toList, "description".toList, "argument-hint".toList, "tools".toList, "agent".toList] ∧
      (Header.parts (askingDraft questionTool hintingSource).output).fields.get? "argument-hint".toList =
        some "[\\\"a\\\\b\\\"]".toList ∧
      tools? (askingDraft questionTool hintingSource).output = some [questionTool] := by
  have values : ∀ entry ∈ (askingProject questionTool).table.entries, '\n' ∉ entry.2 := by decide
  have named : '\n' ∉ (Path.ofLocation (Layout.sampleName :: Layout.commandsPlace [])).name := by decide
  have tools : (askingDraft questionTool hintingSource).tools = [questionTool] := by
    have same (draft : Draft) : draft.tools = draft.parts.tools := rfl
    rw [same, askingDraft, compile_tools]
    decide +kernel
  have readable : ∀ tool ∈ (askingDraft questionTool hintingSource).tools,
      ',' ∉ tool ∧ tool.head?.any isQuote = false ∧ tool.getLast?.any isQuote = false := by
    rw [tools]
    decide
  have hint : Draft.fieldOf hintingSource "argument-hint".toList = "[\"a\\b\"]".toList := by decide
  have declared : (ToolDeclaration.ofText hintingSource).names = some ["Ask".toList] := by decide
  obtain ⟨⟨keys, -, -, hinted⟩, -, found⟩ := compile_header_reads_back (askingProject questionTool)
    (.ofLocation (Layout.sampleName :: Layout.commandsPlace [])) hintingSource .empty values named
  refine ⟨values, named, readable, keys.trans ?_, (hinted ?_).trans ?_, (found readable).trans ?_⟩
  · decide
  · decide
  · decide
  · rw [declared]
    exact congrArg some tools

end Project

end PromptCompiler
