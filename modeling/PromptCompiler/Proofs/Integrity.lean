import PromptCompiler.Proofs.ReferenceEndings
import PromptCompiler.Proofs.ToolAccuracy

/-! # Artifacts that keep their structure

A review wants two things of an artifact: that it has the mark of an execution context if its source has, and
that it explains questions if its tools include the question tool. The compiler carries a mark over from the
body of a source, from the three fields that it keeps and from the names of tools; a mark in any other header
line is lost. The note on questions goes by the tools of the artifact and the review by the tools that it reads
back, so that they agree as long as no other tool is read back as the question tool.
-/

namespace PromptCompiler

open Artifact

/-! ## Fragments of an artifact -/

namespace Artifact

variable {fragment : Text}

/-- A fragment without blanks in a block is in the text that the blocks give. -/
theorem infix_joinBlocks (notEmpty : fragment ≠ []) (solid : ∀ c ∈ fragment, Text.isBlank c = false) {block : Text}
    {blocks : List Text} (member : block ∈ blocks) (inside : fragment <:+: block) : fragment <:+: joinBlocks blocks := by
  have kept : Text.trim block ≠ [] := by
    intro empty
    have trimmed := Text.infix_trim solid inside
    rw [empty] at trimmed
    exact notEmpty (List.infix_nil.mp trimmed)
  have listed : Text.trimEnd block ∈ (blocks.filter fun block => Text.trim block ≠ []).map Text.trimEnd :=
    List.mem_map_of_mem (List.mem_filter.mpr ⟨member, by simpa using kept⟩)
  exact (Text.infix_dropEndWhile solid inside).trans (Text.infix_intercalate listed)

namespace Parts

variable {parts : Parts}

private theorem infix_render (notEmpty : fragment ≠ []) (solid : ∀ c ∈ fragment, Text.isBlank c = false) {block : Text}
    (member : block ∈ [parts.header, parts.comments, parts.note, parts.body]) (inside : fragment <:+: block) :
    fragment <:+: parts.render :=
  (infix_joinBlocks notEmpty solid member inside).trans (List.prefix_append _ _).isInfix

/-- A value between double quotes keeps a fragment without quotes and backslashes. -/
theorem infix_quotedLine (unescaped : ∀ c ∈ fragment, ¬ (c = '\\' ∨ c = '"')) (key : Text) {value : Text}
    (inside : fragment <:+: value) : fragment <:+: quotedLine key value := by
  have kept : fragment <:+: escaped value := Text.infix_flatMap (fun c member => if_neg (unescaped c member)) inside
  exact kept.trans ⟨key ++ ": \"".toList, ['"'], rfl⟩

private theorem infix_header_of_line (notEmpty : fragment ≠ []) {line : Text}
    (listed : line ∈ ["name: ".toList ++ parts.command, quotedLine "description".toList parts.description,
      if parts.argumentHint = [] then [] else quotedLine "argument-hint".toList parts.argumentHint,
      toolsLine parts.declared parts.tools, routingLine]) (inside : fragment <:+: line) :
    fragment <:+: parts.header := by
  have written : line ≠ [] := by
    rintro rfl
    exact notEmpty (List.infix_nil.mp inside)
  have member : line ∈ parts.headerLines := List.mem_filter.mpr ⟨listed, by simpa using written⟩
  exact inside.trans (Text.infix_intercalate (List.mem_append_left _ (List.mem_cons_of_mem _ member)))

private theorem infix_header_of_command (notEmpty : fragment ≠ []) (inside : fragment <:+: parts.command) :
    fragment <:+: parts.header :=
  infix_header_of_line notEmpty List.mem_cons_self (inside.trans (List.suffix_append _ _).isInfix)

private theorem infix_header_of_description (notEmpty : fragment ≠ [])
    (unescaped : ∀ c ∈ fragment, ¬ (c = '\\' ∨ c = '"'))
    (inside : fragment <:+: parts.description) : fragment <:+: parts.header :=
  infix_header_of_line notEmpty (List.mem_cons_of_mem _ List.mem_cons_self) (infix_quotedLine unescaped _ inside)

private theorem infix_header_of_argumentHint (notEmpty : fragment ≠ [])
    (unescaped : ∀ c ∈ fragment, ¬ (c = '\\' ∨ c = '"'))
    (inside : fragment <:+: parts.argumentHint) : fragment <:+: parts.header := by
  have present : parts.argumentHint ≠ [] := by
    intro empty
    rw [empty] at inside
    exact notEmpty (List.infix_nil.mp inside)
  refine infix_header_of_line notEmpty (List.mem_cons_of_mem _ (List.mem_cons_of_mem _ List.mem_cons_self)) ?_
  rw [if_neg present]
  exact infix_quotedLine unescaped _ inside

/-- The comment on declared tools keeps a fragment of a name, if nothing in the fragment is escaped. -/
theorem infix_comments (unescaped : ∀ c ∈ fragment, Json.escaped c = [c]) {names : List Text} {name : Text}
    (declared : parts.declared = some names) (member : name ∈ names) (inside : fragment <:+: name) :
    fragment <:+: parts.comments := by
  have written : fragment <:+: Json.ofText name :=
    (Text.infix_flatMap unescaped inside).trans ⟨['"'], ['"'], rfl⟩
  have listed : fragment <:+: Json.ofTexts names :=
    (written.trans (Text.infix_intercalate (List.mem_map_of_mem member))).trans ⟨['['], [']'], rfl⟩
  obtain ⟨rest, begins⟩ := parts.comments_begin
  rw [begins, declared]
  exact (listed.trans ⟨"<!-- upstream-tools: ".toList, " -->".toList, rfl⟩).trans (List.prefix_append _ rest).isInfix

end Parts

end Artifact

/-! ## The mark of an execution context -/

/-- The mark of an execution context without the bracket that closes it. -/
def contextOpening : Text := "<execution_context".toList

private theorem contextMark_eq : Review.contextMark = contextOpening ++ ['>'] := by decide

private theorem contextMark_solid : ∀ c ∈ Review.contextMark, Text.isBlank c = false := by decide

private theorem isWordEnding_contextOpening : References.IsWordEnding contextOpening where
  notEmpty := by decide
  noDot := by decide
  noSlash := by decide
  noBackslash := by decide
  whole := by decide
  noSign := by decide

namespace Draft

/-- The value of a field of a source; empty if the header does not have it. -/
def fieldOf (source key : Text) : Text := ((Header.parts source).fields.get? key).getD []

/-- Whether the mark of an execution context stands in what a source hands over to its artifact: in the body, if the
root's own name does not end with the mark up to its bracket; in a field that is kept; or in the name of a tool. -/
def HandsOver (root : Path) (source : Text) : Prop :=
  (Text.occursIn Review.contextMark (Header.parts source).body = true ∧ References.ApartFrom root contextOpening) ∨
    (∃ key ∈ ["name".toList, "description".toList, "argument-hint".toList],
      Text.occursIn Review.contextMark (fieldOf source key) = true) ∨
    ∃ name ∈ (ToolDeclaration.ofText source).names.getD [], Text.occursIn Review.contextMark name = true

instance (root : Path) (source : Text) : Decidable (HandsOver root source) := inferInstanceAs (Decidable (_ ∨ _))

/-- The mark stays in the body up to the rewriting of references. -/
theorem infix_referringBody {source : Text} (inside : Review.contextMark <:+: (Header.parts source).body) :
    Review.contextMark <:+: referringBody source := by
  have feeds : Review.contextMark <:+: LineEnding.toLineFeeds (Header.parts source).body :=
    LineEnding.infix_toLineFeeds (by decide) inside
  have included : Review.contextMark <:+: Includes.convert (LineEnding.toLineFeeds (Header.parts source).body) :=
    Includes.infix_convert contextMark_solid (by decide) (by decide) feeds
  exact RuntimePaths.infix_normalize (by decide) (by decide) included

end Draft

namespace Project

variable {project : Project} {path : Path} {source : Text} {tally : Tally}

theorem compile_command (named : Draft.fieldOf source "name".toList ≠ []) :
    (project.compile path source tally).parts.command = commandName (Draft.fieldOf source "name".toList) := by
  rw [compile_eq, Draft.complete_parts]
  exact if_neg named

theorem compile_description (described : Draft.fieldOf source "description".toList ≠ []) :
    (project.compile path source tally).parts.description = Draft.fieldOf source "description".toList := by
  rw [compile_eq, Draft.complete_parts]
  exact if_neg described

theorem compile_argumentHint (project : Project) (path : Path) (source : Text) (tally : Tally) :
    (project.compile path source tally).parts.argumentHint = Draft.fieldOf source "argument-hint".toList := by
  rw [compile_eq, Draft.complete_parts]
  rfl

theorem compile_body (project : Project) (path : Path) (source : Text) (tally : Tally) :
    (project.compile path source tally).parts.body =
      (References.rewrite ⟨project.tree, project.root, path⟩ (Draft.referringBody source)).1 := by
  rw [compile_eq, Draft.complete_parts]
  rfl

/-- A field that is kept hands a fragment over to the header, if nothing in the fragment is escaped or replaced. -/
theorem infix_header_of_field {fragment : Text} (notEmpty : fragment ≠ [])
    (unescaped : ∀ c ∈ fragment, ¬ (c = '\\' ∨ c = '"')) (unreplaced : ':' ∉ fragment) {key : Text}
    (kept : key ∈ ["name".toList, "description".toList, "argument-hint".toList])
    (inside : fragment <:+: Draft.fieldOf source key) : fragment <:+: (project.compile path source tally).parts.header := by
  have present : Draft.fieldOf source key ≠ [] := by
    intro empty
    rw [empty] at inside
    exact notEmpty (List.infix_nil.mp inside)
  simp only [List.mem_cons, List.not_mem_nil, or_false] at kept
  rcases kept with rfl | rfl | rfl
  · refine Parts.infix_header_of_command notEmpty ?_
    have same : fragment.map (fun c => if c = ':' then '.' else c) = fragment := by
      refine (List.map_congr_left fun c member => if_neg ?_).trans (List.map_id fragment)
      rintro rfl
      exact unreplaced member
    have replaced := inside.map fun c => if c = ':' then '.' else c
    rw [compile_command present]
    rwa [same] at replaced
  · refine Parts.infix_header_of_description notEmpty unescaped ?_
    rwa [compile_description present]
  · refine Parts.infix_header_of_argumentHint notEmpty unescaped ?_
    rwa [compile_argumentHint]

/-- What a source hands over to its artifact keeps the mark of an execution context. -/
theorem contextMark_output (handed : Draft.HandsOver project.root source) :
    Text.occursIn Review.contextMark (project.compile path source tally).output = true := by
  have notEmpty : Review.contextMark ≠ [] := by decide
  have rendered {block : Text} (member : block ∈ [(project.compile path source tally).parts.header,
      (project.compile path source tally).parts.comments, (project.compile path source tally).parts.note,
      (project.compile path source tally).parts.body]) (inside : Review.contextMark <:+: block) :
      Text.occursIn Review.contextMark (project.compile path source tally).output = true := by
    rw [Text.occursIn_iff, compile_output]
    exact LineEnding.infix_restore_of_infix _ (by decide) (Parts.infix_render notEmpty contextMark_solid member inside)
  rcases handed with ⟨inBody, apart⟩ | ⟨key, kept, inField⟩ | ⟨name, declared, inName⟩
  · have inside : Review.contextMark <:+: (project.compile path source tally).parts.body := by
      rw [Text.occursIn_iff] at inBody
      have referring := Draft.infix_referringBody inBody
      rw [contextMark_eq] at referring ⊢
      rw [compile_body]
      exact References.infix_rewrite isWordEnding_contextOpening apart (by decide) referring
    exact rendered (by simp) inside
  · rw [Text.occursIn_iff] at inField
    exact rendered List.mem_cons_self (infix_header_of_field notEmpty (by decide) (by decide) kept inField)
  · rw [Text.occursIn_iff] at inName
    cases written : (ToolDeclaration.ofText source).names with
    | none =>
      rw [written] at declared
      cases declared
    | some names =>
      rw [written] at declared
      have same : (project.compile path source tally).parts.declared = some names :=
        (compile_declared project path source tally).trans written
      exact rendered (by simp) (Parts.infix_comments (by decide) same declared inName)

end Project

/-! ## The note on questions -/

namespace Artifact

/-- A tool that is written on one line and is read back as the question tool only if it is that tool. -/
structure KeepsQuestion (tool : Text) : Prop where
  /-- It holds no line feed, which would end the field. -/
  noFeed : '\n' ∉ tool
  /-- No other tool is read back as the question tool. -/
  own : questionTool ∈ readTools (quotedTool tool) → tool = questionTool

instance (tool : Text) : Decidable (KeepsQuestion tool) :=
  decidable_of_iff ('\n' ∉ tool ∧ (questionTool ∈ readTools (quotedTool tool) → tool = questionTool))
    ⟨fun ⟨noFeed, own⟩ => ⟨noFeed, own⟩, fun ⟨noFeed, own⟩ => ⟨noFeed, own⟩⟩

theorem mem_readTools_writtenTools_iff {tools : List Text} {found : Text} :
    found ∈ readTools (writtenTools tools) ↔ ∃ tool ∈ tools, found ∈ readTools (quotedTool tool) := by
  simp only [readTools, commaItems_writtenTools, List.map_flatMap, List.mem_flatMap]

namespace Parts

variable {parts : Parts}

/-- The note refers to the question tool. -/
theorem questionReference_note : questionReference <:+: questionNote := by
  have inLine : questionReference <:+: questionNoteLines[5] := ⟨_, _, rfl⟩
  exact inLine.trans (Text.infix_intercalate (List.getElem_mem _))

/-- An artifact in which the question tool is found explains questions. -/
theorem questionReference_render (oneLine : parts.OneLine) (keeps : ∀ tool ∈ parts.tools, KeepsQuestion tool)
    (found : questionTool ∈ (tools? parts.render).getD []) : questionReference <:+: parts.render := by
  cases declared : parts.declared with
  | none =>
    rw [tools?_render_none oneLine declared] at found
    cases found
  | some names =>
    rw [tools?_render oneLine declared, Option.getD_some, mem_readTools_writtenTools_iff] at found
    obtain ⟨tool, member, read⟩ := found
    have noted : parts.note = questionNote := if_pos ((keeps tool member).own read ▸ member)
    have listed : parts.note ∈ [parts.header, parts.comments, parts.note, parts.body] := by simp
    have explained : questionReference <:+: parts.note := by
      rw [noted]
      exact questionReference_note
    exact infix_render (by decide) (by decide) listed explained

end Parts

end Artifact

namespace Project

/-- Whatever is compiled, the artifact has the mark of an execution context if the source hands one over; and if the
name of the command stands on one line and no tool but the question tool is read back as that tool, then the
artifact explains questions if the question tool is found in it. -/
theorem compile_integrity (project : Project) (path : Path) (source : Text) (tally : Tally) :
    (Draft.HandsOver project.root source →
      Text.occursIn Review.contextMark (project.compile path source tally).output = true) ∧
    ('\n' ∉ (project.compile path source tally).parts.command →
      (∀ tool ∈ (project.compile path source tally).parts.tools, KeepsQuestion tool) →
      questionTool ∈ (tools? (project.compile path source tally).output).getD [] →
      Text.occursIn questionReference (project.compile path source tally).output = true) := by
  refine ⟨contextMark_output, fun command keeps found => ?_⟩
  have oneLine := compile_oneLine command fun tool member => (keeps tool member).noFeed
  rw [compile_output, Parts.tools?_restore] at found
  rw [Text.occursIn_iff, compile_output]
  exact LineEnding.infix_restore_of_infix _ (by decide) (Parts.questionReference_render oneLine keeps found)

/-- A project whose table has one tool, with a file whose name ends in the mark without its bracket. -/
def askingProject (value : Text) : Project where
  tree :=
    ⟨[((Layout.commandsPlace []).tail, .directory), (Layout.commandsPlace [], .directory),
      (⟨"x<execution_context".toList, by decide⟩ :: (Layout.commandsPlace []).tail, .file .empty)]⟩
  root := .ofLocation []
  table := .ofList [("Ask".toList, value)]

/-- The artifact of a source of the project. -/
def askingDraft (value source : Text) : Draft :=
  (askingProject value).compile (.ofLocation (Layout.sampleName :: Layout.commandsPlace [])) source .empty

/-- A source whose tool asks the user, with a reference that ends in the mark. -/
def askingSource : Text := "---\nallowed-tools: [Ask]\n---\nSee ../x<execution_context>\n".toList

theorem compile_integrity_sample :
    Draft.HandsOver (askingProject questionTool).root askingSource ∧
      '\n' ∉ (askingDraft questionTool askingSource).parts.command ∧
      (∀ tool ∈ (askingDraft questionTool askingSource).parts.tools, KeepsQuestion tool) ∧
      questionTool ∈ (tools? (askingDraft questionTool askingSource).output).getD [] ∧
      Text.occursIn Review.contextMark (askingDraft questionTool askingSource).output = true ∧
      Text.occursIn questionReference (askingDraft questionTool askingSource).output = true := by
  have handed : Draft.HandsOver (askingProject questionTool).root askingSource := by decide
  have command : '\n' ∉ (askingDraft questionTool askingSource).parts.command := by
    rw [askingDraft, compile_eq, Draft.complete_parts]
    decide
  have tools : (askingDraft questionTool askingSource).parts.tools = [questionTool] := by
    rw [askingDraft, compile_tools]
    decide +kernel
  have keeps : ∀ tool ∈ (askingDraft questionTool askingSource).parts.tools, KeepsQuestion tool := by
    rw [tools]
    decide
  have declared : (askingDraft questionTool askingSource).parts.declared = some ["Ask".toList] := by
    rw [askingDraft, compile_declared]
    decide
  have found : questionTool ∈ (tools? (askingDraft questionTool askingSource).output).getD [] := by
    have oneLine : (askingDraft questionTool askingSource).parts.OneLine :=
      compile_oneLine command fun tool member => (keeps tool member).noFeed
    have rendered : tools? (askingDraft questionTool askingSource).output =
        some (readTools (writtenTools (askingDraft questionTool askingSource).parts.tools)) := by
      rw [askingDraft, compile_output, Parts.tools?_restore]
      exact Parts.tools?_render oneLine declared
    rw [rendered, tools]
    decide
  obtain ⟨marked, explained⟩ := compile_integrity (askingProject questionTool)
    (.ofLocation (Layout.sampleName :: Layout.commandsPlace [])) askingSource .empty
  exact ⟨handed, command, keeps, found, marked handed, explained command keeps found⟩

/-- A mark in a header line that is not kept is lost; and the field of a tool whose name holds quotes and a comma is
read back as if the question tool were there, though questions are not explained. -/
theorem compile_integrity_lost :
    (Text.occursIn Review.contextMark "---\nnote: <execution_context>\n---\nHello\n".toList = true ∧
      Text.occursIn Review.contextMark
        (askingDraft questionTool "---\nnote: <execution_context>\n---\nHello\n".toList).output = false) ∧
    questionTool ∈ (tools? (askingDraft "x', 'vscode/askQuestions".toList askingSource).output).getD [] ∧
      Text.occursIn questionReference (askingDraft "x', 'vscode/askQuestions".toList askingSource).output = false := by
  decide +kernel

end Project

end PromptCompiler
