import PromptCompiler.Proofs.DeclaredTools
import PromptCompiler.Proofs.OrderedMaps
import PromptCompiler.Proofs.ToolComments
import PromptCompiler.Proofs.ToolFields

/-! # Auditing an artifact

An audit of a compiled artifact finds two lists: the declared tools in the comment and the mapped tools in
the header. Of the declared tools it finds all or nothing; which of the two, is a matter of what else the
artifact holds. The mapped tools are found as they are exactly if each of them can be read back.
-/

namespace PromptCompiler

namespace Header

/-- Empty lines are no fields, so that leaving them out changes nothing. -/
theorem filterMap_field?_filter (lines : List Text) :
    ((lines.filter (· ≠ [])).map withoutReturns).filterMap field? =
      (lines.map withoutReturns).filterMap field? := by
  have unread : field? (withoutReturns []) = none := by decide
  induction lines with
  | nil => rfl
  | cons line rest ih =>
    by_cases empty : line = []
    · subst empty
      rw [List.filter_cons_of_neg (by simp), ih, List.map_cons, List.filterMap_cons_none unread]
    · rw [List.filter_cons_of_pos (by simpa using empty), List.map_cons, List.map_cons, List.filterMap_cons,
        List.filterMap_cons, ih]

end Header

namespace Artifact.Parts

variable {parts : Parts}

/-- Nothing before the comment on declared tools can be taken for it. -/
structure Clear (parts : Parts) : Prop where
  oneLine : '\n' ∉ parts.command
  noComment : declaredList? parts.header = none

instance (parts : Parts) : Decidable parts.Clear :=
  decidable_of_iff ('\n' ∉ parts.command ∧ declaredList? parts.header = none)
    ⟨fun ⟨oneLine, noComment⟩ => ⟨oneLine, noComment⟩, fun ⟨oneLine, noComment⟩ => ⟨oneLine, noComment⟩⟩

/-- Whether an audit finds the declared tools: nothing in the artifact says that none are declared, and no name
closes the comment before its end. -/
def Audited (parts : Parts) : Prop :=
  Text.occursIn absentMark parts.render = false ∧
    ∀ name ∈ parts.declared.getD [], Text.occursIn closingMark name = false

instance (parts : Parts) : Decidable parts.Audited := inferInstanceAs (Decidable (_ ∧ _))

/-! ## The first blocks of an artifact -/

theorem header_ends (parts : Parts) : ∃ before, parts.header = before ++ ['-'] := by
  refine ⟨Text.joinLines ("---".toList :: parts.headerLines) ++ '\n' :: ['-', '-'], ?_⟩
  rw [header, Text.joinLines_append (List.cons_ne_nil _ _) (List.cons_ne_nil _ _), Text.joinLines_singleton,
    List.append_assoc]
  rfl

private theorem declaredComment_ends (declared : Option (List Text)) :
    ∃ before, declaredComment declared = '<' :: before ++ ['>'] := by
  cases declared with
  | none => exact ⟨(declaredComment none).tail.dropLast, by decide⟩
  | some names =>
    refine ⟨"!-- upstream-tools: ".toList ++ Json.ofTexts names ++ " --".toList, ?_⟩
    change ("<!-- upstream-tools: ".toList ++ Json.ofTexts names) ++ " -->".toList = _
    have opening : "<!-- upstream-tools: ".toList = '<' :: "!-- upstream-tools: ".toList := by decide
    have closing : " -->".toList = " --".toList ++ ['>'] := by decide
    rw [opening, closing, ← List.append_assoc]
    rfl

theorem comments_begin (parts : Parts) : ∃ rest, parts.comments = declaredComment parts.declared ++ rest := by
  obtain ⟨before, shape⟩ := declaredComment_ends parts.declared
  have notEmpty : declaredComment parts.declared ≠ [] := by
    rw [shape]
    exact List.cons_ne_nil _ _
  rw [comments, List.filter_cons_of_pos (by simpa using notEmpty)]
  cases [omittedComment parts.omitted].filter (· ≠ []) with
  | nil => exact ⟨[], by rw [Text.joinLines, List.intercalate_singleton, List.append_nil]⟩
  | cons next more => exact ⟨_, Text.joinLines_cons _ next more⟩

/-- An artifact begins with its header and the comment on declared tools. -/
theorem render_begins (parts : Parts) :
    ∃ tail, parts.render = parts.header ++ '\n' :: '\n' :: (declaredComment parts.declared ++ tail) := by
  obtain ⟨front, header⟩ := parts.header_ends
  obtain ⟨inner, comment⟩ := declaredComment_ends parts.declared
  obtain ⟨rest, comments⟩ := parts.comments_begin
  have solid {c : Char} {text : Text} (kept : Text.isBlank c = false) (member : c ∈ text) : Text.trim text ≠ [] :=
    List.ne_nil_of_mem (Text.mem_trimOf member kept)
  have headed : Text.trim parts.header ≠ [] := solid (c := '-') (by decide) (by simp [header])
  have commented : Text.trim parts.comments ≠ [] := solid (c := '<') (by decide) (by simp [comments, comment])
  have whole : Text.trimEnd parts.header = parts.header := by
    rw [header]
    exact Text.dropEndWhile_concat (by decide) front
  have whole' : Text.trimEnd parts.comments = declaredComment parts.declared ++ Text.trimEnd rest := by
    have split : parts.comments = '<' :: inner ++ '>' :: rest := by
      rw [comments, comment, List.append_assoc, List.singleton_append]
    rw [split, comment, List.append_assoc, List.singleton_append]
    exact Text.dropEndWhile_append_cons (by decide) ('<' :: inner) rest
  rw [render, joinBlocks, List.filter_cons_of_pos (by simpa using headed),
    List.filter_cons_of_pos (by simpa using commented), List.map_cons, List.map_cons, List.intercalate_cons_cons, whole,
    whole']
  obtain ⟨tail, later⟩ := Text.intercalate_begins ['\n', '\n'] (declaredComment parts.declared ++ Text.trimEnd rest)
    (([parts.note, parts.body].filter fun block => Text.trim block ≠ []).map Text.trimEnd)
  rw [later]
  exact ⟨Text.trimEnd rest ++ tail ++ ['\n'], by simp only [List.append_assoc, List.cons_append, List.nil_append]⟩

/-! ## The declared tools -/

theorem absentMark_occurs (declared : parts.declared = none) : Text.occursIn absentMark parts.render = true := by
  obtain ⟨tail, shape⟩ := parts.render_begins
  rw [Text.occursIn_iff, shape, declared]
  refine ⟨parts.header ++ ['\n', '\n'], (declaredComment none).drop absentMark.length ++ tail, ?_⟩
  have mark : declaredComment none = absentMark ++ (declaredComment none).drop absentMark.length := by decide
  rw [List.append_assoc, List.append_assoc, ← List.append_assoc absentMark, ← mark]
  rfl

theorem Audited.exists_declared (audited : parts.Audited) : ∃ names, parts.declared = some names := by
  refine Option.ne_none_iff_exists'.mp fun undeclared => ?_
  rw [Audited, absentMark_occurs undeclared] at audited
  cases audited.1

/-- Whether a list in the header, taken for that of the comment on declared tools, makes the reader of JSON stop. -/
def StopsAt (parts : Parts) (stop : Json.Stop) : Prop :=
  Text.occursIn absentMark parts.render = false ∧
    ∃ list, declaredList? parts.header = some list ∧ listedTexts? list = .error stop

instance (parts : Parts) (stop : Json.Stop) : Decidable (parts.StopsAt stop) := inferInstanceAs (Decidable (_ ∧ _))

/-- The first list of an artifact is one in its header, or else that of the comment on declared tools. -/
private theorem declaredList?_render {names : List Text} (declared : parts.declared = some names) :
    ∃ list, declaredList? parts.render = (declaredList? parts.header).or (some list) ∧
      listedTexts? list = .ok (if names.any (Text.occursIn closingMark) then none else some names) := by
  obtain ⟨tail, shape⟩ := parts.render_begins
  obtain ⟨list, found, read⟩ := declaredList?_comment names tail
  have feeds (rest : Text) : declaredList? ('\n' :: '\n' :: rest) = declaredList? rest := rfl
  refine ⟨list, ?_, read⟩
  rw [shape, declared, declaredList?_append (by decide) (by decide) (upToClosing_feed _), feeds, found]

/-- An audit of an artifact finds all declared tools or none. -/
theorem declaredTools?_render (clear : parts.declared ≠ none → declaredList? parts.header = none) :
    declaredTools? parts.render = .ok (if parts.Audited then parts.declared else none) := by
  cases declared : parts.declared with
  | none => rw [ite_self, declaredTools?, if_pos (absentMark_occurs declared)]
  | some names =>
    obtain ⟨list, first, read⟩ := declaredList?_render declared
    have audited : parts.Audited ↔
        Text.occursIn absentMark parts.render = false ∧ names.any (Text.occursIn closingMark) = false := by
      rw [Audited, declared, Option.getD_some, List.any_eq_false]
      simp only [Bool.not_eq_true]
    rw [declaredTools?, first, clear (by simp [declared]), Option.none_or, Option.elim_some, read]
    cases absent : Text.occursIn absentMark parts.render with
    | true => rw [if_pos rfl, if_neg (by simp [audited, absent])]
    | false =>
      rw [if_neg Bool.false_ne_true]
      cases closes : names.any (Text.occursIn closingMark) with
      | true => rw [if_pos rfl, if_neg (by simp [audited, closes])]
      | false => rw [if_neg Bool.false_ne_true, if_pos (audited.mpr ⟨absent, closes⟩)]

/-- The comment that the compiler writes is always read. So an audit stops only at a list in the header. -/
theorem declaredTools?_render_eq_error_iff {stop : Json.Stop} :
    declaredTools? parts.render = .error stop ↔ parts.StopsAt stop := by
  rw [StopsAt, declaredTools?]
  cases absent : Text.occursIn absentMark parts.render with
  | true => simp
  | false =>
    have known : parts.declared ≠ none := fun undeclared => by
      rw [absentMark_occurs undeclared] at absent
      cases absent
    obtain ⟨names, declared⟩ := Option.ne_none_iff_exists'.mp known
    obtain ⟨list, first, read⟩ := declaredList?_render declared
    rw [if_neg Bool.false_ne_true, first]
    cases declaredList? parts.header with
    | none => simp [read]
    | some own => simp

theorem not_stopsAt (clear : parts.declared ≠ none → parts.Clear) (stop : Json.Stop) : ¬ parts.StopsAt stop := by
  rw [← declaredTools?_render_eq_error_iff, declaredTools?_render fun known => (clear known).noComment]
  exact fun same => by cases same

/-! ## The mapped tools -/

/-- The texts in the header of an artifact stand on one line each. -/
structure OneLine (parts : Parts) : Prop where
  command : '\n' ∉ parts.command
  description : '\n' ∉ parts.description
  argumentHint : '\n' ∉ parts.argumentHint
  tools : ∀ tool ∈ parts.tools, '\n' ∉ tool

/-- Whether a text is no delimiter and stands on one line. -/
def IsInner (line : Text) : Prop := '\n' ∉ line ∧ line.head? ≠ some '-'

instance (line : Text) : Decidable (IsInner line) := inferInstanceAs (Decidable (_ ∧ _))

theorem IsInner.append {before after : Text} (inner : IsInner before) (notEmpty : before ≠ []) (unbroken : '\n' ∉ after) :
    IsInner (before ++ after) := by
  obtain ⟨first, more, rfl⟩ := List.exists_cons_of_ne_nil notEmpty
  refine ⟨fun feed => ?_, inner.2⟩
  rcases List.mem_append.mp feed with here | later
  · exact inner.1 here
  · exact unbroken later

private theorem not_mem_escaped {value : Text} (unbroken : '\n' ∉ value) : '\n' ∉ escaped value := by
  intro feed
  obtain ⟨c, member, written⟩ := List.mem_flatMap.mp feed
  split at written
  · rcases List.mem_cons.mp written with same | same
    · cases same
    · exact unbroken (List.mem_singleton.mp same ▸ member)
  · exact unbroken (List.mem_singleton.mp written ▸ member)

private theorem isInner_quotedLine {key value : Text} (inner : IsInner (key ++ ": \"".toList))
    (unbroken : '\n' ∉ value) :
    IsInner (quotedLine key value) := by
  rw [quotedLine, List.append_assoc]
  refine inner.append (List.append_ne_nil_of_right_ne_nil _ (by decide)) fun feed => ?_
  rcases List.mem_append.mp feed with here | last
  · exact not_mem_escaped unbroken here
  · exact absurd (List.mem_singleton.mp last) (by decide)

theorem not_mem_listed {pieces : List Text} (unbroken : ∀ piece ∈ pieces, '\n' ∉ piece) : '\n' ∉ Text.listed pieces := by
  intro feed
  rcases Text.mem_of_mem_intercalate feed with between | ⟨piece, listed, inside⟩
  · exact absurd between (by decide)
  · exact unbroken piece listed inside

theorem toolsLine_some (names tools : List Text) :
    toolsLine (some names) tools = "tools".toList ++ ':' :: ' ' :: '[' :: (writtenTools tools ++ [']']) := by
  have opening : "tools: [".toList = "tools".toList ++ [':', ' ', '['] := by decide
  change "tools: [".toList ++ writtenTools tools ++ [']'] = _
  rw [opening, List.append_assoc, List.append_assoc]
  rfl

private theorem not_mem_writtenTools {tools : List Text} (unbroken : ∀ tool ∈ tools, '\n' ∉ tool) :
    '\n' ∉ writtenTools tools := by
  refine not_mem_listed fun piece member => ?_
  obtain ⟨tool, listed, rfl⟩ := List.mem_map.mp member
  simpa [quotedTool] using unbroken tool listed

/-- All lines of the header stand between the delimiters. -/
theorem OneLine.isInner (oneLine : parts.OneLine) : ∀ line ∈ parts.headerLines, IsInner line := by
  intro line member
  obtain ⟨listed, -⟩ := List.mem_filter.mp member
  simp only [List.mem_cons, List.not_mem_nil, or_false] at listed
  rcases listed with rfl | rfl | rfl | rfl | rfl
  · have key : IsInner "name: ".toList := by decide
    exact key.append (by decide) oneLine.command
  · exact isInner_quotedLine (by decide) oneLine.description
  · split
    · decide
    · exact isInner_quotedLine (by decide) oneLine.argumentHint
  · cases parts.declared with
    | none => exact (by decide : IsInner [])
    | some names =>
      have key : IsInner "tools".toList := by decide
      rw [toolsLine_some]
      exact key.append (by decide) (by simpa using not_mem_writtenTools oneLine.tools)
  · decide

theorem trim_bracketed (inner : Text) : Text.trim ('[' :: inner ++ [']']) = '[' :: inner ++ [']'] :=
  Text.trimOf_between (by decide) (by decide) inner

private theorem field?_toolsLine (names tools : List Text) :
    Header.field? (Header.withoutReturns (toolsLine (some names) tools)) =
      some ("tools".toList, '[' :: writtenTools tools ++ [']']) := by
  have last : (' ' :: '[' :: (writtenTools tools ++ [']'])) = (' ' :: '[' :: writtenTools tools) ++ [']'] := rfl
  have kept : Header.withoutReturns ((' ' :: '[' :: writtenTools tools) ++ [']']) =
      (' ' :: '[' :: writtenTools tools) ++ [']'] := Text.dropEndWhile_concat (by decide) _
  have trimmed : Text.trim (' ' :: '[' :: writtenTools tools ++ [']']) = '[' :: writtenTools tools ++ [']'] :=
    trim_bracketed (writtenTools tools)
  rw [toolsLine_some, Header.field?_line (by decide) (by decide), last, kept, trimmed]
  rfl

theorem inlineItems_between (inner : Text) : ToolDeclaration.inlineItems ('[' :: inner ++ [']']) = commaItems inner := by
  rw [ToolDeclaration.inlineItems, trim_bracketed]
  simp [commaItems]

private theorem field?_quotedLine {key : Text} (named : key ≠ []) (allowed : ∀ c ∈ key, Header.isKeyCharacter c = true)
    (value : Text) : Header.field? (Header.withoutReturns (quotedLine key value)) = some (key, escaped value) := by
  have written : quotedLine key value = key ++ ':' :: ((' ' :: '"' :: escaped value) ++ ['"']) := by
    rw [quotedLine, List.append_assoc, List.append_assoc]
    rfl
  have kept : Header.withoutReturns ((' ' :: '"' :: escaped value) ++ ['"']) = (' ' :: '"' :: escaped value) ++ ['"'] :=
    Text.dropEndWhile_concat (by decide) _
  have whole : Text.trim ('"' :: escaped value ++ ['"']) = '"' :: escaped value ++ ['"'] :=
    Text.trimOf_between (by decide) (by decide) (escaped value)
  have trimmed : Text.trim ((' ' :: '"' :: escaped value) ++ ['"']) = '"' :: escaped value ++ ['"'] := whole
  have inner : Header.unquote ('"' :: escaped value ++ ['"']) = escaped value := by
    simp [Header.unquote]
  rw [written, Header.field?_line named allowed, kept, trimmed, inner]

/-- The keys in the header of an artifact, with or without an argument hint and tools. -/
def writtenKeys (hinted declared : Bool) : List Text :=
  ["name".toList, "description".toList] ++ (if hinted then ["argument-hint".toList] else []) ++
    (if declared then ["tools".toList] else []) ++ ["agent".toList]

/-- The fields in the header of an artifact. -/
def writtenFields (parts : Parts) : List (Text × Text) :=
  [("name".toList, Header.unquote (Text.trim (Header.withoutReturns (' ' :: parts.command)))),
   ("description".toList, escaped parts.description)] ++
    (if parts.argumentHint ≠ [] then [("argument-hint".toList, escaped parts.argumentHint)] else []) ++
    (if parts.declared.isSome then [("tools".toList, '[' :: writtenTools parts.tools ++ [']'])] else []) ++
    [("agent".toList, "agent".toList)]

private theorem map_fst_writtenFields (parts : Parts) :
    parts.writtenFields.map Prod.fst = writtenKeys (parts.argumentHint ≠ []) parts.declared.isSome := by
  simp only [writtenFields, writtenKeys, List.map_append, apply_ite (List.map Prod.fst), List.map_cons, List.map_nil,
    decide_eq_true_eq]

private theorem nodup_writtenKeys (hinted declared : Bool) : (writtenKeys hinted declared).Nodup := by
  cases hinted <;> cases declared <;> decide

/-- The header lines of an artifact stand for its fields. -/
theorem filterMap_headerLines (parts : Parts) :
    (parts.headerLines.map Header.withoutReturns).filterMap Header.field? = parts.writtenFields := by
  have name : Header.field? (Header.withoutReturns ("name: ".toList ++ parts.command)) =
      some ("name".toList, Header.unquote (Text.trim (Header.withoutReturns (' ' :: parts.command)))) :=
    Header.field?_line (by decide : "name".toList ≠ []) (by decide) (' ' :: parts.command)
  have description := field?_quotedLine (by decide : "description".toList ≠ []) (by decide) parts.description
  have argumentHint := field?_quotedLine (by decide : "argument-hint".toList ≠ []) (by decide) parts.argumentHint
  have routing : Header.field? (Header.withoutReturns routingLine) = some ("agent".toList, "agent".toList) := by decide
  have empty : Header.field? (Header.withoutReturns []) = none := by decide
  have hint : (Header.field? (Header.withoutReturns
      (if parts.argumentHint = [] then [] else quotedLine "argument-hint".toList parts.argumentHint))).toList =
        if parts.argumentHint ≠ [] then [("argument-hint".toList, escaped parts.argumentHint)] else [] := by
    by_cases unhinted : parts.argumentHint = []
    · rw [if_pos unhinted, if_neg (by simpa using unhinted), empty, Option.toList_none]
    · rw [if_neg unhinted, if_pos unhinted, argumentHint, Option.toList_some]
  have tools : (Header.field? (Header.withoutReturns (toolsLine parts.declared parts.tools))).toList =
      if parts.declared.isSome then [("tools".toList, '[' :: writtenTools parts.tools ++ [']'])] else [] := by
    cases parts.declared with
    | none => exact congrArg Option.toList empty
    | some names => exact congrArg Option.toList (field?_toolsLine names parts.tools)
  rw [headerLines, Header.filterMap_field?_filter, writtenFields, ← hint, ← tools]
  simp only [List.map_cons, List.map_nil, List.filterMap_cons_some name, List.filterMap_cons_some description,
    List.filterMap_eq_flatMap_toList, List.flatMap_cons, routing, List.flatMap_nil, Option.toList_some, List.append_assoc,
    List.cons_append, List.nil_append]

/-- The fields of an artifact are read as they are written. -/
theorem entries_render (oneLine : parts.OneLine) : (Header.parts parts.render).fields.entries = parts.writtenFields := by
  obtain ⟨tail, shape⟩ := parts.render_begins
  have split := Header.split?_written (fun line member => (oneLine.isInner line member).1)
    (fun line member => (oneLine.isInner line member).2) ('\n' :: (declaredComment parts.declared ++ tail))
  have fields : (Header.parts parts.render).fields = .ofList parts.writtenFields := by
    rw [Header.parts, shape, header, split]
    exact congrArg OrderedMap.ofList parts.filterMap_headerLines
  have distinct := nodup_writtenKeys (parts.argumentHint ≠ []) parts.declared.isSome
  rw [← map_fst_writtenFields] at distinct
  rw [fields, OrderedMap.ofList_entries distinct]

theorem keys_render (oneLine : parts.OneLine) :
    (Header.parts parts.render).fields.keys = writtenKeys (parts.argumentHint ≠ []) parts.declared.isSome := by
  rw [OrderedMap.keys, entries_render oneLine, map_fst_writtenFields]

theorem get?_render (oneLine : parts.OneLine) {key value : Text} (written : (key, value) ∈ parts.writtenFields) :
    (Header.parts parts.render).fields.get? key = some value :=
  OrderedMap.get?_of_mem (entries_render oneLine ▸ written)

/-- The tools of an artifact are read from what is written between the brackets of the field. -/
theorem tools?_render (oneLine : parts.OneLine) {names : List Text} (declared : parts.declared = some names) :
    tools? parts.render = some (readTools (writtenTools parts.tools)) := by
  have written : ("tools".toList, '[' :: writtenTools parts.tools ++ [']']) ∈ parts.writtenFields := by
    rw [writtenFields, declared, Option.isSome_some, if_pos rfl, List.append_assoc, List.singleton_append]
    exact List.mem_append_right _ List.mem_cons_self
  rw [tools?, get?_render oneLine written, Option.map_some, inlineItems_between]
  rfl

/-- The header of an artifact without declared tools has no tools field. -/
theorem tools?_render_none (oneLine : parts.OneLine) (declared : parts.declared = none) : tools? parts.render = none := by
  have absent (hinted : Bool) : "tools".toList ∉ writtenKeys hinted false := by cases hinted <;> decide
  rw [tools?, Option.map_eq_none_iff, OrderedMap.get?_eq_none_iff, keys_render oneLine, declared]
  exact absent _

/-! ## The mapped tools as they are found -/

/-- No tool that is found in an artifact holds a line feed. -/
theorem not_mem_tools? {content : Text} {tools : List Text} (found : tools? content = some tools) :
    ∀ tool ∈ tools, '\n' ∉ tool := by
  obtain ⟨value, field, rfl⟩ := Option.map_eq_some_iff.mp found
  intro tool member feed
  obtain ⟨item, listed, rfl⟩ := List.mem_map.mp member
  have inItem := (Text.trimOf_sublist isQuote item).subset feed
  exact Header.not_mem_field field (ToolDeclaration.mem_of_mem_inlineItems listed inItem)

theorem tools?_restore (ending : LineEnding) (content : Text) : tools? (ending.restore content) = tools? content := by
  cases ending with
  | lf => rfl
  | crlf => rw [tools?, tools?, Header.parts_restore]

/-- The tools that an audit finds in an artifact, in increasing order. -/
def foundTools (content : Text) : List Text := Text.sorted ((tools? content).getD [])

/-- The tools of an artifact are found as they are exactly if each of them can be read back. -/
theorem foundTools_eq_iff {names : List Text} (declared : parts.declared = some names)
    (oneLine : (∀ tool ∈ parts.tools, '\n' ∉ tool) → parts.OneLine) (increasing : Text.sorted parts.tools = parts.tools) :
    foundTools parts.render = parts.tools ↔ ∀ tool ∈ parts.tools, Readable tool := by
  by_cases noFeeds : ∀ tool ∈ parts.tools, '\n' ∉ tool
  · rw [foundTools, tools?_render (oneLine noFeeds) declared, Option.getD_some, sorted_readTools_iff increasing noFeeds]
  · refine iff_of_false (fun same => noFeeds fun tool member => ?_) fun readable => noFeeds fun tool member =>
      (readable tool member).noFeed
    rw [← same, foundTools, (Text.sorted_perm _).mem_iff] at member
    cases found : tools? parts.render with
    | none =>
      rw [found] at member
      cases member
    | some tools =>
      rw [found] at member
      exact not_mem_tools? found tool member

end Artifact.Parts

end PromptCompiler
