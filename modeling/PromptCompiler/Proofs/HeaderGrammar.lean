import PromptCompiler.Proofs.DeclaredTools

/-! # The grammar of headers

A text has a header exactly if it is put together from a line of dashes, header lines that are no such lines, a
second line of dashes, and any rest; nothing of the text is lost between these parts (`split?_eq_some_iff`). The
fields say of each key what the last header line with this key says, in the order in which the keys first come,
and tools are declared exactly if one of the two declaring keys is among them.
-/

namespace PromptCompiler

namespace Text

/-- What is left of a text begins with a character that is kept. -/
theorem head?_dropWhile (dropped : Char → Bool) (text : Text) : (text.dropWhile dropped).head?.any dropped = false := by
  have stops := List.head?_dropWhile_not dropped text
  cases first : (text.dropWhile dropped).head? with
  | none => rfl
  | some c =>
    rw [first] at stops
    simpa using stops

/-- What is left of a text ends with a character that is kept, and only dropped characters follow it. -/
theorem dropEndWhile_eq_iff {dropped : Char → Bool} {text kept : Text} :
    dropEndWhile dropped text = kept ↔
      ∃ removed, text = kept ++ removed ∧ (∀ c ∈ removed, dropped c = true) ∧ kept.getLast?.any dropped = false := by
  constructor
  · rintro rfl
    refine ⟨(text.reverse.takeWhile dropped).reverse, ?_, fun c member => ?_, ?_⟩
    · rw [dropEndWhile, ← List.reverse_append, List.takeWhile_append_dropWhile, List.reverse_reverse]
    · exact List.mem_takeWhile_imp (List.mem_reverse.mp member)
    · rw [dropEndWhile, List.getLast?_reverse]
      exact head?_dropWhile dropped text.reverse
  · rintro ⟨removed, rfl, all, stops⟩
    have starts : kept.reverse.dropWhile dropped = kept.reverse := by
      rw [← List.head?_reverse] at stops
      cases reversed : kept.reverse with
      | nil => rfl
      | cons c rest =>
        rw [reversed] at stops
        exact List.dropWhile_cons_of_neg (by simpa using stops)
    rw [dropEndWhile, List.reverse_append, List.dropWhile_append_of_pos fun c member => all c (List.mem_reverse.mp member),
      starts, List.reverse_reverse]

/-- Lines before others are set down each with a line feed. -/
theorem joinLines_append_cons (pieces : List Text) (line : Text) (rest : List Text) :
    joinLines (pieces ++ line :: rest) = pieces.flatMap (· ++ ['\n']) ++ joinLines (line :: rest) := by
  induction pieces with
  | nil => rfl
  | cons piece pieces ih =>
    have later : pieces ++ line :: rest ≠ [] := List.append_ne_nil_of_right_ne_nil _ (List.cons_ne_nil _ _)
    have split : joinLines ([piece] ++ (pieces ++ line :: rest)) = _ := joinLines_append (List.cons_ne_nil _ _) later
    rw [List.singleton_append, joinLines_singleton, ih] at split
    rw [List.cons_append, split, List.flatMap_cons]
    simp

end Text

namespace Header

/-! ## Delimiters -/

/-- A line of three dashes that only spaces, tabs and carriage returns follow. -/
def Delimits (line : Text) : Prop :=
  ∃ trailing, line = '-' :: '-' :: '-' :: trailing ∧ ∀ c ∈ trailing, c = ' ' ∨ c = '\t' ∨ c = '\r'

theorem isDelimiter_iff {line : Text} : isDelimiter line = true ↔ Delimits line := by
  have kept : (['-', '-', '-'] : Text).getLast?.any isTrailing = false := by decide
  simp only [isDelimiter, beq_iff_eq, Text.dropEndWhile_eq_iff, kept, and_true, Delimits, isTrailing, Bool.or_eq_true,
    or_assoc, List.cons_append, List.nil_append]

theorem Delimits.unbroken {line : Text} (delimits : Delimits line) : '\n' ∉ line := by
  obtain ⟨trailing, rfl, blank⟩ := delimits
  intro feed
  have inside : '\n' ∈ trailing := by simpa using feed
  exact absurd (blank _ inside) (by decide)

private theorem delimits_of_dropWhile {lines after : List Text} {line : Text}
    (closed : lines.dropWhile (!isDelimiter ·) = line :: after) : Delimits line := by
  have stops := List.head?_dropWhile_not (!isDelimiter ·) lines
  rw [closed] at stops
  exact isDelimiter_iff.mp (by simpa using stops)

/-- A text has a header exactly if its first line and some later line delimit one. -/
theorem split?_isSome_iff {text : Text} :
    (split? text).isSome ↔
      ∃ first later, Text.lines text = first :: later ∧ Delimits first ∧ ∃ line ∈ later, Delimits line := by
  obtain ⟨first, later, pieces⟩ := List.exists_cons_of_ne_nil (Text.lines_ne_nil text)
  have found : (split? text).isSome ↔ Delimits first ∧ ∃ line ∈ later, Delimits line := by
    rw [split?_of_lines pieces, ← isDelimiter_iff]
    by_cases opens : isDelimiter first = true
    · rw [if_pos opens]
      cases closed : later.dropWhile (!isDelimiter ·) with
      | nil =>
        have open' : ∀ line ∈ later, ¬ Delimits line := by
          simpa [← isDelimiter_iff] using List.dropWhile_eq_nil_iff.mp closed
        exact iff_of_false Bool.false_ne_true fun ⟨_, line, member, delimits⟩ => open' line member delimits
      | cons line after =>
        have member : line ∈ later := (List.dropWhile_sublist _).subset (closed ▸ List.mem_cons_self)
        exact iff_of_true rfl ⟨opens, line, member, delimits_of_dropWhile closed⟩
    · rw [if_neg opens]
      exact iff_of_false Bool.false_ne_true fun delimited => opens delimited.1
  rw [found, pieces]
  constructor
  · rintro ⟨opens, closes⟩
    exact ⟨first, later, rfl, opens, closes⟩
  · rintro ⟨_, _, same, opens, closes⟩
    obtain ⟨rfl, rfl⟩ := List.cons.inj same
    exact ⟨opens, closes⟩

/-! ## Headers in their texts -/

/-- A text that begins with a header, in its parts. -/
structure Frame where
  opening : Text
  /-- The header lines, each with the carriage returns at its end. -/
  inner : List (Text × Text)
  closing : Text
  /-- The line feed after it, if there is one. -/
  feed : Text
  rest : Text
  opens : Delimits opening
  closes : Delimits closing
  undelimited : ∀ line ∈ inner, ¬ Delimits (line.1 ++ line.2)
  unbroken : ∀ line ∈ inner, '\n' ∉ line.1
  returns : ∀ line ∈ inner, line.1.getLast? ≠ some '\r' ∧ ∀ c ∈ line.2, c = '\r'
  /-- Without a line feed after it the header ends the text. -/
  ended : feed = ['\n'] ∨ feed = [] ∧ rest = []

namespace Frame

/-- The parts put together, with the line feeds between them. -/
def text (frame : Frame) : Text :=
  frame.opening ++ '\n' :: (frame.inner.flatMap (fun line => line.1 ++ line.2 ++ ['\n']) ++
    (frame.closing ++ frame.feed ++ frame.rest))

def lines (frame : Frame) : List Text := frame.inner.map Prod.fst

/-- The lines after the header; there is none if no line feed comes after it. -/
def after (frame : Frame) : List Text := if frame.feed = [] then [] else Text.lines frame.rest

private theorem joinLines_after (frame : Frame) :
    Text.joinLines (frame.closing :: frame.after) = frame.closing ++ frame.feed ++ frame.rest ∧
      Text.joinLines frame.after = frame.rest := by
  rcases frame.ended with feed | ⟨feed, rest⟩
  · have after : frame.after = Text.lines frame.rest := by rw [Frame.after, feed, if_neg (List.cons_ne_nil _ _)]
    have split : Text.joinLines ([frame.closing] ++ Text.lines frame.rest) = _ :=
      Text.joinLines_append (List.cons_ne_nil _ _) (Text.lines_ne_nil _)
    rw [List.singleton_append, Text.joinLines_singleton, Text.joinLines_lines] at split
    rw [after, feed, split, Text.joinLines_lines]
    simp
  · have after : frame.after = [] := by rw [Frame.after, feed, if_pos rfl]
    rw [after, feed, rest, Text.joinLines_singleton]
    simp [Text.joinLines]

theorem text_eq (frame : Frame) :
    frame.text = Text.joinLines (frame.opening ::
      (frame.inner.map (fun line => line.1 ++ line.2) ++ frame.closing :: frame.after)) := by
  have later : frame.inner.map (fun line => line.1 ++ line.2) ++ frame.closing :: frame.after ≠ [] :=
    List.append_ne_nil_of_right_ne_nil _ (List.cons_ne_nil _ _)
  have split : Text.joinLines ([frame.opening] ++
      (frame.inner.map (fun line => line.1 ++ line.2) ++ frame.closing :: frame.after)) = _ :=
    Text.joinLines_append (List.cons_ne_nil _ _) later
  rw [List.singleton_append, Text.joinLines_singleton, Text.joinLines_append_cons, frame.joinLines_after.1,
    List.flatMap_map] at split
  exact split.symm

/-- The header is taken out of its text as it was put in. -/
theorem split?_text (frame : Frame) : split? frame.text = some (frame.lines, frame.rest) := by
  have inner : ∀ line ∈ frame.inner.map (fun line => line.1 ++ line.2), isDelimiter line = false := by
    intro line member
    obtain ⟨parts, listed, rfl⟩ := List.mem_map.mp member
    exact Bool.eq_false_iff.mpr fun delimits => frame.undelimited parts listed (isDelimiter_iff.mp delimits)
  have unbroken : ∀ line ∈ frame.opening ::
      (frame.inner.map (fun line => line.1 ++ line.2) ++ frame.closing :: frame.after), '\n' ∉ line := by
    simp only [List.forall_mem_cons, List.forall_mem_append, List.forall_mem_map]
    refine ⟨frame.opens.unbroken, fun line member feed => ?_, frame.closes.unbroken, fun line member => ?_⟩
    · rcases List.mem_append.mp feed with here | last
      · exact frame.unbroken line member here
      · exact absurd ((frame.returns line member).2 _ last) (by decide)
    · rw [after] at member
      split at member
      · cases member
      · exact Text.not_mem_of_mem_lines member
  have kept : ∀ line ∈ frame.inner, withoutReturns (line.1 ++ line.2) = line.1 := by
    intro line member
    obtain ⟨last, returned⟩ := frame.returns line member
    refine Text.dropEndWhile_eq_iff.mpr ⟨line.2, rfl, fun c inside => beq_iff_eq.mpr (returned c inside), ?_⟩
    cases ends : line.1.getLast? with
    | none => rfl
    | some c =>
      rw [ends] at last
      simpa using last
  rw [text_eq, split?_joinLines (isDelimiter_iff.mpr frame.opens) (isDelimiter_iff.mpr frame.closes) inner unbroken,
    frame.joinLines_after.2, List.map_map, lines]
  exact congrArg (fun lines => some (lines, frame.rest)) (List.map_congr_left kept)

end Frame

/-- The carriage returns at the end of a line. -/
def endReturns (line : Text) : Text := line.drop (withoutReturns line).length

private theorem withoutReturns_append_endReturns (line : Text) : withoutReturns line ++ endReturns line = line :=
  List.prefix_iff_eq_append.mp (Text.isPrefix_dropEndWhile _ line)

private theorem eq_of_mem_endReturns {line : Text} {c : Char} (member : c ∈ endReturns line) : c = '\r' := by
  obtain ⟨removed, whole, returns, -⟩ := Text.dropEndWhile_eq_iff.mp (rfl : withoutReturns line = withoutReturns line)
  have same : endReturns line = removed := List.append_cancel_left ((withoutReturns_append_endReturns line).trans whole)
  exact beq_iff_eq.mp (returns c (same ▸ member))

private theorem getLast?_withoutReturns (line : Text) : (withoutReturns line).getLast? ≠ some '\r' := by
  obtain ⟨_, -, -, kept⟩ := Text.dropEndWhile_eq_iff.mp (rfl : withoutReturns line = withoutReturns line)
  intro last
  rw [last] at kept
  cases kept

/-- The parts of a text of which the lines are known. -/
def Frame.ofLines {opening closing : Text} {inner : List Text} (after : List Text) (opens : Delimits opening)
    (closes : Delimits closing) (undelimited : ∀ line ∈ inner, ¬ Delimits line)
    (unbroken : ∀ line ∈ inner, '\n' ∉ line) : Frame where
  opening := opening
  inner := inner.map fun line => (withoutReturns line, endReturns line)
  closing := closing
  feed := if after = [] then [] else ['\n']
  rest := Text.joinLines after
  opens := opens
  closes := closes
  undelimited := by simpa [withoutReturns_append_endReturns] using undelimited
  unbroken := by
    simp only [List.forall_mem_map]
    exact fun line member feed => unbroken line member ((Text.isPrefix_dropEndWhile _ line).subset feed)
  returns := by
    simp only [List.forall_mem_map]
    exact fun line _ => ⟨getLast?_withoutReturns line, fun _ => eq_of_mem_endReturns⟩
  ended := by
    by_cases empty : after = []
    · exact .inr ⟨if_pos empty, empty ▸ rfl⟩
    · exact .inl (if_neg empty)

private theorem Frame.text_ofLines {opening closing : Text} {inner after : List Text} (opens : Delimits opening)
    (closes : Delimits closing) (undelimited : ∀ line ∈ inner, ¬ Delimits line) (unbroken : ∀ line ∈ inner, '\n' ∉ line)
    (unbroken' : ∀ line ∈ after, '\n' ∉ line) :
    (ofLines after opens closes undelimited unbroken).text = Text.joinLines (opening :: (inner ++ closing :: after)) := by
  have later : (ofLines after opens closes undelimited unbroken).after = after := by
    by_cases empty : after = []
    · have unfed : (ofLines after opens closes undelimited unbroken).feed = [] := if_pos empty
      rw [Frame.after, if_pos unfed, empty]
    · have fed : (ofLines after opens closes undelimited unbroken).feed ≠ [] := by simp [ofLines, empty]
      rw [Frame.after, if_neg fed]
      exact List.splitOn_intercalate '\n' unbroken' empty
  have put : (ofLines after opens closes undelimited unbroken).inner.map (fun line => line.1 ++ line.2) = inner := by
    rw [ofLines, List.map_map]
    exact (List.map_congr_left fun line _ => withoutReturns_append_endReturns line).trans (List.map_id inner)
  rw [text_eq, later, put]
  rfl

/-- A text that is split stands in parts around its header. -/
theorem exists_frame {text rest : Text} {lines : List Text} (header : split? text = some (lines, rest)) :
    ∃ frame : Frame, frame.text = text ∧ frame.lines = lines ∧ frame.rest = rest := by
  obtain ⟨first, later, pieces⟩ := List.exists_cons_of_ne_nil (Text.lines_ne_nil text)
  rw [split?_of_lines pieces] at header
  split at header
  · rename_i opens
    split at header
    · cases header
    · rename_i closing after closed
      obtain ⟨rfl, rfl⟩ := Prod.mk.inj (Option.some.inj header)
      have whole : later.takeWhile (!isDelimiter ·) ++ closing :: after = later := by
        rw [← closed, List.takeWhile_append_dropWhile]
      have unbroken : ∀ line ∈ later.takeWhile (!isDelimiter ·) ++ closing :: after, '\n' ∉ line := fun line member =>
        Text.not_mem_of_mem_lines (pieces ▸ List.mem_cons_of_mem first (whole ▸ member))
      obtain ⟨inner, rest⟩ := List.forall_mem_append.mp unbroken
      have undelimited : ∀ line ∈ later.takeWhile (!isDelimiter ·), ¬ Delimits line := by
        intro line member
        rw [← isDelimiter_iff]
        simpa using List.mem_takeWhile_imp member
      refine ⟨.ofLines after (isDelimiter_iff.mp opens) (delimits_of_dropWhile closed) undelimited inner, ?_, ?_, rfl⟩
      · rw [Frame.text_ofLines _ _ _ _ fun line member => rest line (List.mem_cons_of_mem closing member), whole, ← pieces,
          Text.joinLines_lines]
      · rw [Frame.lines, Frame.ofLines, List.map_map]
        rfl
  · cases header

/-- A text with a header is put together from the header and what comes after it, and nothing else. -/
theorem split?_eq_some_iff {text rest : Text} {lines : List Text} :
    split? text = some (lines, rest) ↔
      ∃ frame : Frame, frame.text = text ∧ frame.lines = lines ∧ frame.rest = rest := by
  refine ⟨exists_frame, ?_⟩
  rintro ⟨frame, rfl, rfl, rfl⟩
  exact frame.split?_text

/-! ## Fields of header lines -/

/-- A line of the form key, colon, value; only blanks may stand between the key and the colon. -/
def IsField (line key value : Text) : Prop :=
  key ≠ [] ∧ (∀ c ∈ key, isKeyCharacter c = true) ∧
    ∃ gap, (∀ c ∈ gap, Text.isBlank c = true) ∧ line = key ++ (gap ++ ':' :: value)

/-- A text and what it is without one pair of equal quotes around it, if it has one. -/
inductive Unquotes : Text → Text → Prop
  | quoted {quote : Char} (isQuote : quote = '\'' ∨ quote = '"') (inner : Text) :
      Unquotes (quote :: inner ++ [quote]) inner
  | bare {text : Text}
      (unquoted : ∀ quote inner, quote = '\'' ∨ quote = '"' → text ≠ quote :: inner ++ [quote]) : Unquotes text text

theorem unquotes_iff {text value : Text} : Unquotes text value ↔ unquote text = value := by
  constructor
  · intro unquotes
    cases unquotes with
    | @quoted quote isQuote =>
      have quoted : ((quote == '\'' || quote == '"') && (value ++ [quote]).getLast? == some quote) = true := by
        simpa using isQuote
      rw [List.cons_append, unquote, if_pos quoted, List.dropLast_concat]
    | bare unquoted =>
      cases text with
      | nil => rfl
      | cons quote rest =>
        refine if_neg fun quoted => ?_
        simp only [Bool.and_eq_true, Bool.or_eq_true, beq_iff_eq] at quoted
        obtain ⟨inner, rfl⟩ := List.getLast?_eq_some_iff.mp quoted.2
        exact unquoted quote inner quoted.1 rfl
  · rintro rfl
    cases text with
    | nil => exact .bare fun quote inner _ => by simp
    | cons quote rest =>
      rw [unquote]
      split
      · rename_i quoted
        simp only [Bool.and_eq_true, Bool.or_eq_true, beq_iff_eq] at quoted
        obtain ⟨inner, rfl⟩ := List.getLast?_eq_some_iff.mp quoted.2
        rw [List.dropLast_concat]
        exact .quoted quoted.1 inner
      · rename_i unquoted
        refine .bare fun other inner isQuote same => unquoted ?_
        obtain ⟨rfl, rfl⟩ := List.cons.inj same
        simpa using isQuote

theorem field?_eq_some_iff {line key value : Text} :
    field? line = some (key, value) ↔ ∃ raw, IsField line key raw ∧ Unquotes (Text.trim raw) value := by
  simp only [field?, Option.map_eq_some_iff, Prod.exists, Prod.mk.injEq, keyed?_eq_some_iff, unquotes_iff]
  constructor
  · rintro ⟨key, raw, found, rfl, rfl⟩
    exact ⟨raw, found, rfl⟩
  · rintro ⟨raw, found, rfl⟩
    exact ⟨key, raw, found, rfl, rfl⟩

/-- What the fields of header lines are. -/
structure Reads (lines : List Text) (fields : OrderedMap Text) : Prop where
  /-- The keys are those of the lines, in the order of their first occurrence. -/
  keys : fields.keys = Text.distinct ((lines.filterMap keyed?).map Prod.fst)
  /-- The value of a key is what its last line says, trimmed and without one pair of quotes. -/
  values (key value : Text) : fields.get? key = some value ↔
    ∃ before line after raw, lines = before ++ line :: after ∧ IsField line key raw ∧
      Unquotes (Text.trim raw) value ∧ ∀ other ∈ after, ∀ raw', ¬ IsField other key raw'

private theorem reads_ofList (lines : List Text) : Reads lines (.ofList (lines.filterMap field?)) where
  keys := by
    rw [OrderedMap.keys_ofList, List.map_filterMap, List.map_filterMap]
    simp only [field?, Option.map_map, Function.comp_def]
  values key value := by
    rw [OrderedMap.get?_ofList_eq_some_iff]
    constructor
    · rintro ⟨front, back, entries, last⟩
      obtain ⟨before, later, rfl, -, found⟩ := List.filterMap_eq_append_iff.mp entries
      obtain ⟨between, line, after, rfl, -, field, rest⟩ := List.filterMap_eq_cons_iff.mp found
      obtain ⟨raw, isField, unquoted⟩ := field?_eq_some_iff.mp field
      refine ⟨before ++ between, line, after, raw, by simp, isField, unquoted, fun other member raw' again => ?_⟩
      have field' : field? other = some (key, unquote (Text.trim raw')) :=
        field?_eq_some_iff.mpr ⟨raw', again, unquotes_iff.mpr rfl⟩
      exact last _ (rest ▸ List.mem_filterMap.mpr ⟨other, member, field'⟩) rfl
    · rintro ⟨before, line, after, raw, rfl, isField, unquoted, last⟩
      have field : field? line = some (key, value) := field?_eq_some_iff.mpr ⟨raw, isField, unquoted⟩
      refine ⟨before.filterMap field?, after.filterMap field?, ?_, fun entry member same => ?_⟩
      · rw [List.filterMap_append, List.filterMap_cons_some field]
      · obtain ⟨other, listed, field'⟩ := List.mem_filterMap.mp member
        obtain ⟨raw', again, -⟩ := field?_eq_some_iff.mp (same ▸ field' : field? other = some (key, entry.2))
        exact last other listed raw' again

/-- A text is split exactly if its first line and some later line delimit a header; the header and what comes after
it are then what stands between and after the first two such lines, and with these lines, the carriage returns at
the ends of the others and the line feeds they are the whole text. A text that is not split has no fields and
stays whole. The fields have the keys of the header lines in the order of their first occurrence, each with what
its last line says, and tools are declared exactly under two of the keys. -/
theorem splits_and_reads (text : Text) :
    ((split? text).isSome ↔
      ∃ first later, Text.lines text = first :: later ∧ Delimits first ∧ ∃ line ∈ later, Delimits line) ∧
    (∀ lines rest, split? text = some (lines, rest) ↔
      ∃ frame : Frame, frame.text = text ∧ frame.lines = lines ∧ frame.rest = rest) ∧
    (match split? text with
      | none => parts text = ⟨.empty, text⟩
      | some (lines, rest) => (parts text).body = Text.trimStart rest ∧ Reads lines (parts text).fields) ∧
    ((ToolDeclaration.ofText text).names = none ↔
      "allowed-tools".toList ∉ (parts text).fields.keys ∧ "tools".toList ∉ (parts text).fields.keys) ∧
    ((ToolDeclaration.ofText text).lowered = none ↔ (ToolDeclaration.ofText text).names = none) := by
  refine ⟨split?_isSome_iff, fun lines rest => split?_eq_some_iff, ?_, ?_, Option.map_eq_none_iff⟩
  · rw [parts]
    cases split? text with
    | none => rfl
    | some header => exact ⟨rfl, reads_ofList header.1⟩
  · rw [← Option.not_isSome_iff_eq_none, ToolDeclaration.names_isSome_iff]
    simp [ToolDeclaration.keys]

end Header

end PromptCompiler
