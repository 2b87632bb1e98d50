import Mathlib.Data.List.Induction
import Mathlib.Data.List.TakeWhile
import PromptCompiler.Proofs.LineEndings
import PromptCompiler.Proofs.OrderedMaps

/-! # Fields of headers

A field is a part of a header line, and so no field holds a line feed. A header that is written line by
line, without a delimiter among the lines, is split into these lines again, and a field that no later line
replaces is read.
-/

namespace PromptCompiler

namespace Text

/-! ## Trimming -/

theorem isPrefix_dropEndWhile (dropped : Char → Bool) (text : Text) : dropEndWhile dropped text <+: text := by
  have suffix := List.dropWhile_suffix (l := text.reverse) dropped
  rw [← List.reverse_prefix, List.reverse_reverse] at suffix
  exact suffix

theorem trimOf_sublist (dropped : Char → Bool) (text : Text) : (trimOf dropped text).Sublist text :=
  (isPrefix_dropEndWhile dropped _).sublist.trans (List.dropWhile_sublist dropped)

theorem trim_sublist (text : Text) : (trim text).Sublist text := trimOf_sublist isBlank text

/-- Trimming stops at a character that is kept. -/
theorem dropEndWhile_concat {dropped : Char → Bool} {c : Char} (kept : dropped c = false) (text : Text) :
    dropEndWhile dropped (text ++ [c]) = text ++ [c] := by
  simp [dropEndWhile, kept]

theorem dropEndWhile_append_cons {dropped : Char → Bool} {c : Char} (kept : dropped c = false) (text rest : Text) :
    dropEndWhile dropped (text ++ c :: rest) = text ++ c :: dropEndWhile dropped rest := by
  rw [dropEndWhile, dropEndWhile, List.reverse_append, List.reverse_cons, List.append_assoc, List.dropWhile_append]
  split
  · rename_i gone
    rw [List.isEmpty_iff.mp gone, List.singleton_append, List.dropWhile_cons_of_neg (by simp [kept])]
    simp
  · simp

/-- A text between two characters that are kept stays as it is. -/
theorem trimOf_between {dropped : Char → Bool} {first last : Char} (kept : dropped first = false)
    (kept' : dropped last = false) (inner : Text) :
    trimOf dropped (first :: inner ++ [last]) = first :: inner ++ [last] := by
  have starts : (first :: inner ++ [last]).dropWhile dropped = first :: inner ++ [last] :=
    List.dropWhile_cons_of_neg (by simp [kept])
  rw [trimOf, starts, dropEndWhile_concat kept']

/-- A text stays as it is if the characters at its ends are kept. -/
theorem trimOf_eq_self {dropped : Char → Bool} {text : Text} (first : text.head?.any dropped = false)
    (last : text.getLast?.any dropped = false) : trimOf dropped text = text := by
  cases text with
  | nil => rfl
  | cons c rest =>
    have kept : dropped c = false := first
    have starts : (c :: rest).dropWhile dropped = c :: rest := List.dropWhile_cons_of_neg (by simp [kept])
    rw [trimOf, starts]
    obtain ⟨before, d, whole⟩ := (List.eq_nil_or_concat (c :: rest)).resolve_left (List.cons_ne_nil c rest)
    rw [whole, List.concat_eq_append] at last ⊢
    exact dropEndWhile_concat (by simpa using last) before

theorem mem_trimOf {dropped : Char → Bool} {c : Char} {text : Text} (member : c ∈ text) (kept : dropped c = false) :
    c ∈ trimOf dropped text := by
  have stays {rest : Text} (member : c ∈ rest) : c ∈ rest.dropWhile dropped := by
    rw [← List.takeWhile_append_dropWhile (p := dropped) (l := rest), List.mem_append] at member
    refine member.resolve_left fun dropped' => ?_
    rw [List.mem_takeWhile_imp dropped'] at kept
    cases kept
  exact List.mem_reverse.mpr (stays (List.mem_reverse.mpr (stays member)))

theorem trim_eq_nil_iff {text : Text} : trim text = [] ↔ ∀ c ∈ text, isBlank c = true := by
  constructor
  · intro blank c member
    by_contra solid
    exact List.ne_nil_of_mem (mem_trimOf member (Bool.eq_false_iff.mpr solid)) blank
  · intro blank
    rw [trim, trimStart, List.dropWhile_eq_nil_iff.mpr blank]
    rfl

theorem trim_eq_self_iff {text : Text} :
    trim text = text ↔ text.head?.any isBlank = false ∧ text.getLast?.any isBlank = false := by
  have kept (other : Text) : other.dropWhile isBlank = other ↔ other.head?.any isBlank = false := by
    cases other with
    | nil => simp
    | cons c rest => simp [List.dropWhile_eq_self_iff]
  constructor
  · intro trimmed
    have within : (trim text).Sublist (trimStart text) := (isPrefix_dropEndWhile isBlank _).sublist
    rw [trimmed] at within
    have start : trimStart text = text := (List.dropWhile_sublist isBlank).eq_of_length_le within.length_le
    have stop : text.reverse.dropWhile isBlank = text.reverse := by
      rw [trim, start, trimEnd, dropEndWhile, List.reverse_eq_iff] at trimmed
      exact trimmed
    refine ⟨(kept text).mp start, ?_⟩
    rw [← List.head?_reverse]
    exact (kept _).mp stop
  · rintro ⟨first, last⟩
    exact trimOf_eq_self first last

/-- The characters of a piece are characters of the text. -/
theorem mem_of_mem_splitOn {separator c : Char} {text piece : Text} (member : piece ∈ text.splitOn separator)
    (inside : c ∈ piece) : c ∈ text := by
  induction text generalizing piece with
  | nil =>
    obtain rfl := List.mem_singleton.mp (member : piece ∈ [[]])
    cases inside
  | cons d rest ih =>
    rw [List.splitOn_cons_eq_if_modifyHead] at member
    split at member
    · rcases List.mem_cons.mp member with rfl | later
      · cases inside
      · exact List.mem_cons_of_mem d (ih later inside)
    · obtain ⟨first, more, split⟩ := List.exists_cons_of_ne_nil (List.splitOn_ne_nil separator rest)
      rw [split] at member ih
      rcases List.mem_cons.mp member with rfl | later
      · rcases List.mem_cons.mp inside with rfl | inside
        · exact List.mem_cons_self
        · exact List.mem_cons_of_mem d (ih List.mem_cons_self inside)
      · exact List.mem_cons_of_mem d (ih (List.mem_cons_of_mem first later) inside)

/-- No piece between separators holds the separator. -/
theorem notMem_of_mem_splitOn {separator : Char} {text piece : Text} (member : piece ∈ text.splitOn separator) :
    separator ∉ piece := by
  induction text generalizing piece with
  | nil =>
    obtain rfl := List.mem_singleton.mp (member : piece ∈ [[]])
    exact List.not_mem_nil
  | cons c rest ih =>
    rw [List.splitOn_cons_eq_if_modifyHead] at member
    split at member
    · rcases List.mem_cons.mp member with rfl | later
      · exact List.not_mem_nil
      · exact ih later
    · rename_i other
      obtain ⟨first, more, split⟩ := List.exists_cons_of_ne_nil (List.splitOn_ne_nil separator rest)
      rw [split] at member ih
      rcases List.mem_cons.mp member with rfl | later
      · rw [List.mem_cons, not_or]
        exact ⟨fun same => other (beq_iff_eq.mpr same.symm), ih List.mem_cons_self⟩
      · exact ih (List.mem_cons_of_mem first later)

/-- The characters of joined pieces are those of the separator and of the pieces. -/
theorem mem_of_mem_intercalate {separator : Text} {pieces : List Text} {c : Char}
    (member : c ∈ separator.intercalate pieces) : c ∈ separator ∨ ∃ piece ∈ pieces, c ∈ piece := by
  induction pieces with
  | nil => cases member
  | cons piece rest ih =>
    cases rest with
    | nil =>
      rw [List.intercalate_singleton] at member
      exact .inr ⟨piece, List.mem_cons_self, member⟩
    | cons next more =>
      rw [List.intercalate_cons_cons, List.append_assoc, List.mem_append, List.mem_append] at member
      rcases member with here | between | later
      · exact .inr ⟨piece, List.mem_cons_self, here⟩
      · exact .inl between
      · exact (ih later).imp id fun ⟨found, listed, inside⟩ => ⟨found, List.mem_cons_of_mem piece listed, inside⟩

/-- Every character but the separator is in some piece. -/
theorem exists_mem_splitOn {separator c : Char} {text : Text} (member : c ∈ text) (other : c ≠ separator) :
    ∃ piece ∈ text.splitOn separator, c ∈ piece := by
  have joined : [separator].intercalate (text.splitOn separator) = text := List.intercalate_splitOn separator
  rw [← joined] at member
  exact (mem_of_mem_intercalate member).resolve_left fun between => other (List.mem_singleton.mp between)

theorem intercalate_begins (separator first : Text) (rest : List Text) :
    ∃ tail, separator.intercalate (first :: rest) = first ++ tail := by
  cases rest with
  | nil => exact ⟨[], by rw [List.intercalate_singleton, List.append_nil]⟩
  | cons next more => exact ⟨_, by rw [List.intercalate_cons_cons, List.append_assoc]⟩

theorem suffix_intercalate (separator last : Text) (pieces : List Text) :
    last <:+ separator.intercalate (pieces ++ [last]) := by
  induction pieces with
  | nil => exact ⟨[], List.intercalate_singleton.symm⟩
  | cons piece rest ih =>
    cases more : rest ++ [last] with
    | nil => cases rest <;> cases more
    | cons next later =>
      rw [more] at ih
      rw [List.cons_append, more, List.intercalate_cons_cons]
      exact ih.trans (List.suffix_append _ _)

/-- A piece is a fragment of the text that pieces give. -/
theorem infix_intercalate {separator piece : Text} {pieces : List Text} (member : piece ∈ pieces) :
    piece <:+: separator.intercalate pieces := by
  obtain ⟨before, after, rfl⟩ := List.append_of_mem member
  induction before with
  | nil =>
    obtain ⟨tail, begins⟩ := intercalate_begins separator piece after
    rw [List.nil_append, begins]
    exact (List.prefix_append piece tail).isInfix
  | cons first before ih =>
    obtain ⟨next, more, rest⟩ := List.exists_cons_of_ne_nil
      (show before ++ piece :: after ≠ [] from List.append_ne_nil_of_right_ne_nil _ (List.cons_ne_nil _ _))
    have later := ih (by simp)
    rw [rest] at later
    rw [List.cons_append, rest, List.intercalate_cons_cons]
    exact later.trans (List.suffix_append _ _).isInfix

end Text

namespace Header

/-! ## Lines with a key -/

theorem isKeyCharacter_eq_false {c : Char} (blank : Text.isBlank c = true) : isKeyCharacter c = false := by
  by_contra key
  have range : c.toNat = 0x2d ∨ c.toNat = 0x5f ∨ 0x30 ≤ c.toNat ∧ c.toNat ≤ 0x7a := by
    rw [Bool.not_eq_false, isKeyCharacter, Bool.or_eq_true, Bool.or_eq_true, beq_iff_eq, beq_iff_eq] at key
    rcases key with (alphanum | rfl) | rfl
    · exact .inr (.inr (Unicode.range_of_isAlphanum alphanum))
    · exact .inr (.inl rfl)
    · exact .inl rfl
  simp only [Text.isBlank, Bool.or_eq_true, Bool.and_eq_true, decide_eq_true_eq, beq_iff_eq] at blank
  omega

/-- A line has a key if the key begins it and only blanks stand before the colon. -/
theorem keyed?_eq_some_iff {line key rest : Text} :
    keyed? line = some (key, rest) ↔ key ≠ [] ∧ (∀ c ∈ key, isKeyCharacter c = true) ∧
      ∃ gap, (∀ c ∈ gap, Text.isBlank c = true) ∧ line = key ++ (gap ++ ':' :: rest) := by
  constructor
  · intro keyed
    rw [keyed?] at keyed
    split at keyed
    · rename_i rest' colon
      split at keyed
      · cases keyed
      · rename_i named
        obtain ⟨rfl, rfl⟩ := Prod.mk.inj (Option.some.inj keyed)
        refine ⟨List.isEmpty_eq_false_iff.mp (Bool.eq_false_iff.mpr named), fun c => List.mem_takeWhile_imp,
          (line.dropWhile isKeyCharacter).takeWhile Text.isBlank, fun c => List.mem_takeWhile_imp, ?_⟩
        rw [← colon, List.takeWhile_append_dropWhile, List.takeWhile_append_dropWhile]
    · cases keyed
  · rintro ⟨named, allowed, gap, blank, rfl⟩
    have solid : Text.isBlank ':' = false := by decide
    have stops : (gap ++ ':' :: rest).takeWhile isKeyCharacter = [] ∧
        (gap ++ ':' :: rest).dropWhile isKeyCharacter = gap ++ ':' :: rest := by
      cases gap with
      | nil => exact ⟨rfl, rfl⟩
      | cons c gap =>
        have other := isKeyCharacter_eq_false (blank c List.mem_cons_self)
        exact ⟨List.takeWhile_cons_of_neg (by simp [other]), List.dropWhile_cons_of_neg (by simp [other])⟩
    rw [keyed?, List.takeWhile_append_of_pos allowed, List.dropWhile_append_of_pos allowed, stops.1, stops.2,
      List.append_nil, List.dropWhile_append_of_pos blank, List.dropWhile_cons_of_neg (by simp [solid])]
    simp only [List.isEmpty_eq_false_iff.mpr named, Bool.false_eq_true, if_false]

/-! ## Fields without line feeds -/

theorem unquote_sublist (text : Text) : (unquote text).Sublist text := by
  unfold unquote
  split
  · exact List.Sublist.refl _
  · split
    · exact (List.dropLast_sublist _).cons _
    · exact List.Sublist.refl _

/-- What follows the colon is a part of the line. -/
theorem sublist_of_keyed? {line key rest : Text} (keyed : keyed? line = some (key, rest)) : rest.Sublist line := by
  rw [keyed?] at keyed
  split at keyed
  · rename_i rest' colon
    split at keyed
    · cases keyed
    · obtain ⟨rfl, rfl⟩ := Prod.mk.inj (Option.some.inj keyed)
      have inside : (':' :: rest').Sublist line :=
        colon ▸ (List.dropWhile_sublist _).trans (List.dropWhile_sublist _)
      exact (List.sublist_cons_self _ _).trans inside
  · cases keyed

/-- The value of a field is a part of its line. -/
theorem value_sublist {line key value : Text} (found : field? line = some (key, value)) : value.Sublist line := by
  obtain ⟨⟨key', rest⟩, keyed, same⟩ := Option.map_eq_some_iff.mp found
  obtain ⟨rfl, rfl⟩ := Prod.mk.inj same
  exact (unquote_sublist _).trans ((Text.trim_sublist _).trans (sublist_of_keyed? keyed))

/-- No header line holds a line feed. -/
theorem not_mem_of_split? {text rest : Text} {lines : List Text} (header : split? text = some (lines, rest)) :
    ∀ line ∈ lines, '\n' ∉ line := by
  obtain ⟨first, later, pieces⟩ := List.exists_cons_of_ne_nil (Text.lines_ne_nil text)
  rw [split?_of_lines pieces] at header
  split at header
  · split at header
    · cases header
    · obtain ⟨rfl, -⟩ := Prod.mk.inj (Option.some.inj header)
      rintro line member feed
      obtain ⟨whole, listed, rfl⟩ := List.mem_map.mp member
      have inText : whole ∈ Text.lines text :=
        pieces ▸ List.mem_cons_of_mem first ((List.takeWhile_sublist _).subset listed)
      exact Text.not_mem_of_mem_lines inText ((Text.isPrefix_dropEndWhile _ whole).subset feed)
  · cases header

/-- No field holds a line feed. -/
theorem not_mem_field {text key value : Text} (found : (parts text).fields.get? key = some value) : '\n' ∉ value := by
  rw [parts] at found
  split at found
  · cases found
  · rename_i lines rest header
    obtain ⟨line, member, field⟩ := List.mem_filterMap.mp (OrderedMap.mem_of_get?_ofList found)
    exact fun feed => not_mem_of_split? header line member ((value_sublist field).subset feed)

/-- No field holds a line feed, nor does a field that is missing. -/
theorem not_mem_getD_field (text key : Text) : '\n' ∉ ((parts text).fields.get? key).getD [] := by
  cases found : (parts text).fields.get? key with
  | none => exact List.not_mem_nil
  | some value => exact not_mem_field found

/-! ## Written headers -/

/-- A delimiter begins with a dash. -/
theorem isDelimiter_eq_false {line : Text} (head : line.head? ≠ some '-') : isDelimiter line = false := by
  rw [isDelimiter, beq_eq_false_iff_ne]
  intro dashes
  have starts := Text.isPrefix_dropEndWhile isTrailing line
  rw [dashes] at starts
  obtain ⟨rest, rfl⟩ := starts
  exact head rfl

/-- A text of lines with two delimiters, the first of them at its beginning, is split at the delimiters; the header
lines lose the carriage returns at their ends. -/
theorem split?_joinLines {opening closing : Text} {lines later : List Text} (opens : isDelimiter opening = true)
    (closes : isDelimiter closing = true) (inner : ∀ line ∈ lines, isDelimiter line = false)
    (unbroken : ∀ line ∈ opening :: (lines ++ closing :: later), '\n' ∉ line) :
    split? (Text.joinLines (opening :: (lines ++ closing :: later))) =
      some (lines.map withoutReturns, Text.joinLines later) := by
  have pieces : Text.lines (Text.joinLines (opening :: (lines ++ closing :: later))) =
      opening :: (lines ++ closing :: later) :=
    List.splitOn_intercalate '\n' unbroken (List.cons_ne_nil _ _)
  have passed : ∀ line ∈ lines, (!isDelimiter line) = true := fun line member => by
    rw [inner line member]
    rfl
  rw [split?_of_lines pieces, if_pos opens, List.dropWhile_append_of_pos passed, List.takeWhile_append_of_pos passed,
    List.dropWhile_cons_of_neg (by simp [closes]), List.takeWhile_cons_of_neg (by simp [closes]), List.append_nil]

/-- The lines between two delimiters are split off as they stand, except for carriage returns at their ends. -/
theorem split?_written {lines : List Text} (unbroken : ∀ line ∈ lines, '\n' ∉ line)
    (inner : ∀ line ∈ lines, line.head? ≠ some '-') (rest : Text) :
    split? (Text.joinLines (("---".toList :: lines) ++ ["---".toList]) ++ '\n' :: rest) =
      some (lines.map withoutReturns, rest) := by
  have dashes : isDelimiter "---".toList = true := by decide
  have all : ∀ line ∈ "---".toList :: (lines ++ "---".toList :: Text.lines rest), '\n' ∉ line := by
    simp only [List.forall_mem_cons, List.forall_mem_append]
    exact ⟨by decide, unbroken, by decide, fun _ => Text.not_mem_of_mem_lines⟩
  have whole : Text.joinLines (("---".toList :: lines) ++ ["---".toList]) ++ '\n' :: rest =
      Text.joinLines ("---".toList :: (lines ++ "---".toList :: Text.lines rest)) := by
    have split : Text.joinLines ((("---".toList :: lines) ++ ["---".toList]) ++ Text.lines rest) = _ :=
      Text.joinLines_append (List.cons_ne_nil _ _) (Text.lines_ne_nil rest)
    rw [Text.joinLines_lines, List.append_assoc, List.cons_append, List.singleton_append] at split
    exact split.symm
  rw [whole, split?_joinLines dashes dashes (fun line member => isDelimiter_eq_false (inner line member)) all,
    Text.joinLines_lines]

/-- A line of a key, a colon and a value stands for the value trimmed and without its quotes. -/
theorem field?_line {key : Text} (named : key ≠ []) (allowed : ∀ c ∈ key, isKeyCharacter c = true) (value : Text) :
    field? (withoutReturns (key ++ ':' :: value)) = some (key, unquote (Text.trim (withoutReturns value))) := by
  have colon : isKeyCharacter ':' = false := by decide
  have solid : Text.isBlank ':' = false := by decide
  have kept : withoutReturns (key ++ ':' :: value) = key ++ ':' :: withoutReturns value :=
    Text.dropEndWhile_append_cons (by decide) key value
  rw [kept, field?, keyed?, List.takeWhile_append_of_pos allowed, List.dropWhile_append_of_pos allowed,
    List.takeWhile_cons_of_neg (by simp [colon]), List.dropWhile_cons_of_neg (by simp [colon]),
    List.dropWhile_cons_of_neg (by simp [solid]), List.append_nil]
  simp only [List.isEmpty_eq_false_iff.mpr named, Bool.false_eq_true, if_false, Option.map_some]

end Header

end PromptCompiler
