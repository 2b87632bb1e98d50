import PromptCompiler.Proofs.BodyLines
import PromptCompiler.Proofs.KeptFences
import PromptCompiler.Proofs.ReferenceTokens

/-! # Bodies that are rewritten once

No line of a converted text includes anything, and no directory of a runtime stands in a normalized text after a
tilde or on its own. Neither rewriting makes work for itself or for the other: an instruction begins with a dash,
a target begins after a character that does not glue, a dot that is put before a slash ends no name of a runtime
and glues the slash, and no dot takes the place of an at sign. So a text that went through both stays as it is
(`rewritten_once`).
-/

namespace PromptCompiler

private theorem Text.isBlank_of_isLineBlank {c : Char} (blank : isLineBlank c = true) : isBlank c = true := by
  by_contra solid
  exact Bool.noConfusion (blank.symm.trans (isLineBlank_eq_false (Bool.eq_false_iff.mpr solid)))

/-- What is left of a text that follows a character follows that character or one that was dropped. -/
theorem Text.exists_dropWhile (dropped : Char → Bool) (last : Char) (text : Text) :
    ∃ before c, last :: text = before ++ c :: text.dropWhile dropped ∧ (c = last ∨ dropped c = true) := by
  induction text generalizing last with
  | nil => exact ⟨[], last, rfl, .inl rfl⟩
  | cons d rest ih =>
    cases drop : dropped d with
    | false => exact ⟨[], last, by rw [List.dropWhile_cons_of_neg (by simp [drop])]; rfl, .inl rfl⟩
    | true =>
      obtain ⟨before, c, same, known⟩ := ih d
      refine ⟨last :: before, c, ?_, .inr (known.elim (fun same => same ▸ drop) id)⟩
      rw [List.dropWhile_cons_of_pos drop, same, List.cons_append]

/-! ## Includes -/

namespace Includes

private theorem target?_cons_of_isLineBlank {c : Char} (blank : Text.isLineBlank c = true) (rest : Text) :
    target? (c :: rest) = target? rest := by
  rw [target?, List.dropWhile_cons_of_pos blank, target?]

private theorem target?_cons_of_ne {c : Char} (solid : Text.isLineBlank c = false) (other : c ≠ '@') (rest : Text) :
    target? (c :: rest) = none := by
  rw [target?, List.dropWhile_cons_of_neg (by simp [solid])]
  split
  · rename_i sign
    exact absurd (List.cons.inj sign).1 other
  · rfl

/-- Whatever follows an at sign after blanks is included. -/
theorem target?_append {blanks : Text} (blank : ∀ b ∈ blanks, Text.isLineBlank b = true) (c : Char) (rest : Text) :
    target? (blanks ++ '@' :: c :: rest) = some (target (c :: rest)) := by
  induction blanks with
  | nil => rfl
  | cons b blanks ih =>
    obtain ⟨first, later⟩ := List.forall_mem_cons.mp blank
    rw [List.cons_append, target?_cons_of_isLineBlank first, ih later]

/-- A line that includes something has an at sign after blanks, and the target in what follows. -/
theorem exists_of_target? {line found : Text} (included : target? line = some found) :
    ∃ blanks c rest, line = blanks ++ '@' :: c :: rest ∧ found = target (c :: rest) := by
  rw [target?] at included
  split at included
  · rename_i c rest starts
    refine ⟨line.takeWhile Text.isLineBlank, c, rest, ?_, (Option.some.inj included).symm⟩
    rw [← starts, List.takeWhile_append_dropWhile]
  · cases included

/-- An instruction includes nothing. -/
theorem target?_convertLine (line : Text) : target? (convertLine line) = none := by
  rw [convertLine]
  cases included : target? line with
  | none => exact included
  | some found => rfl

private theorem target?_of_mem_convert {text line : Text} (member : line ∈ Text.lines (convert text)) :
    target? line = none := by
  rw [lines_convert] at member
  obtain ⟨written, -, rfl⟩ := List.mem_map.mp member
  exact target?_convertLine written

private theorem convertLine_of_target? {line : Text} (plain : target? line = none) : convertLine line = line := by
  rw [convertLine, plain]

/-- A text without includes stays as it is. -/
theorem convert_of_target? {text : Text} (plain : ∀ line ∈ Text.lines text, target? line = none) : convert text = text := by
  have same : (Text.lines text).map convertLine = Text.lines text :=
    (List.map_congr_left fun line member => convertLine_of_target? (plain line member)).trans (List.map_id _)
  rw [convert, same, Text.joinLines_lines]

private theorem convert_convert (text : Text) : convert (convert text) = convert text :=
  convert_of_target? fun _ => target?_of_mem_convert

end Includes

namespace RuntimePaths

/-! ## Directories of runtimes -/

/-- The directory of a runtime, between slashes. -/
def directory (runtime : Text) : Text := '/' :: '.' :: runtime ++ ['/']

theorem startsDirectory_iff {text : Text} :
    startsDirectory text = true ↔ ∃ runtime ∈ runtimes, directory runtime <+: text := by
  simp only [startsDirectory, List.any_eq_true, List.isPrefixOf_iff_prefix, directory]

private theorem glues_of_mem_directory : ∀ runtime ∈ runtimes, ∀ c ∈ directory runtime, glues c = true := by
  decide +kernel

/-- A text that follows a character holds no directory that is still to be rewritten. -/
def Settled (previous : Option Char) : Text → Prop
  | [] => True
  | c :: rest => (c = '~' → startsDirectory rest = false) ∧
      (startsDirectory (c :: rest) = true → previous.any glues = true) ∧ Settled (some c) rest

/-! ## Texts that stay as they are -/

theorem fromHome_of_settled {previous : Option Char} {text : Text} (settled : Settled previous text) : fromHome text = text := by
  induction text generalizing previous with
  | nil => rfl
  | cons c rest ih =>
    obtain ⟨home, -, later⟩ := settled
    rw [fromHome, if_neg fun here => Bool.noConfusion (here.2.symm.trans (home here.1)), ih later]

private theorem fromRootAfter_of_settled {previous : Option Char} {text : Text} (settled : Settled previous text) :
    fromRootAfter previous text = text := by
  induction text generalizing previous with
  | nil => rfl
  | cons c rest ih =>
    obtain ⟨-, root, later⟩ := settled
    have glued : ¬ (startsDirectory (c :: rest) = true ∧ previous.all (!glues ·) = true) := by
      rintro ⟨starts, apart⟩
      have glued := root starts
      cases previous with
      | none => cases glued
      | some d =>
        rw [Option.any_some] at glued
        rw [Option.all_some, glued] at apart
        cases apart
    rw [fromRootAfter, if_neg glued, ih later]

private theorem normalize_of_settled {text : Text} (settled : Settled none text) : normalize text = text := by
  rw [normalize, fromHome_of_settled settled, fromRootAfter_of_settled settled]

/-! ## What is left after a rewriting -/

/-- A text without tildes in which no dot stands before a slash, or at the end, begins a text exactly if it begins
the text with its home directories rewritten. -/
theorem prefix_fromHome_iff {mark : Text} (noTilde : '~' ∉ mark) (noStep : ¬ ['.', '/'] <:+: mark ++ ['/']) {text : Text} :
    mark <+: fromHome text ↔ mark <+: text := by
  induction mark generalizing text with
  | nil => simp only [List.nil_prefix]
  | cons c mark ih =>
    obtain ⟨other, later⟩ : '~' ≠ c ∧ '~' ∉ mark := by simpa using noTilde
    have apart : ¬ ['.', '/'] <:+: mark ++ ['/'] := fun step => noStep (step.trans (List.suffix_cons c _).isInfix)
    cases text with
    | nil => rfl
    | cons d rest =>
      rw [fromHome, List.cons_prefix_cons, List.cons_prefix_cons, ih later apart]
      split
      · rename_i home
        obtain ⟨rfl, starts⟩ := home
        obtain ⟨runtime, -, begins⟩ := startsDirectory_iff.mp starts
        refine iff_of_false ?_ fun same => other same.1.symm
        -- A slash follows the dot that took the place of the tilde, and none follows a dot of the mark.
        rintro ⟨rfl, inside⟩
        obtain ⟨tail, rfl⟩ := begins
        cases mark with
        | nil => exact noStep ⟨[], [], rfl⟩
        | cons e mark =>
          obtain ⟨rfl, -⟩ := List.cons_prefix_cons.mp inside
          exact noStep ⟨[], mark ++ ['/'], rfl⟩
      · rfl

private theorem startsDirectory_fromHome (text : Text) : startsDirectory (fromHome text) = startsDirectory text := by
  have marks : ∀ runtime ∈ runtimes, '~' ∉ directory runtime ∧ ¬ ['.', '/'] <:+: directory runtime ++ ['/'] := by
    decide +kernel
  rw [Bool.eq_iff_iff, startsDirectory_iff, startsDirectory_iff]
  exact exists_congr fun runtime =>
    and_congr_right fun member => prefix_fromHome_iff (marks runtime member).1 (marks runtime member).2

/-- No directory of a runtime is left after a tilde. -/
theorem not_infix_fromHome {runtime : Text} (member : runtime ∈ runtimes) (text : Text) :
    ¬ '~' :: directory runtime <:+: fromHome text := by
  induction text with
  | nil => exact fun inside => List.cons_ne_nil _ _ (List.infix_nil.mp inside)
  | cons c rest ih =>
    intro inside
    rw [fromHome] at inside
    rcases List.infix_cons_iff.mp inside with here | later
    · obtain ⟨tilde, begins⟩ := List.cons_prefix_cons.mp here
      have starts : startsDirectory rest = true :=
        startsDirectory_fromHome rest ▸ startsDirectory_iff.mpr ⟨runtime, member, begins⟩
      split at tilde
      · cases tilde
      · rename_i home
        exact home ⟨tilde.symm, starts⟩
    · exact ih later

/-- A text that is made of characters that glue begins a rewritten text only if it begins the text as it was. -/
theorem prefix_of_fromRootAfter {mark : Text} (glued : ∀ c ∈ mark, glues c = true) {previous : Char}
    (glued' : glues previous = true) {text : Text} (starts : mark <+: fromRootAfter (some previous) text) : mark <+: text := by
  induction mark generalizing previous text with
  | nil => exact List.nil_prefix
  | cons c mark ih =>
    obtain ⟨first, later⟩ := List.forall_mem_cons.mp glued
    cases text with
    | nil => exact starts
    | cons d text =>
      rw [fromRootAfter, if_neg (by simp [glued'])] at starts
      obtain ⟨rfl, starts⟩ := List.cons_prefix_cons.mp starts
      exact List.cons_prefix_cons.mpr ⟨rfl, ih later first starts⟩

/-- After a character that glues no directory of a runtime comes to stand where there was none. -/
theorem startsDirectory_of_fromRootAfter {previous : Char} (glued : glues previous = true) {text : Text}
    (starts : startsDirectory (fromRootAfter (some previous) text) = true) : startsDirectory text = true := by
  obtain ⟨runtime, member, begins⟩ := startsDirectory_iff.mp starts
  exact startsDirectory_iff.mpr
    ⟨runtime, member, prefix_of_fromRootAfter (glues_of_mem_directory runtime member) glued begins⟩

private theorem startsDirectory_cons_of_fromRootAfter {c : Char} {rest : Text}
    (starts : startsDirectory (c :: fromRootAfter (some c) rest) = true) : startsDirectory (c :: rest) = true := by
  obtain ⟨runtime, member, begins⟩ := startsDirectory_iff.mp starts
  obtain ⟨rfl, begins⟩ := List.cons_prefix_cons.mp begins
  obtain ⟨slash, glued⟩ := List.forall_mem_cons.mp (glues_of_mem_directory runtime member)
  exact startsDirectory_iff.mpr
    ⟨runtime, member, List.cons_prefix_cons.mpr ⟨rfl, prefix_of_fromRootAfter glued slash begins⟩⟩

/-- In a text without home directories, root directories are rewritten once. -/
theorem settled_fromRootAfter {text : Text} (homeless : ∀ runtime ∈ runtimes, ¬ '~' :: directory runtime <:+: text)
    (previous : Option Char) : Settled previous (fromRootAfter previous text) := by
  induction text generalizing previous with
  | nil => trivial
  | cons c rest ih =>
    have later : Settled (some c) (fromRootAfter (some c) rest) :=
      ih (fun runtime member inside => homeless runtime member (inside.trans (List.suffix_cons c rest).isInfix)) (some c)
    have home : c = '~' → startsDirectory (fromRootAfter (some c) rest) = false := by
      rintro rfl
      refine Bool.eq_false_iff.mpr fun starts => ?_
      obtain ⟨runtime, member, begins⟩ := startsDirectory_iff.mp
        (startsDirectory_of_fromRootAfter (by simp [glues]) starts)
      exact homeless runtime member (List.cons_prefix_cons.mpr ⟨rfl, begins⟩).isInfix
    rw [fromRootAfter]
    split
    · -- The dot that is put before the slash is itself a character that glues.
      have glued : (some '.').any glues = true := by simp [glues]
      have other : startsDirectory ('.' :: c :: fromRootAfter (some c) rest) = false := startsDirectory_cons (by decide) _
      exact ⟨fun tilde => absurd tilde (by decide), fun starts => Bool.noConfusion (other.symm.trans starts), home,
        fun _ => glued, later⟩
    · rename_i kept
      refine ⟨home, fun starts => ?_, later⟩
      by_contra apart
      refine kept ⟨startsDirectory_cons_of_fromRootAfter starts, ?_⟩
      cases previous with
      | none => rfl
      | some d => simpa using apart

private theorem settled_normalize (text : Text) : Settled none (normalize text) :=
  settled_fromRootAfter (fun _ member => not_infix_fromHome member text) none

/-- A text stays as it is exactly if no directory in it is still to be rewritten. -/
theorem normalize_eq_self_iff {text : Text} : normalize text = text ↔ Settled none text :=
  ⟨fun same => same ▸ settled_normalize text, normalize_of_settled⟩

/-! ## Parts of settled texts -/

theorem settled_of_append {previous : Option Char} {before : Text} {last : Char} {rest : Text}
    (settled : Settled previous (before ++ last :: rest)) : Settled (some last) rest := by
  induction before generalizing previous with
  | nil => exact settled.2.2
  | cons c before ih => exact ih settled.2.2

private theorem settled_of_front {previous : Option Char} {text after : Text}
    (settled : Settled previous (text ++ after)) :
    Settled previous text := by
  have starts {front : Text} (begun : startsDirectory front = true) : startsDirectory (front ++ after) = true := by
    obtain ⟨runtime, member, begins⟩ := startsDirectory_iff.mp begun
    exact startsDirectory_iff.mpr ⟨runtime, member, begins.trans (List.prefix_append _ _)⟩
  induction text generalizing previous with
  | nil => trivial
  | cons c text ih =>
    obtain ⟨home, root, later⟩ := settled
    refine ⟨fun tilde => Bool.eq_false_iff.mpr fun begun => ?_, fun begun => root (starts begun), ih later⟩
    exact Bool.noConfusion ((starts begun).symm.trans (home tilde))

/-- What follows a character that does not glue may follow anything. -/
theorem settled_of_not_glues {c : Char} (apart : glues c = false) {text : Text} (settled : Settled (some c) text)
    (previous : Option Char) : Settled previous text := by
  cases text with
  | nil => trivial
  | cons d text =>
    obtain ⟨home, root, later⟩ := settled
    exact ⟨home, fun begun => Bool.noConfusion (apart.symm.trans (root begun)), later⟩

/-- Before a settled text may stand anything without slashes and tildes. -/
theorem settled_append {front : Text} {last : Char} (other : ∀ c ∈ front ++ [last], c ≠ '~' ∧ c ≠ '/') {rest : Text}
    (settled : Settled (some last) rest) (previous : Option Char) : Settled previous (front ++ last :: rest) := by
  have put {c : Char} {rest : Text} (other : c ≠ '~' ∧ c ≠ '/') (settled : Settled (some c) rest) (previous : Option Char) :
      Settled previous (c :: rest) :=
    ⟨fun tilde => absurd tilde other.1, fun begun => Bool.noConfusion ((startsDirectory_cons other.2 rest).symm.trans begun),
      settled⟩
  induction front generalizing previous with
  | nil => exact put (other last List.mem_cons_self) settled previous
  | cons c front ih =>
    obtain ⟨first, later⟩ := List.forall_mem_cons.mp other
    exact put first (ih later (some c)) previous

private theorem glues_of_settled {previous : Option Char} {before : Text} {runtime : Text} (member : runtime ∈ runtimes)
    {after : Text}
    (settled : Settled previous (before ++ directory runtime ++ after)) :
    (before.getLast?.or previous).any glues = true := by
  induction before generalizing previous with
  | nil => exact settled.2.1 (startsDirectory_iff.mpr ⟨runtime, member, List.prefix_append _ _⟩)
  | cons c before ih =>
    have later := ih settled.2.2
    cases before <;> exact later

private theorem not_infix_of_settled {previous : Option Char} {runtime : Text} (member : runtime ∈ runtimes)
    {text : Text}
    (settled : Settled previous text) : ¬ '~' :: directory runtime <:+: text := by
  rintro ⟨before, after, rfl⟩
  rw [List.append_assoc] at settled
  induction before generalizing previous with
  | nil =>
    have starts : startsDirectory (directory runtime ++ after) = true :=
      startsDirectory_iff.mpr ⟨runtime, member, List.prefix_append _ _⟩
    exact Bool.noConfusion (starts.symm.trans (settled.1 rfl))
  | cons c before ih => exact ih settled.2.2

/-! ## Normalized lines -/

theorem normalize_joinLines (pieces : List Text) : normalize (Text.joinLines pieces) = Text.joinLines (pieces.map normalize) := by
  induction pieces with
  | nil => rfl
  | cons line rest ih =>
    cases rest with
    | nil => rw [Text.joinLines_singleton, List.map_singleton, Text.joinLines_singleton]
    | cons next rest =>
      rw [Text.joinLines_cons, normalize_append, ih]
      exact (Text.joinLines_cons ..).symm

private theorem not_mem_fromHome {barred : Char} (other : barred ≠ '.') {text : Text} (absent : barred ∉ text) :
    barred ∉ fromHome text := by
  induction text with
  | nil => exact absent
  | cons c rest ih =>
    obtain ⟨first, later⟩ := List.ne_and_not_mem_of_not_mem_cons absent
    rw [fromHome]
    split
    · exact List.not_mem_cons_of_ne_of_not_mem other (ih later)
    · exact List.not_mem_cons_of_ne_of_not_mem first (ih later)

private theorem not_mem_fromRootAfter {barred : Char} (other : barred ≠ '.') {text : Text} (absent : barred ∉ text)
    (previous : Option Char) : barred ∉ fromRootAfter previous text := by
  induction text generalizing previous with
  | nil => exact absent
  | cons c rest ih =>
    obtain ⟨first, later⟩ := List.ne_and_not_mem_of_not_mem_cons absent
    have kept := List.not_mem_cons_of_ne_of_not_mem first (ih later (some c))
    rw [fromRootAfter]
    split
    · exact List.not_mem_cons_of_ne_of_not_mem other kept
    · exact kept

/-- Every line is normalized on its own. -/
theorem lines_normalize (text : Text) : Text.lines (normalize text) = (Text.lines text).map normalize := by
  have unbroken : ∀ line ∈ (Text.lines text).map normalize, '\n' ∉ line := by
    intro line member
    obtain ⟨written, listed, rfl⟩ := List.mem_map.mp member
    have feed : '\n' ≠ '.' := by decide
    exact not_mem_fromRootAfter feed (not_mem_fromHome feed (Text.not_mem_of_mem_lines listed)) none
  have notEmpty : (Text.lines text).map normalize ≠ [] := List.map_eq_nil_iff.not.mpr (Text.lines_ne_nil text)
  have pieces := normalize_joinLines (Text.lines text)
  rw [Text.joinLines_lines] at pieces
  rw [pieces]
  exact List.splitOn_intercalate '\n' unbroken notEmpty

/-- After a character that does not glue, a text is normalized on its own. -/
theorem normalize_cons {c : Char} (apart : glues c = false) (rest : Text) : normalize (c :: rest) = c :: normalize rest := by
  have other {d : Char} (glued : glues d = true) : c ≠ d := fun same =>
    Bool.noConfusion (glued.symm.trans (same ▸ apart))
  have home : ¬ (c = '~' ∧ startsDirectory rest = true) := fun home => other (by simp [glues]) home.1
  have root : startsDirectory (c :: fromHome rest) = false := startsDirectory_cons (other (by simp [glues])) _
  rw [normalize, fromHome, if_neg home, fromRootAfter, root, if_neg (by simp), fromRootAfter_of_not_glues apart, normalize]

/-- A normalized text begins as the text, or with a dot. -/
theorem normalize_begins (c : Char) (rest : Text) :
    ∃ first later, normalize (c :: rest) = first :: later ∧ (first = c ∨ first = '.') := by
  have home : ∃ first, fromHome (c :: rest) = first :: fromHome rest ∧ (first = c ∨ first = '.') := by
    refine ⟨_, rfl, ?_⟩
    split
    · exact .inr rfl
    · exact .inl rfl
  obtain ⟨first, same, begins⟩ := home
  rw [normalize, same, fromRootAfter]
  split
  · exact ⟨'.', _, rfl, .inr rfl⟩
  · exact ⟨first, _, rfl, begins⟩

end RuntimePaths

/-! ## Both rewritings -/

namespace Includes

open RuntimePaths

private theorem glues_at : glues '@' = false := by decide +kernel

private theorem not_glues_of_isBlank {c : Char} (blank : Text.isBlank c = true) : glues c = false := by
  have noWord : Unicode.isWord c = false := by
    refine Bool.eq_false_iff.mpr fun word => ?_
    have inside := Unicode.isReferenceCharacter_of_isWord word
    rw [isReferenceCharacter, blank] at inside
    cases inside
  have other {d : Char} (solid : Text.isBlank d = false) : c ≠ d := fun same =>
    Bool.noConfusion (solid.symm.trans (same ▸ blank))
  simp only [glues, noWord, Bool.false_or, Bool.or_eq_false_iff, beq_eq_false_iff_ne]
  exact ⟨⟨⟨other rfl, other rfl⟩, other rfl⟩, other rfl⟩

/-- Normalizing a line neither makes nor removes an include. -/
theorem target?_normalize (line : Text) : (target? (normalize line)).isSome = (target? line).isSome := by
  induction line with
  | nil => rfl
  | cons c rest ih =>
    cases blank : Text.isLineBlank c with
    | true =>
      have apart : glues c = false := not_glues_of_isBlank (Text.isBlank_of_isLineBlank blank)
      rw [normalize_cons apart, target?_cons_of_isLineBlank blank, target?_cons_of_isLineBlank blank, ih]
    | false =>
      by_cases sign : c = '@'
      · subst sign
        rw [normalize_cons glues_at]
        cases rest with
        | nil => rfl
        | cons d rest =>
          obtain ⟨first, later, same, -⟩ := normalize_begins d rest
          rw [same]
          rfl
      · obtain ⟨first, later, same, begins⟩ := normalize_begins c rest
        rw [same, target?_cons_of_ne blank sign]
        rcases begins with rfl | rfl
        · rw [target?_cons_of_ne blank sign]
        · rw [target?_cons_of_ne (by decide) (by decide)]

/-- A trimmed text still follows a character that does not glue. -/
theorem exists_trim {last : Char} (apart : glues last = false) (text : Text) :
    ∃ before c after, last :: text = before ++ c :: (Text.trim text ++ after) ∧ glues c = false := by
  obtain ⟨before, c, same, known⟩ := Text.exists_dropWhile Text.isBlank last text
  obtain ⟨after, whole⟩ := Text.isPrefix_dropEndWhile Text.isBlank (Text.trimStart text)
  refine ⟨before, c, after, ?_, ?_⟩
  · rw [same]
    exact congrArg (before ++ c :: ·) whole.symm
  · rcases known with rfl | blank
    · exact apart
    · exact not_glues_of_isBlank blank

/-- What is included stands in its line, after a character that does not glue. -/
theorem exists_target (rest : Text) :
    ∃ before c after, '@' :: rest = before ++ c :: (target rest ++ after) ∧ glues c = false := by
  have whole := exists_trim glues_at rest
  rw [target]
  split
  · rename_i starts
    obtain ⟨tail, rfl⟩ := List.isPrefixOf_iff_prefix.mp starts
    rw [List.drop_left]
    dsimp only
    split
    · exact whole
    · rename_i gap
      split
      · -- The target begins after the last blank of the gap.
        cases tail with
        | nil => exact absurd rfl gap
        | cons d tail =>
          have blank : Text.isLineBlank d = true := by
            by_contra solid
            exact gap (List.takeWhile_cons_of_neg solid)
          rw [List.dropWhile_cons_of_pos blank]
          obtain ⟨before, c, same, known⟩ := Text.exists_dropWhile Text.isLineBlank d tail
          have apart : glues c = false :=
            not_glues_of_isBlank (Text.isBlank_of_isLineBlank (known.elim (fun same => same ▸ blank) id))
          obtain ⟨before', c', after, same', apart'⟩ := exists_trim apart (tail.dropWhile Text.isLineBlank)
          refine ⟨'@' :: word ++ before ++ before', c', after, ?_, apart'⟩
          rw [same, same']
          simp only [List.cons_append, List.append_assoc]
      · split
        · exact whole
        · exact ⟨[], '@', _, rfl, glues_at⟩
  · exact whole

/-- The instruction that a settled line becomes is settled. -/
theorem settled_convertLine {line : Text} (settled : Settled none line) : Settled none (convertLine line) := by
  rw [convertLine]
  cases included : target? line with
  | none => exact settled
  | some found =>
    obtain ⟨blanks, c, rest, rfl, rfl⟩ := exists_of_target? included
    obtain ⟨before, last, after, same, apart⟩ := exists_target (c :: rest)
    rw [same, ← List.append_assoc] at settled
    have own : Settled (some ' ') (target (c :: rest)) :=
      settled_of_not_glues apart (settled_of_front (settled_of_append settled)) (some ' ')
    have plain : ∀ c ∈ "- Read file at:".toList ++ [' '], c ≠ '~' ∧ c ≠ '/' := by decide
    exact settled_append plain own none

end Includes

open Includes RuntimePaths

/-- Normalizing a converted text leaves nothing to convert. -/
theorem convert_normalize_convert (text : Text) : convert (normalize (convert text)) = normalize (convert text) := by
  refine convert_of_target? fun line member => ?_
  rw [lines_normalize] at member
  obtain ⟨written, listed, rfl⟩ := List.mem_map.mp member
  rw [← Option.isNone_iff_eq_none, ← Option.not_isSome, target?_normalize, target?_of_mem_convert listed]
  rfl

/-- Converting a normalized text leaves nothing to normalize. -/
theorem normalize_convert_normalize (text : Text) : normalize (convert (normalize text)) = convert (normalize text) := by
  have settled : ∀ line ∈ Text.lines text, normalize (convertLine (normalize line)) = convertLine (normalize line) :=
    fun line _ => normalize_of_settled (settled_convertLine (settled_normalize line))
  rw [convert, normalize_joinLines, lines_normalize, List.map_map, List.map_map, List.map_map]
  exact congrArg Text.joinLines (List.map_congr_left settled)

/-- No directory of a runtime is left after a tilde, or after anything but a word character, a dot, a slash, a tilde
or a dash; no line is left that includes something; and each rewriting, or both in a row, leave a text as it is that
has gone through them, in either order. -/
theorem rewritten_once (text : Text) :
    (∀ runtime ∈ runtimes, ¬ "~/.".toList ++ runtime ++ ['/'] <:+: normalize text) ∧
    (∀ before after, ∀ runtime ∈ runtimes, normalize text = before ++ ("/.".toList ++ runtime ++ ['/']) ++ after →
      ∃ c, before.getLast? = some c ∧ (Unicode.isWord c = true ∨ c = '.' ∨ c = '/' ∨ c = '~' ∨ c = '-')) ∧
    normalize (normalize text) = normalize text ∧
    (∀ line ∈ Text.lines (convert text), ∀ blanks c rest, (∀ b ∈ blanks, b = ' ' ∨ b = '\t') →
      line ≠ blanks ++ '@' :: c :: rest) ∧
    convert (convert text) = convert text ∧
    normalize (convert (normalize (convert text))) = normalize (convert text) ∧
    normalize (convert (convert (normalize text))) = convert (normalize text) := by
  have settled := settled_normalize text
  refine ⟨fun runtime member => not_infix_of_settled member settled, ?_, normalize_of_settled settled, ?_,
    convert_convert text, ?_, ?_⟩
  · intro before after runtime member same
    rw [same] at settled
    have glued := glues_of_settled member settled
    cases last : before.getLast? with
    | none =>
      rw [last] at glued
      cases glued
    | some c =>
      rw [last] at glued
      refine ⟨c, rfl, ?_⟩
      simpa [glues, or_assoc] using glued
  · rintro line member blanks c rest blank rfl
    have blank' : ∀ b ∈ blanks, Text.isLineBlank b = true := fun b inside => by
      simpa [Text.isLineBlank] using blank b inside
    exact Option.some_ne_none _ ((target?_append blank' c rest).symm.trans (target?_of_mem_convert member))
  · rw [convert_normalize_convert, normalize_of_settled (settled_normalize _)]
  · rw [convert_convert, normalize_convert_normalize]

end PromptCompiler
