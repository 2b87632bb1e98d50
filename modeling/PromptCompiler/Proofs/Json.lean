import PromptCompiler.Json.Reader
import PromptCompiler.Json.Writer

/-! # Reading back what is written

An object of texts is read back as it was written: every character of a string is one unit of the
string that is read, and members come in their order. The bound on nested calls is no obstacle, since
a text is at least as long as it has members.
-/

namespace PromptCompiler.Json

/-! ## Strings -/

/-- The unit that is read for a written character. -/
def unitOf (c : Char) : StringUnit :=
  if c ≠ '\n' ∧ c ≠ '\r' ∧ c ≠ '\t' ∧ c ≠ '\x08' ∧ c ≠ '\x0c' ∧ c.toNat < 0x20 then .code c.toNat
  else .char c

/-- The four digits of a control character stand for its number. -/
theorem hexValue?_hex : ∀ n < 0x20, hexValue? (Text.hex 4 n) = some n := by decide

private theorem length_hex : ∀ n < 0x20, (Text.hex 4 n).length = 4 := by decide

private theorem readUnits_code {digits : List Char} {n : Nat} (four : digits.length = 4)
    (value : hexValue? digits = some n) (rest : Text) :
    readUnits ('\\' :: 'u' :: digits ++ rest) =
      (readUnits rest).map fun (units, rest) => (.code n :: units, rest) := by
  obtain ⟨a, b, c, d, rfl⟩ : ∃ a b c d, digits = [a, b, c, d] := by
    match digits, four with
    | [a, b, c, d], _ => exact ⟨a, b, c, d, rfl⟩
  simp only [List.cons_append, List.nil_append, readUnits, value, Option.bind_eq_bind,
    Option.bind_some]
  cases readUnits rest <;> rfl

private theorem readUnits_short {c plain : Char} (other : c ≠ 'u') (short : shortEscape? c = some plain)
    (rest : Text) :
    readUnits ('\\' :: c :: rest) =
      (readUnits rest).map fun (units, rest) => (.char plain :: units, rest) := by
  rw [readUnits, short, Option.bind_eq_bind, Option.bind_some]
  · cases readUnits rest <;> rfl
  · rintro a b c d later rfl
    exact absurd rfl other

private theorem readUnits_plain {c : Char} (quote : c ≠ '"') (backslash : c ≠ '\\') (visible : 0x20 ≤ c.toNat)
    (rest : Text) :
    readUnits (c :: rest) = (readUnits rest).map fun (units, rest) => (.char c :: units, rest) := by
  rw [readUnits]
  · have allowed : ¬ ((decide (c.toNat < 0x20) || c == '\\') = true) := by
      rw [Bool.or_eq_true, decide_eq_true_eq, beq_iff_eq]
      exact fun refused => refused.elim (Nat.not_lt.mpr visible) backslash
    rw [if_neg allowed]
    cases readUnits rest <;> rfl
  · exact quote
  · intro a b c d later same
    exact absurd same backslash
  · intro d later same
    exact absurd same backslash

theorem readUnits_escaped (c : Char) (rest : Text) :
    readUnits (escaped c ++ rest) =
      (readUnits rest).map fun (units, rest) => (unitOf c :: units, rest) := by
  by_cases quote : c = '"'
  · subst quote
    exact readUnits_short (by decide) rfl rest
  by_cases backslash : c = '\\'
  · subst backslash
    exact readUnits_short (by decide) rfl rest
  by_cases feed : c = '\n'
  · subst feed
    exact readUnits_short (by decide) rfl rest
  by_cases carriage : c = '\r'
  · subst carriage
    exact readUnits_short (by decide) rfl rest
  by_cases tab : c = '\t'
  · subst tab
    exact readUnits_short (by decide) rfl rest
  by_cases back : c = '\x08'
  · subst back
    exact readUnits_short (by decide) rfl rest
  by_cases form : c = '\x0c'
  · subst form
    exact readUnits_short (by decide) rfl rest
  by_cases control : c.toNat < 0x20
  · simp only [escaped, unitOf, quote, backslash, feed, carriage, tab, back, form, control, if_true,
      if_false, ne_eq, not_false_eq_true, and_self]
    exact readUnits_code (length_hex _ control) (hexValue?_hex _ control) rest
  · simp only [escaped, unitOf, quote, backslash, feed, carriage, tab, back, form, control, if_false,
      and_false, List.cons_append, List.nil_append]
    exact readUnits_plain quote backslash (Nat.not_lt.mp control) rest

private theorem readUnits_text (text rest : Text) :
    readUnits (text.flatMap escaped ++ '"' :: rest) = some (text.map unitOf, rest) := by
  induction text with
  | nil => simp only [List.flatMap_nil, List.nil_append, readUnits, List.map_nil]
  | cons c text ih =>
    rw [List.flatMap_cons, List.append_assoc, readUnits_escaped, ih]
    rfl

/-- No written code unit is half of a pair. -/
theorem joinUnits?_cons (c : Char) (units : List StringUnit) :
    joinUnits? (unitOf c :: units) = (joinUnits? units).map (c :: ·) := by
  unfold unitOf
  split
  · rename_i special
    have small : c.toNat < 0x20 := special.2.2.2.2.2
    have high : isHighHalf c.toNat = false := by
      simp only [isHighHalf, Bool.and_eq_false_iff, decide_eq_false_iff_not]
      omega
    have low : isLowHalf c.toNat = false := by
      simp only [isLowHalf, Bool.and_eq_false_iff, decide_eq_false_iff_not]
      omega
    have alone : lone? c.toNat = some c := by
      rw [lone?, high, low, Bool.or_false, if_neg (by decide), Char.ofNat_toNat]
    have single (later : List StringUnit) : (do return (← lone? c.toNat) :: (← joinUnits? later)) =
        (joinUnits? later).map (c :: ·) := by
      rw [alone]
      cases joinUnits? later <;> rfl
    cases units with
    | nil => exact single []
    | cons unit later =>
      cases unit with
      | char d => exact single (.char d :: later)
      | code n =>
        rw [joinUnits?, high, Bool.false_and, if_neg Bool.false_ne_true]
        exact single _
  · rfl

private theorem joinUnits?_map_unitOf (text : Text) : joinUnits? (text.map unitOf) = some text := by
  induction text with
  | nil => rfl
  | cons c text ih => rw [List.map_cons, joinUnits?_cons, ih, Option.map_some]

/-- A written string is read back, whatever its characters. -/
theorem readString_written (text rest : Text) :
    readString (text.flatMap escaped ++ '"' :: rest) = .ok (some text, rest) := by
  rw [readString, readUnits_text]
  simp only [joinUnits?_map_unitOf]

/-! ## Objects -/

variable {left : Nat}

theorem skipBlanks_ofText (text rest : Text) : skipBlanks (ofText text ++ rest) = ofText text ++ rest := rfl

private theorem readValue_text (bound : Nat) (text rest : Text) :
    readValue (bound + 1) left (' ' :: (ofText text ++ rest)) = .ok (.string (some text), rest) := by
  have skipped : skipBlanks (' ' :: (ofText text ++ rest)) = '"' :: (text.flatMap escaped ++ '"' :: rest) := by
    change skipBlanks (ofText text ++ rest) = _
    rw [skipBlanks_ofText, ofText]
    simp only [List.cons_append, List.append_assoc, List.nil_append]
  rw [readValue, skipped]
  simp only [readString_written, Except.map]

/-- The entries of a table as members of an object. -/
def members (entries : List (Text × Text)) : List (Option Text × Json) :=
  entries.map fun entry => (some entry.1, .string (some entry.2))

/-- Members written one to a line. -/
def memberLines (entries : List (Text × Text)) : Text := [',', '\n'].intercalate (entries.map ofMember)

private theorem skipBlanks_member (entry : Text × Text) (rest : Text) :
    skipBlanks ('\n' :: (ofMember entry ++ rest)) =
      '"' :: (entry.1.flatMap escaped ++ '"' :: ':' :: ' ' :: (ofText entry.2 ++ rest)) := by
  change skipBlanks (ofText entry.1 ++ ':' :: ' ' :: ofText entry.2 ++ rest) = _
  rw [List.append_assoc, skipBlanks_ofText, ofText]
  simp only [List.cons_append, List.append_assoc, List.nil_append]

private theorem readMembers_more (entry : Text × Text) (bound : Nat) (rest : Text) :
    readMembers (bound + 2) left ('\n' :: (ofMember entry ++ ',' :: rest)) =
      (readMembers (bound + 1) left rest).map fun (members, rest) =>
        ((some entry.1, .string (some entry.2)) :: members, rest) := by
  have colon (after : Text) : skipBlanks (':' :: after) = ':' :: after := rfl
  have comma : skipBlanks (',' :: rest) = ',' :: rest := rfl
  rw [readMembers, skipBlanks_member]
  simp only [readString_written, bind, Except.bind, colon, readValue_text, comma]
  cases readMembers (bound + 1) left rest <;> rfl

private theorem readMembers_last (entry : Text × Text) (bound : Nat) (rest : Text) :
    readMembers (bound + 2) left ('\n' :: (ofMember entry ++ '\n' :: '}' :: rest)) =
      .ok ([(some entry.1, .string (some entry.2))], rest) := by
  have colon (after : Text) : skipBlanks (':' :: after) = ':' :: after := rfl
  have brace : skipBlanks ('\n' :: '}' :: rest) = '}' :: rest := rfl
  rw [readMembers, skipBlanks_member]
  simp only [readString_written, bind, Except.bind, colon, readValue_text, brace]
  rfl

private theorem memberLines_singleton (entry : Text × Text) : memberLines [entry] = ofMember entry :=
  List.intercalate_singleton

private theorem memberLines_cons (entry next : Text × Text) (entries : List (Text × Text)) (rest : Text) :
    memberLines (entry :: next :: entries) ++ rest =
      ofMember entry ++ ',' :: '\n' :: (memberLines (next :: entries) ++ rest) := by
  simp only [memberLines, List.map_cons, List.intercalate_cons_cons, List.append_assoc,
    List.cons_append, List.nil_append]

/-- One call for each member and one for the value of the last are enough. -/
theorem readMembers_written (entry : Text × Text) (entries : List (Text × Text)) (bound : Nat)
    (enough : entries.length ≤ bound) (rest : Text) :
    readMembers (bound + 2) left ('\n' :: (memberLines (entry :: entries) ++ '\n' :: '}' :: rest)) =
      .ok (members (entry :: entries), rest) := by
  induction entries generalizing entry bound with
  | nil =>
    rw [memberLines_singleton, readMembers_last]
    rfl
  | cons next entries ih =>
    obtain ⟨bound, rfl⟩ : ∃ smaller, bound = smaller + 1 := ⟨bound - 1, by simp at enough; omega⟩
    have later := ih next bound (Nat.le_of_succ_le_succ enough)
    rw [memberLines_cons, readMembers_more, later]
    simp only [Except.map, members, List.map_cons]

private theorem length_le_memberLines (entries : List (Text × Text)) :
    entries.length ≤ (memberLines entries).length := by
  induction entries with
  | nil => exact Nat.zero_le _
  | cons entry entries ih =>
    cases entries with
    | nil => simp [memberLines_singleton, ofMember]
    | cons next more =>
      have split := congrArg List.length (memberLines_cons entry next more [])
      simp only [List.append_nil, List.length_append, List.length_cons] at split ih ⊢
      omega

/-- The object that is written for entries is read back with one member for each, if one more call may be open. -/
theorem read_ofEntries {calls : Nat} (allowed : calls < callLimit) (entries : List (Text × Text)) :
    read calls (ofEntries entries ++ ['\n']) = .ok (.object (members entries)) := by
  obtain ⟨left, allows⟩ : ∃ left, callLimit - calls = left + 1 := ⟨callLimit - calls - 1, by omega⟩
  have opened (after : Text) : skipBlanks ('{' :: after) = '{' :: after := rfl
  cases entries with
  | nil =>
    have closed : skipBlanks ('}' :: ['\n']) = '}' :: ['\n'] := rfl
    have text : ofEntries [] ++ ['\n'] = '{' :: '}' :: ['\n'] := rfl
    rw [read, allows, text, stepBound, readValue, opened]
    simp only [closed]
    rfl
  | cons entry entries =>
    have long := length_le_memberLines (entry :: entries)
    have text : ofEntries (entry :: entries) ++ ['\n'] =
        '{' :: '\n' :: (memberLines (entry :: entries) ++ '\n' :: '}' :: ['\n']) := by
      simp only [ofEntries, memberLines, List.cons_append, List.append_assoc, List.nil_append]
    obtain ⟨bound, enough, deep⟩ : ∃ bound, entries.length ≤ bound ∧
        stepBound (ofEntries (entry :: entries) ++ ['\n']) = bound + 3 := by
      refine ⟨stepBound (ofEntries (entry :: entries) ++ ['\n']) - 3, ?_, ?_⟩ <;>
        simp only [text, stepBound, List.length_cons, List.length_append] at long ⊢ <;> omega
    have quoted (after : Text) : skipBlanks ('"' :: after) = '"' :: after := rfl
    obtain ⟨after, first⟩ : ∃ after,
        skipBlanks ('\n' :: (memberLines (entry :: entries) ++ '\n' :: '}' :: ['\n'])) = '"' :: after := by
      cases entries with
      | nil => exact ⟨_, by rw [memberLines_singleton, skipBlanks_member]⟩
      | cons next entries => exact ⟨_, by rw [memberLines_cons, skipBlanks_member]⟩
    have same : readMembers (bound + 2) left ('"' :: after) = .ok (members (entry :: entries), ['\n']) := by
      rw [← readMembers_written entry entries bound enough, readMembers, readMembers, first, quoted]
    rw [read, deep, allows, text, readValue, opened]
    simp only [first]
    change (Except.map _ (readMembers (bound + 2) left ('"' :: after))) >>= _ = _
    rw [same]
    rfl

end PromptCompiler.Json
