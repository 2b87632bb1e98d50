import PromptCompiler.Proofs.Json

/-! # Reading arrays of texts back

An array of texts is read back as it was written. What is left of a written array that is cut off inside
one of its texts is no array, even with a bracket put at its end: the text that was cut stays open, and
the bracket belongs to it.
-/

namespace PromptCompiler.Json

def itemList (texts : List Text) : Text := [','].intercalate (texts.map ofText)

theorem itemList_singleton (text : Text) : itemList [text] = ofText text := List.intercalate_singleton

theorem itemList_cons (text next : Text) (texts : List Text) (rest : Text) :
    itemList (text :: next :: texts) ++ rest = ofText text ++ ',' :: (itemList (next :: texts) ++ rest) := by
  simp only [itemList, List.map_cons, List.intercalate_cons_cons, List.append_assoc, List.cons_append,
    List.nil_append]

theorem ofText_append (text rest : Text) : ofText text ++ rest = '"' :: (text.flatMap escaped ++ '"' :: rest) := by
  simp only [ofText, List.cons_append, List.append_assoc, List.nil_append]

/-! ## Whole arrays -/

variable {left calls : Nat}

private theorem readValue_ofText (bound : Nat) (text rest : Text) :
    readValue (bound + 1) left (ofText text ++ rest) = .ok (.string (some text), rest) := by
  rw [readValue, skipBlanks_ofText, ofText_append]
  simp only [readString_written, Except.map]

private theorem readItems_more (bound : Nat) (text rest : Text) :
    readItems (bound + 2) left (ofText text ++ ',' :: rest) =
      (readItems (bound + 1) left rest).map fun (items, rest) => (.string (some text) :: items, rest) := by
  have comma : skipBlanks (',' :: rest) = ',' :: rest := rfl
  rw [readItems, readValue_ofText]
  simp only [bind, Except.bind, comma]
  cases readItems (bound + 1) left rest <;> rfl

private theorem readItems_last (bound : Nat) (text rest : Text) :
    readItems (bound + 2) left (ofText text ++ ']' :: rest) = .ok ([.string (some text)], rest) := by
  have bracket : skipBlanks (']' :: rest) = ']' :: rest := rfl
  rw [readItems, readValue_ofText]
  simp only [bind, Except.bind, bracket]
  rfl

/-- One call for each item and one for the value of the last are enough. -/
theorem readItems_written (text : Text) (texts : List Text) (bound : Nat) (enough : texts.length ≤ bound)
    (rest : Text) :
    readItems (bound + 2) left (itemList (text :: texts) ++ ']' :: rest) =
      .ok ((text :: texts).map fun text => .string (some text), rest) := by
  induction texts generalizing text bound with
  | nil =>
    rw [itemList_singleton, readItems_last]
    rfl
  | cons next texts ih =>
    obtain ⟨bound, rfl⟩ : ∃ smaller, bound = smaller + 1 := ⟨bound - 1, by simp at enough; omega⟩
    have later := ih next bound (Nat.le_of_succ_le_succ enough)
    rw [itemList_cons, readItems_more, later]
    simp only [Except.map, List.map_cons]

private theorem length_le_itemList (texts : List Text) : texts.length ≤ (itemList texts).length := by
  induction texts with
  | nil => exact Nat.zero_le _
  | cons text texts ih =>
    cases texts with
    | nil => simp [itemList_singleton, ofText]
    | cons next more =>
      have split := congrArg List.length (itemList_cons text next more [])
      simp only [List.append_nil, List.length_append, List.length_cons] at split ih ⊢
      omega

private theorem readValue_array (bound : Nat) {c : Char} (visible : ∀ after, skipBlanks (c :: after) = c :: after)
    (other : c ≠ ']') (after : Text) :
    readValue (bound + 1) (left + 1) ('[' :: c :: after) =
      (readItems bound left (c :: after)).map fun (items, rest) => (.array items, rest) := by
  have opened : skipBlanks ('[' :: c :: after) = '[' :: c :: after := rfl
  rw [readValue, opened]
  simp only [visible]
  split
  · rename_i closed
    exact absurd (List.cons.inj closed).1 other
  · rfl

private theorem exists_left (allowed : calls < callLimit) : ∃ left, callLimit - calls = left + 1 :=
  ⟨callLimit - calls - 1, by omega⟩

/-- The array that is written for texts is read back, if one more call may be open. -/
theorem read_ofTexts (allowed : calls < callLimit) (texts : List Text) :
    read calls (ofTexts texts) = .ok (.array (texts.map fun text => .string (some text))) := by
  obtain ⟨left, allows⟩ := exists_left allowed
  cases texts with
  | nil =>
    have text : ofTexts [] = ['[', ']'] := rfl
    have opened : skipBlanks ['[', ']'] = ['[', ']'] := rfl
    have closed : skipBlanks [']'] = [']'] := rfl
    rw [read, allows, text, stepBound, readValue, opened]
    simp only [closed]
    rfl
  | cons text texts =>
    have long := length_le_itemList (text :: texts)
    have written : ofTexts (text :: texts) = '[' :: (itemList (text :: texts) ++ [']']) := rfl
    obtain ⟨bound, enough, deep⟩ : ∃ bound, texts.length ≤ bound ∧
        stepBound (ofTexts (text :: texts)) = bound + 3 := by
      refine ⟨stepBound (ofTexts (text :: texts)) - 3, ?_, ?_⟩ <;>
        simp only [written, stepBound, List.length_cons, List.length_append] at long ⊢ <;> omega
    obtain ⟨after, first⟩ : ∃ after, itemList (text :: texts) ++ [']'] = '"' :: after := by
      cases texts with
      | nil => exact ⟨_, by rw [itemList_singleton, ofText_append]⟩
      | cons next texts => exact ⟨_, by rw [itemList_cons, ofText_append]⟩
    have items : readItems (bound + 2) left (itemList (text :: texts) ++ [']']) = _ :=
      readItems_written text texts bound enough []
    rw [first] at items
    rw [read, deep, allows, written, first, readValue_array _ (fun _ => rfl) (by decide), items]
    rfl

theorem texts?_strings (texts : List Text) :
    texts? (.array (texts.map fun text => .string (some text))) = .ok (some texts) := by
  have strings : (texts.map fun text => string (some text)).all isString = true := by simp [isString]
  have same : (texts.map fun text => string (some text)).mapM text? = some texts := by
    induction texts with
    | nil => rfl
    | cons text texts ih =>
      simp only [List.map_cons, List.mapM_cons, text?, ih (by simp [isString]), Option.bind_eq_bind, Option.bind_some,
        Option.pure_def]
  simp only [texts?, strings, if_true, same]

/-! ## Arrays that are cut off -/

/-- The items of an array up to some place inside one of the texts. -/
inductive CutShort : Text → Prop
  | inside (part : Text) : CutShort ('"' :: part.flatMap escaped)
  | later (text : Text) {cut : Text} (short : CutShort cut) : CutShort (ofText text ++ ',' :: cut)

private theorem readUnits_open (part : Text) : readUnits (part.flatMap escaped ++ [']']) = none := by
  induction part with
  | nil => rfl
  | cons c part ih => rw [List.flatMap_cons, List.append_assoc, readUnits_escaped, ih, Option.map_none]

/-- Items are missing however many steps are allowed. -/
theorem CutShort.readItems_eq {cut : Text} (short : CutShort cut) (bound : Nat) :
    readItems bound left (cut ++ [']']) = .error .malformed := by
  induction short generalizing bound with
  | inside part =>
    have quoted (after : Text) : skipBlanks ('"' :: after) = '"' :: after := rfl
    match bound with
    | 0 => rfl
    | 1 => rfl
    | bound + 2 =>
      rw [readItems, readValue, List.cons_append, quoted]
      simp only [readString, readUnits_open]
      rfl
  | @later text cut short ih =>
    rw [List.append_assoc, List.cons_append]
    match bound with
    | 0 => rfl
    | 1 => rfl
    | bound + 2 =>
      rw [readItems_more, ih]
      rfl

theorem CutShort.read_eq {cut : Text} (short : CutShort cut) (allowed : calls < callLimit) :
    read calls ('[' :: cut ++ [']']) = .error .malformed := by
  obtain ⟨left, allows⟩ := exists_left allowed
  obtain ⟨after, first⟩ : ∃ after, cut ++ [']'] = '"' :: after := by
    cases short with
    | inside part => exact ⟨_, rfl⟩
    | later text short => exact ⟨_, by rw [List.append_assoc, ofText_append]⟩
  have missing (bound : Nat) : readItems bound left ('"' :: after) = .error .malformed :=
    first ▸ short.readItems_eq bound
  rw [read, stepBound, allows, List.cons_append, first, readValue_array _ (fun _ => rfl) (by decide), missing]
  rfl

/-! ## Arrays in arrays -/

/-- One bracket more than may be open is not read, whatever follows. -/
theorem readValue_nested (left bound : Nat) (enough : 2 * left < bound) (rest : Text) :
    readValue bound left (List.replicate (left + 1) '[' ++ rest) = .error (.tooDeep .array) := by
  have opened (after : Text) : skipBlanks ('[' :: after) = '[' :: after := rfl
  induction left generalizing bound with
  | zero =>
    obtain ⟨bound, rfl⟩ := Nat.exists_eq_add_of_lt enough
    rw [List.replicate_one, List.singleton_append, readValue, opened]
    rfl
  | succ left ih =>
    obtain ⟨bound, rfl⟩ : ∃ smaller, bound = smaller + 2 := ⟨bound - 2, by omega⟩
    have inner := ih bound (by omega)
    rw [List.replicate_succ, List.cons_append] at inner ⊢
    rw [List.replicate_succ, List.cons_append, readValue_array _ opened (by decide), readItems, inner]
    rfl

theorem read_nested {levels : Nat} (deep : callLimit - calls < levels) (rest : Text) :
    read calls (List.replicate levels '[' ++ rest) = .error (.tooDeep .array) := by
  obtain ⟨more, rfl⟩ := Nat.exists_eq_add_of_lt deep
  have split : List.replicate (callLimit - calls + more + 1) '[' ++ rest =
      List.replicate (callLimit - calls + 1) '[' ++ (List.replicate more '[' ++ rest) := by
    rw [← List.append_assoc, List.replicate_append_replicate, Nat.add_right_comm]
  have enough : 2 * (callLimit - calls) <
      stepBound (List.replicate (callLimit - calls + more + 1) '[' ++ rest) := by
    rw [stepBound, List.length_append, List.length_replicate]
    omega
  rw [read, split, readValue_nested _ _ (split ▸ enough)]
  rfl

end PromptCompiler.Json
