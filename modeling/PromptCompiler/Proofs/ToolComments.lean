import PromptCompiler.Artifact.Annotation
import PromptCompiler.Proofs.JsonArrays
import PromptCompiler.Proofs.LineEndings

/-! # Reading the comment on declared tools

An audit searches the lines of an artifact for the first comment with declared tools. A comment stands on
one line, so that what is found in a text is what is found in the first of its lines that has any. The
comment that is written for a list of names is read back as that list, unless one of the names closes the
comment before its end or says that nothing is declared; then nothing is read, and never another list
(`declaredTools?_declaredComment`).
-/

namespace PromptCompiler

/-- A mark without some character begins a text up to that character if it begins the text. -/
theorem isPrefixOf_append_cons {mark : Text} {c : Char} (absent : c ∉ mark) (before rest : Text) :
    mark.isPrefixOf (before ++ c :: rest) = mark.isPrefixOf before := by
  induction mark generalizing before with
  | nil => rfl
  | cons d mark ih =>
    have other : d ≠ c := fun same => absent (same ▸ List.mem_cons_self)
    have later : c ∉ mark := fun member => absent (List.mem_cons_of_mem d member)
    cases before with
    | nil => simp [List.isPrefixOf, other]
    | cons e before => simp [List.isPrefixOf, ih later]

namespace Text

/-- A mark that lacks some character stands before the character or after it. -/
theorem occursIn_append_cons {mark : Text} {c : Char} (notEmpty : mark ≠ []) (absent : c ∉ mark) (before rest : Text) :
    occursIn mark (before ++ c :: rest) = (occursIn mark before || occursIn mark rest) := by
  obtain ⟨first, more, rfl⟩ := List.exists_cons_of_ne_nil notEmpty
  induction before with
  | nil =>
    have other : first ≠ c := fun same => absent (same ▸ List.mem_cons_self)
    simp [occursIn, List.isPrefixOf, other]
  | cons d before ih =>
    have starts := isPrefixOf_append_cons absent (d :: before) rest
    rw [List.cons_append] at starts ⊢
    rw [occursIn, occursIn, starts, ih, Bool.or_assoc]

/-- A mark without line feeds occurs in one of the lines. -/
theorem occursIn_joinLines {mark : Text} (notEmpty : mark ≠ []) (unbroken : '\n' ∉ mark) (pieces : List Text) :
    occursIn mark (joinLines pieces) = pieces.any (occursIn mark) := by
  induction pieces with
  | nil => simp [joinLines, occursIn, notEmpty]
  | cons line rest ih =>
    cases rest with
    | nil => simp [joinLines]
    | cons next more =>
      rw [joinLines_cons, occursIn_append_cons notEmpty unbroken, ih]
      rfl

end Text

/-- What takes a line with and without a carriage return alike gives the same for all lines. -/
theorem map_withReturns {α : Type} (read : Text → α) (alike : ∀ line, read (line ++ ['\r']) = read line)
    (pieces : List Text) : (withReturns pieces).map read = pieces.map read := by
  induction pieces with
  | nil => rfl
  | cons line rest ih =>
    cases rest with
    | nil => rfl
    | cons next more =>
      rw [withReturns, List.map_cons, alike, ih]
      rfl

namespace Artifact

/-! ## Searching line by line -/

theorem upToClosing_append {c : Char} {rest : Text} (absent : c ∉ closingMark) (stops : upToClosing (c :: rest) = none)
    (before : Text) : upToClosing (before ++ c :: rest) = upToClosing before := by
  induction before with
  | nil => exact stops
  | cons d before ih =>
    have closes := isPrefixOf_append_cons absent (d :: before) rest
    rw [List.cons_append] at closes ⊢
    rw [upToClosing, upToClosing, closes, ih]

/-- What is found in a text is found before a character that ends the search for a closing bracket, or from
there on. -/
theorem declaredList?_append {c : Char} {rest : Text} (absent : c ∉ closingMark) (absent' : c ∉ declaredMark)
    (stops : upToClosing (c :: rest) = none) (before : Text) :
    declaredList? (before ++ c :: rest) = (declaredList? before).or (declaredList? (c :: rest)) := by
  induction before with
  | nil => rfl
  | cons d before ih =>
    have opens := isPrefixOf_append_cons absent' (d :: before) rest
    rw [List.cons_append] at opens ⊢
    rw [declaredList?, declaredList?, opens, ih]
    split
    · rename_i opened
      have long := (List.isPrefixOf_iff_prefix.mp opened).length_le
      have dropped : ((d :: before) ++ c :: rest).drop declaredMark.length =
          (d :: before).drop declaredMark.length ++ c :: rest := List.drop_append_of_le_length long
      rw [List.cons_append] at dropped
      rw [dropped, upToClosing_append absent stops]
      cases upToClosing ((d :: before).drop declaredMark.length) <;> rfl
    · rfl

theorem upToClosing_feed (rest : Text) : upToClosing ('\n' :: rest) = none := rfl

/-- The comment that is found in a text is that of the first line in which one is found. -/
theorem declaredList?_joinLines (pieces : List Text) :
    declaredList? (Text.joinLines pieces) = pieces.findSome? declaredList? := by
  induction pieces with
  | nil => rfl
  | cons line rest ih =>
    cases rest with
    | nil =>
      rw [List.findSome?_cons, List.findSome?_nil, Text.joinLines, List.intercalate_singleton]
      cases declaredList? line <;> rfl
    | cons next more =>
      have skipped : declaredList? ('\n' :: Text.joinLines (next :: more)) = declaredList? (Text.joinLines (next :: more)) :=
        rfl
      rw [Text.joinLines_cons, declaredList?_append (by decide) (by decide) (upToClosing_feed _), skipped, ih]
      conv => rhs; rw [List.findSome?_cons]
      cases declaredList? line <;> rfl

private theorem declaredList?_return (line : Text) : declaredList? (line ++ ['\r']) = declaredList? line := by
  rw [declaredList?_append (by decide) (by decide) rfl]
  exact Option.or_none

private theorem occursIn_return {mark : Text} (notEmpty : mark ≠ []) (plain : '\r' ∉ mark) (line : Text) :
    Text.occursIn mark (line ++ ['\r']) = Text.occursIn mark line := by
  rw [Text.occursIn_append_cons notEmpty plain, Text.occursIn, List.isEmpty_eq_false_iff.mpr notEmpty, Bool.or_false]

/-- A mark on one line occurs under both line endings alike. -/
theorem occursIn_restore {mark : Text} (notEmpty : mark ≠ []) (unbroken : '\n' ∉ mark) (plain : '\r' ∉ mark)
    (ending : LineEnding) (content : Text) :
    Text.occursIn mark (ending.restore content) = Text.occursIn mark content := by
  cases ending with
  | lf => rfl
  | crlf =>
    have marks := map_withReturns (Text.occursIn mark) (occursIn_return notEmpty plain) (Text.lines content)
    have found (text : Text) : Text.occursIn mark text = ((Text.lines text).map (Text.occursIn mark)).any id := by
      rw [List.any_map, Function.id_comp, ← Text.occursIn_joinLines notEmpty unbroken, Text.joinLines_lines]
    rw [found, found, Text.lines_restore, marks]

/-- An audit reads the same under both line endings. -/
theorem declaredTools?_restore (ending : LineEnding) (content : Text) :
    declaredTools? (ending.restore content) = declaredTools? content := by
  have absent : Text.occursIn absentMark (ending.restore content) = Text.occursIn absentMark content :=
    occursIn_restore (by decide) (by decide) (by decide) ending content
  cases ending with
  | lf => rfl
  | crlf =>
    have lists := map_withReturns declaredList? declaredList?_return (Text.lines content)
    have list : declaredList? (LineEnding.restore .crlf content) = declaredList? content := by
      have found (text : Text) : declaredList? text = ((Text.lines text).map declaredList?).findSome? id := by
        rw [List.findSome?_map, Function.id_comp, ← declaredList?_joinLines, Text.joinLines_lines]
      rw [found, found, Text.lines_restore, lists]
    rw [declaredTools?, declaredTools?, list, absent]

/-! ## Names in a comment -/

theorem upToClosing_pass {text : Text} (passed : ∀ c ∈ text, c ≠ ']' ∧ c ≠ '\n') (rest : Text) :
    upToClosing (text ++ rest) = (upToClosing rest).map (text ++ ·) := by
  induction text with
  | nil => simp
  | cons c text ih =>
    obtain ⟨notBracket, notFeed⟩ := passed c List.mem_cons_self
    have open' : closingMark.isPrefixOf (c :: (text ++ rest)) = false := by
      simp [closingMark, List.isPrefixOf, notBracket.symm]
    rw [List.cons_append, upToClosing, open', if_neg Bool.false_ne_true, if_neg notFeed,
      ih fun d member => passed d (List.mem_cons_of_mem c member), Option.map_map]
    rfl

private theorem hex_pass : ∀ n < 0x20, ∀ d ∈ 'u' :: Text.hex 4 n, d ≠ '<' ∧ d ≠ ']' ∧ d ≠ '\n' := by decide

/-- An escaped character is the character itself, or begins with a backslash and goes on without the brackets
that begin the marks of a comment; there is no line feed in it. -/
theorem escaped_cases (c : Char) :
    (Json.escaped c = [c] ∧ c ≠ '\n') ∨
      ∃ more, Json.escaped c = '\\' :: more ∧ ∀ d ∈ more, d ≠ '<' ∧ d ≠ ']' ∧ d ≠ '\n' := by
  unfold Json.escaped
  repeat' split
  all_goals try exact .inr ⟨_, rfl, by decide⟩
  · rename_i control
    exact .inr ⟨_, rfl, hex_pass _ control⟩
  · rename_i feed _ _ _ _ _
    exact .inl ⟨rfl, feed⟩

/-- Nothing but a closing bracket is written with a closing bracket, and nothing with a line feed. -/
theorem escaped_pass {c : Char} (other : c ≠ ']') : ∀ d ∈ Json.escaped c, d ≠ ']' ∧ d ≠ '\n' := by
  rcases escaped_cases c with ⟨same, feed⟩ | ⟨more, special, passed⟩
  · rw [same]
    exact List.forall_mem_singleton.mpr ⟨other, feed⟩
  · rw [special]
    exact List.forall_mem_cons.mpr ⟨by decide, fun d member => (passed d member).2⟩

/-- A mark of characters that need no escape begins a written name if it begins the name. -/
theorem isPrefixOf_written {mark : Text} (plain : ∀ d ∈ mark, Json.escaped d = [d]) (name rest : Text) :
    mark.isPrefixOf (name.flatMap Json.escaped ++ '"' :: rest) = mark.isPrefixOf name := by
  induction mark generalizing name with
  | nil => rfl
  | cons d mark ih =>
    have here := plain d List.mem_cons_self
    have later := ih fun e member => plain e (List.mem_cons_of_mem d member)
    cases name with
    | nil =>
      have other : d ≠ '"' := by
        rintro rfl
        cases here
      simp [List.isPrefixOf, other]
    | cons c name =>
      rcases escaped_cases c with ⟨same, -⟩ | ⟨more, special, -⟩
      · simp [List.isPrefixOf, same, later]
      · have other : d ≠ '\\' := by
          rintro rfl
          cases here
        have apart : d ≠ c := by
          rintro rfl
          exact other (List.cons.inj (here.symm.trans special)).1
        rw [List.flatMap_cons, special, List.cons_append, List.cons_append, List.isPrefixOf, List.isPrefixOf,
          beq_eq_false_iff_ne.mpr other, beq_eq_false_iff_ne.mpr apart, Bool.false_and, Bool.false_and]

private theorem upToClosing_written (c : Char) (name rest : Text) :
    upToClosing ((c :: name).flatMap Json.escaped ++ '"' :: rest) =
      if closingMark.isPrefixOf (c :: name) then some []
      else (upToClosing (name.flatMap Json.escaped ++ '"' :: rest)).map (Json.escaped c ++ ·) := by
  have plain : ∀ d ∈ closingMark, Json.escaped d = [d] := by decide
  have closes := isPrefixOf_written plain (c :: name) rest
  rw [List.flatMap_cons, List.append_assoc] at closes ⊢
  by_cases bracket : c = ']'
  · subst bracket
    rw [← closes]
    rfl
  · have open' : closingMark.isPrefixOf (c :: name) = false := by
      simp [closingMark, List.isPrefixOf, Ne.symm bracket]
    rw [upToClosing_pass (escaped_pass bracket), open', if_neg Bool.false_ne_true]

/-- A name that holds the closing mark closes the comment. -/
theorem upToClosing_of_closes {name : Text} (closes : Text.occursIn closingMark name = true) (rest : Text) :
    ∃ part : Text, upToClosing (name.flatMap Json.escaped ++ '"' :: rest) = some (part.flatMap Json.escaped) := by
  induction name with
  | nil => cases closes
  | cons c name ih =>
    rw [upToClosing_written]
    split
    · exact ⟨[], rfl⟩
    · rename_i later
      rw [Text.occursIn, Bool.eq_false_iff.mpr later, Bool.false_or] at closes
      obtain ⟨part, found⟩ := ih closes
      exact ⟨c :: part, by rw [found, List.flatMap_cons, Option.map_some]⟩

/-- Any other name is passed over. -/
theorem upToClosing_of_not_closes {name : Text} (passed : Text.occursIn closingMark name = false) (rest : Text) :
    upToClosing (name.flatMap Json.escaped ++ '"' :: rest) =
      (upToClosing rest).map fun later => name.flatMap Json.escaped ++ '"' :: later := by
  induction name with
  | nil =>
    have quote : ∀ c ∈ ['"'], c ≠ ']' ∧ c ≠ '\n' := by decide
    exact upToClosing_pass quote rest
  | cons c name ih =>
    rw [Text.occursIn, Bool.or_eq_false_iff] at passed
    rw [upToClosing_written, passed.1, if_neg Bool.false_ne_true, ih passed.2, Option.map_map]
    simp only [Function.comp_def, List.flatMap_cons, List.append_assoc]

private theorem upToClosing_ofText {name : Text} (passed : Text.occursIn closingMark name = false) (rest : Text) :
    upToClosing (Json.ofText name ++ rest) = (upToClosing rest).map (Json.ofText name ++ ·) := by
  rw [Json.ofText_append]
  change upToClosing (['"'] ++ (name.flatMap Json.escaped ++ '"' :: rest)) = _
  rw [upToClosing_pass (by decide), upToClosing_of_not_closes passed, Option.map_map]
  simp only [Function.comp_def, Json.ofText_append, List.singleton_append]

private theorem upToClosing_closed (tail : Text) : upToClosing (closingMark ++ tail) = some [] := rfl

/-- Written names that do not hold the closing mark are found whole. -/
theorem upToClosing_itemList {names : List Text} (passed : ∀ name ∈ names, Text.occursIn closingMark name = false)
    (tail : Text) : upToClosing (Json.itemList names ++ (closingMark ++ tail)) = some (Json.itemList names) := by
  induction names with
  | nil => rfl
  | cons name rest ih =>
    have first := passed name List.mem_cons_self
    have later := ih fun other member => passed other (List.mem_cons_of_mem name member)
    cases rest with
    | nil => rw [Json.itemList_singleton, upToClosing_ofText first, upToClosing_closed, Option.map_some, List.append_nil]
    | cons next more =>
      have comma (after : Text) : upToClosing (',' :: after) = (upToClosing after).map (',' :: ·) := rfl
      have written := Json.itemList_cons name next more []
      rw [List.append_nil, List.append_nil] at written
      rw [Json.itemList_cons, upToClosing_ofText first, comma, later, written]
      rfl

/-- Of names one of which holds the closing mark only a part is found. -/
theorem upToClosing_itemList_cut {names : List Text} (closes : ∃ name ∈ names, Text.occursIn closingMark name = true)
    (tail : Text) : ∃ cut, Json.CutShort cut ∧ upToClosing (Json.itemList names ++ tail) = some cut := by
  induction names with
  | nil => simp at closes
  | cons name rest ih =>
    -- What follows the name does not matter once it closes the comment.
    have inside (first : Text.occursIn closingMark name = true) (after : Text) :
        ∃ cut, Json.CutShort cut ∧ upToClosing (Json.ofText name ++ after) = some cut := by
      obtain ⟨part, found⟩ := upToClosing_of_closes first after
      refine ⟨_, .inside part, ?_⟩
      rw [Json.ofText_append]
      change upToClosing (['"'] ++ (name.flatMap Json.escaped ++ '"' :: after)) = _
      rw [upToClosing_pass (by decide), found]
      rfl
    cases rest with
    | nil =>
      obtain ⟨other, member, holds⟩ := closes
      obtain rfl := List.mem_singleton.mp member
      rw [Json.itemList_singleton]
      exact inside holds tail
    | cons next more =>
      rw [Json.itemList_cons]
      by_cases first : Text.occursIn closingMark name = true
      · exact inside first _
      · have others : ∃ other ∈ next :: more, Text.occursIn closingMark other = true := by
          obtain ⟨other, member, holds⟩ := closes
          rcases List.mem_cons.mp member with rfl | later
          · exact absurd holds first
          · exact ⟨other, later, holds⟩
        obtain ⟨cut, short, found⟩ := ih others
        have comma (after : Text) : upToClosing (',' :: after) = (upToClosing after).map (',' :: ·) := rfl
        refine ⟨_, .later name short, ?_⟩
        rw [upToClosing_ofText (Bool.eq_false_iff.mpr first), comma, found]
        rfl

private theorem declaredComment_some (names : List Text) (tail : Text) :
    declaredComment (some names) ++ tail = declaredMark ++ (Json.itemList names ++ (closingMark ++ tail)) := by
  have opening : "<!-- upstream-tools: ".toList ++ ['['] = declaredMark := by decide
  have closing : ']' :: " -->".toList = closingMark := by decide
  have whole : Json.ofTexts names = ['['] ++ Json.itemList names ++ [']'] := rfl
  change ("<!-- upstream-tools: ".toList ++ Json.ofTexts names ++ " -->".toList) ++ tail = _
  rw [← opening, ← closing, whole]
  generalize "<!-- upstream-tools: ".toList = before
  generalize " -->".toList = after
  simp only [List.append_assoc, List.singleton_append]
  rfl

private theorem declaredList?_mark {rest inner : Text} (closed : upToClosing rest = some inner) :
    declaredList? (declaredMark ++ rest) = some ('[' :: inner ++ [']']) := by
  have opening : declaredMark ++ rest = '<' :: (declaredMark.tail ++ rest) := rfl
  have opened : declaredMark.isPrefixOf ('<' :: (declaredMark.tail ++ rest)) = true :=
    List.isPrefixOf_iff_prefix.mpr ⟨rest, opening⟩
  have dropped : ('<' :: (declaredMark.tail ++ rest)).drop declaredMark.length = rest := rfl
  rw [opening, declaredList?, if_pos opened, dropped, closed]

/-- The comment for some names is found, and read back as the names unless one of them closes it. -/
theorem declaredList?_comment (names : List Text) (tail : Text) :
    ∃ list, declaredList? (declaredComment (some names) ++ tail) = some list ∧
      listedTexts? list = .ok (if names.any (Text.occursIn closingMark) then none else some names) := by
  rw [declaredComment_some]
  cases closes : names.any (Text.occursIn closingMark) with
  | true =>
    obtain ⟨cut, short, closed⟩ := upToClosing_itemList_cut (List.any_eq_true.mp closes) (closingMark ++ tail)
    refine ⟨_, declaredList?_mark closed, ?_⟩
    rw [listedTexts?, short.read_eq (by decide)]
    rfl
  | false =>
    have passed : ∀ name ∈ names, Text.occursIn closingMark name = false := by
      simpa using closes
    refine ⟨_, declaredList?_mark (upToClosing_itemList passed tail), ?_⟩
    have whole : '[' :: Json.itemList names ++ [']'] = Json.ofTexts names := rfl
    rw [whole, listedTexts?, Json.read_ofTexts (by decide)]
    exact Json.texts?_strings names

/-! ## The mark of a comment without tools -/

theorem lt_not_mem_escaped {c : Char} (other : c ≠ '<') : '<' ∉ Json.escaped c := by
  rcases escaped_cases c with ⟨same, -⟩ | ⟨more, special, passed⟩
  · rw [same]
    exact fun member => other (List.mem_singleton.mp member).symm
  · rw [special]
    intro member
    exact (passed '<' ((List.mem_cons.mp member).resolve_left (by decide))).1 rfl

section Marks

variable {first : Char} {more : Text}

private theorem occursIn_pass {text : Text} (absent : first ∉ text) (rest : Text) :
    Text.occursIn (first :: more) (text ++ rest) = Text.occursIn (first :: more) rest := by
  induction text with
  | nil => rfl
  | cons c text ih =>
    have other : first ≠ c := List.ne_of_not_mem_cons absent
    rw [List.cons_append, Text.occursIn, ih (List.not_mem_of_not_mem_cons absent), List.isPrefixOf,
      beq_eq_false_iff_ne.mpr other, Bool.false_and, Bool.false_or]

/-- A mark of characters that need no escape stands in a written name if it stands in the name, as no escape
holds the character with which it begins. -/
theorem occursIn_written (plain : ∀ d ∈ first :: more, Json.escaped d = [d])
    (apart : ∀ c, c ≠ first → first ∉ Json.escaped c) (name rest : Text) :
    Text.occursIn (first :: more) (name.flatMap Json.escaped ++ '"' :: rest) =
      (Text.occursIn (first :: more) name || Text.occursIn (first :: more) rest) := by
  induction name with
  | nil =>
    have notQuote : first ∉ ['"'] := by
      intro member
      obtain rfl := List.mem_singleton.mp member
      cases plain '"' List.mem_cons_self
    exact occursIn_pass notQuote rest
  | cons c name ih =>
    have starts := isPrefixOf_written plain (c :: name) rest
    rw [List.flatMap_cons, List.append_assoc] at starts ⊢
    by_cases same : c = first
    · subst same
      rw [plain c List.mem_cons_self, List.singleton_append] at starts ⊢
      rw [Text.occursIn, Text.occursIn, starts, ih, Bool.or_assoc]
    · have begins : (first :: more).isPrefixOf (c :: name) = false := by
        rw [List.isPrefixOf, beq_eq_false_iff_ne.mpr (Ne.symm same), Bool.false_and]
      rw [occursIn_pass (apart c same), ih, Text.occursIn, begins, Bool.false_or]

end Marks

private theorem occursIn_ofText (name rest : Text) :
    Text.occursIn absentMark (Json.ofText name ++ rest) =
      (Text.occursIn absentMark name || Text.occursIn absentMark rest) := by
  have plain : ∀ d ∈ absentMark, Json.escaped d = [d] := by decide
  rw [Json.ofText_append]
  exact occursIn_written plain (fun _ => lt_not_mem_escaped) name rest

/-- Neither the quotes around names nor the commas between them are part of the mark. -/
theorem occursIn_itemList (names : List Text) (rest : Text) :
    Text.occursIn absentMark (Json.itemList names ++ rest) =
      (names.any (Text.occursIn absentMark) || Text.occursIn absentMark rest) := by
  induction names with
  | nil => rfl
  | cons name others ih =>
    cases others with
    | nil => rw [Json.itemList_singleton, occursIn_ofText, List.any_cons, List.any_nil, Bool.or_false]
    | cons next more =>
      have comma (after : Text) : Text.occursIn absentMark (',' :: after) = Text.occursIn absentMark after := rfl
      rw [Json.itemList_cons, occursIn_ofText, comma, ih, ← Bool.or_assoc, ← List.any_cons]

/-- A comment with declared tools says that none are declared only where a name does. -/
theorem occursIn_declaredComment (names : List Text) :
    Text.occursIn absentMark (declaredComment (some names)) = names.any (Text.occursIn absentMark) := by
  have opening (rest : Text) : Text.occursIn absentMark (declaredMark ++ rest) = Text.occursIn absentMark rest := rfl
  have closing : Text.occursIn absentMark (closingMark ++ []) = false := by decide
  have whole := declaredComment_some names []
  rw [List.append_nil] at whole
  rw [whole, opening, occursIn_itemList, closing, Bool.or_false]

/-! ## The comment on its own -/

/-- Whether a name can be told apart from the comment that it stands in: it holds neither the end of a comment
with tools nor the beginning of one without. -/
def Recordable (name : Text) : Prop := ¬ closingMark <:+: name ∧ ¬ absentMark <:+: name

theorem recordable_iff {name : Text} :
    Recordable name ↔ Text.occursIn closingMark name = false ∧ Text.occursIn absentMark name = false := by
  rw [Recordable, ← Text.occursIn_iff, ← Text.occursIn_iff, Bool.not_eq_true, Bool.not_eq_true]

instance (name : Text) : Decidable (Recordable name) := decidable_of_iff' _ recordable_iff

/-- The comment is read back as what was declared, provided that all names are recordable; otherwise, and where
no tools were declared, nothing is read. -/
theorem declaredTools?_declaredComment (declared : Option (List Text)) :
    declaredTools? (declaredComment declared) =
      .ok (declared.filter fun names => ∀ name ∈ names, Recordable name) := by
  cases declared with
  | none => rfl
  | some names =>
    have recordable : (∀ name ∈ names, Recordable name) ↔
        names.any (Text.occursIn closingMark) = false ∧ names.any (Text.occursIn absentMark) = false := by
      simp only [recordable_iff, forall_and, List.any_eq_false, Bool.not_eq_true]
    obtain ⟨list, found, read⟩ := declaredList?_comment names []
    rw [List.append_nil] at found
    rw [declaredTools?, occursIn_declaredComment, found, Option.elim_some, read, Option.filter_some]
    by_cases all : ∀ name ∈ names, Recordable name
    · obtain ⟨notClosed, notAbsent⟩ := recordable.mp all
      rw [notClosed, notAbsent, decide_eq_true all]
      rfl
    · rw [decide_eq_false all]
      by_cases absent : names.any (Text.occursIn absentMark) = true
      · rw [absent]
        rfl
      · have notAbsent := Bool.eq_false_iff.mpr absent
        have closed : names.any (Text.occursIn closingMark) = true :=
          eq_true_of_ne_false fun notClosed => all (recordable.mpr ⟨notClosed, notAbsent⟩)
        rw [notAbsent, closed]
        rfl

/-! ## Comments that are given up -/

/-- A comment with an array in arrays, all of them without end. -/
def nestedComment (levels : Nat) : Text := declaredMark ++ (List.replicate levels '[' ++ closingMark)

/-- A comment in which more arrays are open than the reader has calls left is given up. -/
theorem declaredTools?_nestedComment {levels : Nat} (deep : Json.callLimit ≤ commentCalls + levels) :
    declaredTools? (nestedComment levels) = .error (.tooDeep .array) := by
  have bracket {c : Char} (member : c ∈ List.replicate levels '[') : c = '[' := List.eq_of_mem_replicate member
  have opening (rest : Text) : Text.occursIn absentMark (declaredMark ++ rest) = Text.occursIn absentMark rest := rfl
  have pass (rest : Text) : Text.occursIn absentMark (List.replicate levels '[' ++ rest) = Text.occursIn absentMark rest :=
    occursIn_pass (fun member => absurd (bracket member) (by decide)) rest
  have absent : Text.occursIn absentMark (nestedComment levels) = false := by
    rw [nestedComment, opening, pass]
    decide
  have closed : upToClosing (List.replicate levels '[' ++ closingMark) = some (List.replicate levels '[') := by
    rw [upToClosing_pass fun c member => bracket member ▸ by decide]
    exact congrArg some (List.append_nil _)
  have list : '[' :: List.replicate levels '[' ++ [']'] = List.replicate (levels + 1) '[' ++ [']'] := rfl
  have read := Json.read_nested (show Json.callLimit - commentCalls < levels + 1 by omega) [']']
  rw [declaredTools?, absent, nestedComment, declaredList?_mark closed, list, if_neg Bool.false_ne_true,
    Option.elim_some, listedTexts?, read]

end Artifact

end PromptCompiler
