/-! # Texts

A text is the list of its code points, so that every rule of the compiler is a rule on lists and
texts are ordered code point by code point. This module holds what all other modules need: pieces
between separators, the trimming of an end, search for a fragment, decimal numerals, and the two
ways of removing repetitions from a list.
-/

namespace PromptCompiler

/-- A text is the list of its code points. -/
abbrev Text := List Char

namespace Text

instance : LawfulBEq Text := inferInstance

/-- Whether all characters of a text have a property is found out one by one. -/
instance (priority := 2000) decidableForallMem (property : Char → Prop) [DecidablePred property] (text : Text) :
    Decidable (∀ c ∈ text, property c) := List.decidableBAll property text

/-- The pieces of a text between line feeds; a text without line feeds is one piece. -/
def lines (text : Text) : List Text := text.splitOn '\n'

/-- Pieces set one to a line, without a final line feed. -/
def joinLines (pieces : List Text) : Text := ['\n'].intercalate pieces

@[simp] theorem joinLines_lines (text : Text) : joinLines (lines text) = text :=
  List.intercalate_splitOn '\n'

/-- Pieces separated by a comma and a space. -/
def listed (pieces : List Text) : Text := [',', ' '].intercalate pieces

/-- The text without the longest run of dropped characters at its end. -/
def dropEndWhile (dropped : Char → Bool) (text : Text) : Text :=
  (text.reverse.dropWhile dropped).reverse

/-- The text without one given ending, if it has it. -/
def withoutEnding (ending text : Text) : Text :=
  if ending.isSuffixOf text then text.take (text.length - ending.length) else text

def occursIn (fragment : Text) : Text → Bool
  | [] => fragment.isEmpty
  | c :: rest => fragment.isPrefixOf (c :: rest) || occursIn fragment rest

theorem occursIn_iff (fragment text : Text) : occursIn fragment text = true ↔ fragment <:+: text := by
  induction text with
  | nil => simp [occursIn]
  | cons c rest ih => simp [occursIn, ih, List.infix_cons_iff]

/-- Every occurrence of one character gives way to another. -/
def substitute (old new : Char) (text : Text) : Text :=
  text.map fun c => if c = old then new else c

def ofNat (n : Nat) : Text := Nat.toDigits 10 n

/-- The decimal numeral of an integer, with a minus sign before a negative one. -/
def ofInt : Int → Text
  | .ofNat n => ofNat n
  | .negSucc n => '-' :: ofNat (n + 1)

/-- Texts are compared code point by code point. -/
def le (first second : Text) : Bool := !second.lex first

theorem le_iff {first second : Text} : le first second = true ↔ List.le first second := by
  rw [le, Bool.not_eq_true', List.lex_eq_false_iff_ge]
  rfl

def sorted (texts : List Text) : List Text := texts.mergeSort le

/-- The first occurrence of each text, in the order of first occurrence. -/
def distinct (texts : List Text) : List Text := texts.eraseDups

/-- The set of the given texts, in increasing order. -/
def sortedDistinct (texts : List Text) : List Text := sorted (distinct texts)

end Text

end PromptCompiler
