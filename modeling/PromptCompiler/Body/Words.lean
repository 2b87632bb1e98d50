import PromptCompiler.Text.Blank

/-! # Words of a text

References end at a blank, a quote or a closing bracket. Between these separators a text consists of
words, some of them empty; words and separators together give the text back (`text_ofText`). A
rewriting of words leaves every separator in its place and collects the warnings in order.
-/

namespace PromptCompiler

/-- Whether a character may belong to a reference. -/
def isReferenceCharacter (c : Char) : Bool :=
  !Text.isBlank c && c != '"' && c != '\'' && c != ')' && c != '>' && c != ']'

/-- A text as words with separators between them. -/
structure Words where
  first : Text
  /-- Every separator with the word after it. -/
  later : List (Char × Text)
deriving DecidableEq

namespace Words

def ofText (text : Text) : Words :=
  text.foldr
    (fun c words =>
      if isReferenceCharacter c then ⟨c :: words.first, words.later⟩
      else ⟨[], (c, words.first) :: words.later⟩)
    ⟨[], []⟩

def text (words : Words) : Text := words.first ++ words.later.flatMap fun part => part.1 :: part.2

@[simp] theorem text_ofText (source : Text) : (ofText source).text = source := by
  induction source with
  | nil => rfl
  | cons c rest ih =>
    simp only [ofText, List.foldr_cons] at ih ⊢
    split <;> simpa [text] using ih

/-- Every word rewritten; the warnings come in the order of the words. -/
def rewrite (rule : Text → Text × List Text) (source : Text) : Text × List Text :=
  let words := ofText source
  ( (⟨(rule words.first).1, words.later.map fun part => (part.1, (rule part.2).1)⟩ : Words).text,
    (rule words.first).2 ++ words.later.flatMap fun part => (rule part.2).2)

end Words

end PromptCompiler
