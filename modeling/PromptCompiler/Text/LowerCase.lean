import PromptCompiler.Text.Basic
import PromptCompiler.Unicode.LowerCase

/-! # Lower-case texts

A text is lowered character by character, apart from the capital sigma: it becomes a final sigma
when it stands at the end of a word, that is after a cased character and not before one, in both
directions passing over marks and similar characters.
-/

namespace PromptCompiler.Text

/-- Whether a text begins with a cased character, once passed-over characters are left out. -/
def startsCased (text : Text) : Bool :=
  match text.dropWhile Unicode.isPassedOver with
  | [] => false
  | c :: _ => Unicode.isCased c

/-- The lower-case form of a text that follows a cased character, or does not. -/
def lowerAfter (cased : Bool) : Text → Text
  | [] => []
  | c :: rest =>
    let image :=
      if c.toNat = 0x3a3 then [if cased && !startsCased rest then Char.ofNat 0x3c2 else Char.ofNat 0x3c3]
      else Unicode.lower c
    image ++ lowerAfter (if Unicode.isPassedOver c then cased else Unicode.isCased c) rest

def lower (text : Text) : Text := lowerAfter false text

end PromptCompiler.Text
