import PromptCompiler.Text.Basic

/-! # Blank characters

Blanks are the characters that separate words: the space, the controls that move the carriage or
separate records, and the space separators, line separator and paragraph separator of Unicode.
-/

namespace PromptCompiler.Text

/-- Whether a character separates words. -/
def isBlank (c : Char) : Bool :=
  let code := c.toNat
  (0x09 ≤ code && code ≤ 0x0d) || (0x1c ≤ code && code ≤ 0x20) || code == 0x85 || code == 0xa0 ||
    code == 0x1680 || (0x2000 ≤ code && code ≤ 0x200a) || code == 0x2028 || code == 0x2029 ||
    code == 0x202f || code == 0x205f || code == 0x3000

/-- The blanks that stay on a line: the space and the tab. -/
def isLineBlank (c : Char) : Bool := c == ' ' || c == '\t'

def trimStart (text : Text) : Text := text.dropWhile isBlank

def trimEnd (text : Text) : Text := dropEndWhile isBlank text

def trim (text : Text) : Text := trimEnd (trimStart text)

/-- The text without leading and trailing characters of a class. -/
def trimOf (dropped : Char → Bool) (text : Text) : Text :=
  dropEndWhile dropped (text.dropWhile dropped)

end PromptCompiler.Text
