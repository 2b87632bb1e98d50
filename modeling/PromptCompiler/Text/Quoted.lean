import PromptCompiler.Text.Basic
import PromptCompiler.Unicode.Printable

/-! # Quoted texts

A text is shown in messages between quotes, with everything escaped that a reader could not see.
Single quotes are used unless the text holds a single quote and no double one.
-/

namespace PromptCompiler.Text

/-- The hexadecimal numeral of a number, padded with zeros on the left. -/
def hex (width n : Nat) : Text :=
  let digits := Nat.toDigits 16 n
  List.replicate (width - digits.length) '0' ++ digits

/-- A character between given quotes: escaped if it is a backslash, the quote or not printable. -/
def escaped (quote c : Char) : Text :=
  if c = '\\' || c = quote then ['\\', c]
  else if c = '\n' then ['\\', 'n']
  else if c = '\r' then ['\\', 'r']
  else if c = '\t' then ['\\', 't']
  else if Unicode.isPrintable c then [c]
  else if c.toNat < 0x100 then '\\' :: 'x' :: hex 2 c.toNat
  else if c.toNat < 0x10000 then '\\' :: 'u' :: hex 4 c.toNat
  else '\\' :: 'U' :: hex 8 c.toNat

def quoted (text : Text) : Text :=
  let quote := if text.contains '\'' && !text.contains '"' then '"' else '\''
  quote :: text.flatMap (escaped quote) ++ [quote]

end PromptCompiler.Text
