import PromptCompiler.Text.Quoted

/-! # Writing JSON

Strings are written with as few escapes as the grammar allows: only the quote, the backslash and the
control characters are escaped, everything else stands for itself. Lists are written without blanks;
objects get one member to a line.
-/

namespace PromptCompiler.Json

/-- A character inside a string. -/
def escaped (c : Char) : Text :=
  if c = '"' then ['\\', '"']
  else if c = '\\' then ['\\', '\\']
  else if c = '\n' then ['\\', 'n']
  else if c = '\r' then ['\\', 'r']
  else if c = '\t' then ['\\', 't']
  else if c = '\x08' then ['\\', 'b']
  else if c = '\x0c' then ['\\', 'f']
  else if c.toNat < 0x20 then '\\' :: 'u' :: Text.hex 4 c.toNat
  else [c]

def ofText (text : Text) : Text := '"' :: text.flatMap escaped ++ ['"']

/-- Texts as an array, without blanks. -/
def ofTexts (texts : List Text) : Text := '[' :: [','].intercalate (texts.map ofText) ++ [']']

/-- A member of an object: two blanks of indentation, the key, a colon and a blank, the value. -/
def ofMember (entry : Text × Text) : Text :=
  ' ' :: ' ' :: ofText entry.1 ++ ':' :: ' ' :: ofText entry.2

/-- Entries as an object, one member to a line. -/
def ofEntries : List (Text × Text) → Text
  | [] => ['{', '}']
  | entries => '{' :: '\n' :: [',', '\n'].intercalate (entries.map ofMember) ++ ['\n', '}']

end PromptCompiler.Json
