import PromptCompiler.Text.Blank
import PromptCompiler.OrderedMap

/-! # Headers of documents

A document may begin with a header: a line of three dashes, header lines, and a second line of three
dashes. Only line feeds end lines, and blanks other than line feeds may follow the dashes. A header
line of the form key, colon, value is a field; a later field of the same key replaces the value.
-/

namespace PromptCompiler.Header

/-- The blanks that may follow the dashes of a delimiter. -/
def isTrailing (c : Char) : Bool := c == ' ' || c == '\t' || c == '\r'

/-- Whether a line opens or closes a header. -/
def isDelimiter (line : Text) : Bool := Text.dropEndWhile isTrailing line == ['-', '-', '-']

/-- The header lines of a text and the text after the header, if the text begins with a header. -/
def split? (text : Text) : Option (List Text × Text) :=
  match Text.lines text with
  | [] => none
  | first :: later =>
    if isDelimiter first then
      match later.span fun line => !isDelimiter line with
      | (_, []) => none
      | (inner, _ :: after) =>
        some (inner.map (Text.dropEndWhile (· == '\r')), Text.joinLines after)
    else none

/-- Whether a character may stand in a key. -/
def isKeyCharacter (c : Char) : Bool := c.isAlphanum || c == '_' || c == '-'

/-- The key of a line and what follows its colon, if the line begins with a key and a colon. -/
def keyed? (line : Text) : Option (Text × Text) :=
  let key := line.takeWhile isKeyCharacter
  match (line.dropWhile isKeyCharacter).dropWhile Text.isBlank with
  | ':' :: rest => if key.isEmpty then none else some (key, rest)
  | _ => none

/-- A text without one pair of equal quotes around it. -/
def unquote : Text → Text
  | [] => []
  | quote :: rest =>
    if (quote == '\'' || quote == '"') && rest.getLast? == some quote then rest.dropLast
    else quote :: rest

/-- The field that a header line stands for, if it begins with a key and a colon. -/
def field? (line : Text) : Option (Text × Text) :=
  (keyed? line).map fun (key, value) => (key, unquote (Text.trim value))

/-- The fields and the body of a document. -/
structure Parts where
  /-- The fields of the header, in the order of their first occurrence. -/
  fields : OrderedMap Text
  /-- The text after the header without leading blanks, or the whole text if there is no header. -/
  body : Text

def parts (text : Text) : Parts :=
  match split? text with
  | none => ⟨.empty, text⟩
  | some (lines, rest) => ⟨.ofList (lines.filterMap field?), Text.trimStart rest⟩

end PromptCompiler.Header
