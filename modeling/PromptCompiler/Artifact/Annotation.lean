import PromptCompiler.Artifact.Name
import PromptCompiler.Header.ToolDeclaration
import PromptCompiler.Json.Reader
import PromptCompiler.Json.Writer

/-! # What an artifact says about tools

An artifact carries the tools that its source declares, as written, in a comment that an audit reads
back; the omitted tools in a second comment; and the mapped tools in the `tools` field of its header.
-/

namespace PromptCompiler.Artifact

/-! ## Writing -/

/-- The comment with the tools that a source declares, or that it declares none. -/
def declaredComment : Option (List Text) → Text
  | none => "<!-- upstream-tools: null (field absent in upstream command) -->".toList
  | some names => "<!-- upstream-tools: ".toList ++ Json.ofTexts names ++ " -->".toList

/-- The comment with the omitted tools; empty if none is omitted. -/
def omittedComment (names : List Text) : Text :=
  if names = [] then []
  else "<!-- omitted-tools: ".toList ++ Json.ofTexts names ++ " (no Copilot equivalent found) -->".toList

/-- The header line with the mapped tools; empty if the source declares none. -/
def toolsLine (declared : Option (List Text)) (tools : List Text) : Text :=
  if declared.isNone then []
  else "tools: [".toList ++ Text.listed (tools.map fun tool => '\'' :: tool ++ ['\'']) ++ [']']

/-! ## Reading -/

/-- The beginning of the comment of a source that declares no tools. -/
def absentMark : Text := "<!-- upstream-tools: null".toList

/-- The beginning of the comment with declared tools, up to the bracket. -/
def declaredMark : Text := "<!-- upstream-tools: [".toList

/-- What follows the bracket that closes the list. -/
def closingMark : Text := "] -->".toList

/-- The text before the first closing bracket of a comment that stands on the same line. -/
def upToClosing : Text → Option Text
  | [] => none
  | c :: rest =>
    if closingMark.isPrefixOf (c :: rest) then some []
    else if c = '\n' then none
    else (upToClosing rest).map (c :: ·)

/-- The list in the first comment with declared tools, brackets included. -/
def declaredList? : Text → Option Text
  | [] => none
  | c :: rest =>
    if declaredMark.isPrefixOf (c :: rest) then
      match upToClosing ((c :: rest).drop declaredMark.length) with
      | some inner => some ('[' :: inner ++ [']'])
      | none => declaredList? rest
    else declaredList? rest

/-- The calls that are open when the list in a comment is read. -/
def commentCalls : Nat := 10

/-- The texts of a list in a comment; nothing if it is no list of strings. -/
def listedTexts? (list : Text) : Except Json.Stop (Option (List Text)) :=
  match Json.read commentCalls list with
  | .ok value => value.texts?
  | .error .malformed => .ok none
  | .error (.tooDeep container) => .error (.tooDeep container)

/-- The declared tools that an artifact records; nothing if the source declares none, or if there is no
comment with a list of texts. -/
def declaredTools? (content : Text) : Except Json.Stop (Option (List Text)) :=
  if Text.occursIn absentMark content then .ok none
  else (declaredList? content).elim (.ok none) listedTexts?

def isQuote (c : Char) : Bool := c == '\'' || c == '"'

/-- The tools in the header of an artifact, without quotes, if it has the field. -/
def tools? (content : Text) : Option (List Text) :=
  ((Header.parts content).fields.get? "tools".toList).map fun value =>
    (ToolDeclaration.inlineItems value).map (Text.trimOf isQuote)

end PromptCompiler.Artifact
