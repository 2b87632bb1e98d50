import PromptCompiler.Header.Basic
import PromptCompiler.Text.LowerCase
import PromptCompiler.Text.Quoted

/-! # Tool declarations

A header declares tools under `allowed-tools` or `tools`: either on the line of the key, separated by
commas and optionally in brackets, or one to a line in the block of lines below it. The block ends
at a blank line or a line with a key. A line of the block that is no item is an anomaly.
-/

namespace PromptCompiler

/-- A line in a block of tools that is no item. -/
structure Anomaly where
  /-- The number of the line in the header, from one. -/
  lineNumber : Nat
  line : Text
deriving DecidableEq

namespace Anomaly

/-- What is wrong with the line. -/
def message : Text := "unexpected line in tools block".toList

/-- The warning for a document of the given label. -/
def render (anomaly : Anomaly) (label : Text) : Text :=
  label ++ ": line ".toList ++ Text.ofNat anomaly.lineNumber ++ ": ".toList ++ message ++ ": ".toList ++
    Text.quoted anomaly.line

end Anomaly

/-- The tools that a header declares. -/
structure ToolDeclaration where
  /-- The names as written, if there is a declaration. -/
  names : Option (List Text)
  /-- The lines of the block that are no items. -/
  anomalies : List Anomaly
deriving DecidableEq

namespace ToolDeclaration

def lowered (declaration : ToolDeclaration) : Option (List Text) :=
  declaration.names.map (·.map Text.lower)

/-- The items of a list on one line: between commas, trimmed, in optional brackets, empty ones left out. -/
def inlineItems (text : Text) : List Text :=
  let trimmed := Text.trim text
  let opened := if trimmed.head? = some '[' then trimmed.tail else trimmed
  let inner := if opened.getLast? = some ']' then opened.dropLast else opened
  ((inner.splitOn ',').map Text.trim).filter (· ≠ [])

/-- The keys under which tools are declared. -/
def keys : List Text := ["allowed-tools".toList, "tools".toList]

/-- What follows the colon on a line whose key declares tools. -/
def value? (line : Text) : Option Text :=
  (Header.keyed? line).bind fun (key, value) => if key ∈ keys then some value else none

/-- What a line of a block of tools is. -/
inductive BlockLine where
  | item (name : Text)
  /-- An item without a name. -/
  | blankItem
  /-- No item. -/
  | stray
deriving DecidableEq

/-- An item is indented, and a dash and a blank stand before its name; two blanks may stand for both. -/
def classify (line : Text) : BlockLine :=
  match line.span Text.isBlank with
  | (_ :: _, '-' :: rest) =>
    match rest.span Text.isBlank with
    | ([], _) => .stray
    | (_, name@(_ :: _)) => .item (Text.trimEnd name)
    | ([_], []) => .stray
    | (_ :: _ :: _, []) => .blankItem
  | _ => .stray

/-- Whether a line belongs to the block of tools above it. -/
def continues (line : Text) : Bool := Text.trim line ≠ [] && (Header.keyed? line).isNone

def itemName? (line : Text × Nat) : Option Text :=
  match classify line.1 with
  | .item name => some name
  | _ => none

def anomaly? (line : Text × Nat) : Option Anomaly :=
  match classify line.1 with
  | .stray => some ⟨line.2, line.1⟩
  | _ => none

/-- The declaration in the lines of a header; the first line with a declaring key counts. -/
def ofLines (lines : List Text) : ToolDeclaration :=
  match (lines.zipIdx 1).dropWhile fun line => (value? line.1).isNone with
  | [] => ⟨none, []⟩
  | line :: later =>
    let inline := Text.trim ((value? line.1).getD [])
    if inline ≠ [] then ⟨some (inlineItems inline), []⟩
    else
      let block := later.takeWhile fun line => continues line.1
      ⟨some (block.filterMap itemName?), block.filterMap anomaly?⟩

def ofText (text : Text) : ToolDeclaration :=
  match Header.split? text with
  | none => ⟨none, []⟩
  | some (lines, _) => ofLines lines

end ToolDeclaration

end PromptCompiler
