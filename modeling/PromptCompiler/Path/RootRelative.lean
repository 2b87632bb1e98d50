import PromptCompiler.Text.Basic

/-! # Root-relative paths

Paths in options are given relative to the project root. They are written with slashes, may not
leave the root by their text, and are brought into a normal form: pieces between slashes that are
neither empty nor dots.
-/

namespace PromptCompiler

/-- Why a text is not a root-relative path. -/
inductive RootRelativeFault where
  /-- There is no text. -/
  | missing
  /-- The text holds the character that ends paths in the system. -/
  | nul
  /-- The text holds a backslash where slashes alone separate. -/
  | separator
  | absolute
  /-- The second character of the text is a colon. -/
  | drive
  | empty
  | parent
deriving DecidableEq, Repr

def RootRelativeFault.message : RootRelativeFault → Text
  | .missing => "path missing/empty".toList
  | .nul => "path contains NUL".toList
  | .separator => "path must use '/' separators".toList
  | .absolute => "absolute paths are not allowed".toList
  | .drive => "drive-qualified paths are not allowed".toList
  | .empty => "empty path not allowed".toList
  | .parent => "path must not contain '..' segments".toList

namespace RootRelative

/-- The pieces between slashes that name something. -/
def pieces (text : Text) : List Text :=
  (text.splitOn '/').filter fun piece => piece ≠ [] && piece ≠ ['.']

/-- The normal form of a root-relative path whose separators are slashes. -/
def ofSlashed (text : Text) : Except RootRelativeFault Text :=
  if ['/'].isPrefixOf text then .error .absolute
  else if text[1]? = some ':' then .error .drive
  else if pieces text = [] then .error .empty
  else if ['.', '.'] ∈ pieces text then .error .parent
  else .ok (['/'].intercalate (pieces text))

/-- The normal form of a root-relative path; backslashes, where allowed, are read as slashes. -/
def normalize (allowBackslashes : Bool) (text : Text) : Except RootRelativeFault Text :=
  if text = [] then .error .missing
  else if '\x00' ∈ text then .error .nul
  else if '\\' ∈ text && !allowBackslashes then .error .separator
  else ofSlashed (Text.substitute '\\' '/' text)

end RootRelative

end PromptCompiler
