import PromptCompiler.Text.Basic
import PromptCompiler.Unicode.WordCharacter

/-! # Runtime directories

Some directories of the runtimes are written from the home directory or from the root. Both become
paths from the workspace: a tilde before such a directory becomes a dot, and a dot is put before the
slash of one that stands on its own.
-/

namespace PromptCompiler.RuntimePaths

/-- The runtimes with a directory of their own. -/
def runtimes : List Text := ["claude".toList, "opencode".toList, "gemini".toList]

/-- Whether a text begins with the directory of a runtime, between slashes. -/
def startsDirectory (text : Text) : Bool :=
  runtimes.any fun runtime => ('/' :: '.' :: runtime ++ ['/']).isPrefixOf text

/-- Whether a slash after the given character continues what the character belongs to. -/
def glues (c : Char) : Bool :=
  Unicode.isWord c || c == '.' || c == '/' || c == '~' || c == '-'

/-- Home directories of runtimes become paths from the workspace. -/
def fromHome : Text → Text
  | [] => []
  | c :: rest => (if c = '~' ∧ startsDirectory rest then '.' else c) :: fromHome rest

/-- Root directories of runtimes become paths from the workspace, in a text after a character. -/
def fromRootAfter (previous : Option Char) : Text → Text
  | [] => []
  | c :: rest =>
    if startsDirectory (c :: rest) ∧ previous.all (!glues ·) then '.' :: c :: fromRootAfter (some c) rest
    else c :: fromRootAfter (some c) rest

/-- A text with the directories of runtimes as paths from the workspace. -/
def normalize (text : Text) : Text := fromRootAfter none (fromHome text)

end PromptCompiler.RuntimePaths
