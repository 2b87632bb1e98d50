import PromptCompiler.FileTree.Effects
import PromptCompiler.Json.Basic
import PromptCompiler.Path.RootRelative
import PromptCompiler.Text.Quoted

/-! # Runs

A run changes a directory tree and prints to two streams; it ends with a result or with a fault, and
what it has changed and printed up to a fault stays. This module holds the faults with their wording
and the steps that runs are made of.
-/

namespace PromptCompiler

/-- Why a file is no tool table. -/
inductive TableFault where
  /-- The file cannot be read. -/
  | unreadable (fault : SystemFault)
  | notUtf8
  | notJson
  /-- The reader gives the file up. -/
  | stopped (stop : Json.Stop)
  | notObject
  /-- The value of a key is not a text. -/
  | notText (key : Text)
deriving DecidableEq

/-- Why a run ends without a result. -/
inductive Fault where
  /-- A text is not a root-relative path. -/
  | rootRelative (fault : RootRelativeFault)
  /-- A root-relative path leads out of the root. -/
  | scopeEscape (path : Text)
  /-- A path that must lead to something does not. -/
  | missing (path : Text)
  /-- A path that must lead to a directory does not. -/
  | notDirectory (path : Text)
  /-- A path that must not lead to a directory does. -/
  | isDirectory (path : Text)
  /-- A file that must hold a text is not UTF-8. -/
  | notUtf8 (label : Text)
  /-- The tool table cannot be loaded. -/
  | table (path : Path) (fault : TableFault)
  /-- The reader gives up the comment of an artifact. -/
  | stopped (stop : Json.Stop)
  /-- The system refuses an operation. -/
  | system (fault : SystemFault)
  /-- A path leads back to itself through links. -/
  | linkLoop (path : Path)
  | rootNotDirectory (root : Text)
deriving DecidableEq

def notUtf8Message (label : Text) : Text := "non-UTF8 content not allowed: ".toList ++ label

def TableFault.message (path : Path) : TableFault → Text
  | .unreadable fault => "failed to parse tool map ".toList ++ path.text ++ ": ".toList ++ fault.message
  | .notUtf8 => "failed to parse tool map ".toList ++ path.text ++ ": ".toList ++ notUtf8Message path.name
  | .notJson => "failed to parse tool map ".toList ++ path.text ++ ": not a JSON text".toList
  | .stopped stop => stop.message
  | .notObject => "tool map must be a JSON object: ".toList ++ path.text
  | .notText key =>
    "tool map value for ".toList ++ Text.quoted key ++ " must be a string: ".toList ++ path.text

def Fault.message : Fault → Text
  | .rootRelative fault => fault.message
  | .scopeEscape path => "scope escape: ".toList ++ path
  | .missing path => "missing path in scope: ".toList ++ path
  | .notDirectory path => "expected directory but found file: ".toList ++ path
  | .isDirectory path => "expected file but found directory: ".toList ++ path
  | .notUtf8 label => notUtf8Message label
  | .table path fault => fault.message path
  | .stopped stop => stop.message
  | .system fault => fault.message
  | .linkLoop path => "Symlink loop from ".toList ++ Text.quoted path.text
  | .rootNotDirectory root => "--repo is not a directory: ".toList ++ root

/-- What a run works on. -/
structure World where
  tree : FileTree
  /-- What has been printed. -/
  output : Text
  /-- What has been printed to the stream for warnings and errors. -/
  complaints : Text

/-- A computation that changes the world and may end with a fault. -/
abbrev Run := ExceptT Fault (StateM World)

namespace Run

def currentTree : Run FileTree := return (← get).tree

/-- The answer of the system to a question about the tree as it is now. -/
def ask {α : Type} (question : FileTree → Except SystemFault α) : Run α := do
  match question (← currentTree) with
  | .ok answer => return answer
  | .error fault => throw (.system fault)

/-- A change of the tree, unless the system refuses it. -/
def change (operation : FileTree → Except SystemFault FileTree) : Run Unit := do
  let tree ← ask operation
  modify fun world => { world with tree := tree }

/-- A directory is made at a path with its missing parents, unless there is one. Parents that are made before
the system refuses stay. -/
def ensureDirectory (path : Path) : Run Unit := do
  let tree ← currentTree
  match tree.ensureDirectory path with
  | .ok made => modify fun world => { world with tree := made }
  | .error fault =>
    modify fun world => { world with tree := tree.refused path }
    throw (.system fault)

def print (line : Text) : Run Unit :=
  modify fun world => { world with output := world.output ++ line ++ ['\n'] }

/-- A line is printed to the stream for warnings and errors. -/
def complain (line : Text) : Run Unit :=
  modify fun world => { world with complaints := world.complaints ++ line ++ ['\n'] }

def readText (path : Path) : Run Text := do
  let content ← ask (·.read path)
  match Text.ofUtf8? content with
  | some text => return text
  | none => throw (.notUtf8 path.name)

/-- The file at a path gets a new text: it is written beside the file under a name with the given
ending, which is then moved over the file. -/
def replaceText (path : Path) (ending text : Text) : Run Unit := do
  let beside := path.withNameSuffix ending
  change (·.write beside text.utf8)
  change (·.rename beside path)

end Run

end PromptCompiler
