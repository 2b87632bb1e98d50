import PromptCompiler.Artifact.Name
import PromptCompiler.Run.Scope

/-! # Layout of a project

A project keeps its sources in one directory, its artifacts in another, and its tool table in a
file. Listings follow links and are in increasing order of names; a directory that is not there has
no files.
-/

namespace PromptCompiler

/-- Where a project keeps its files. -/
structure Layout where
  root : Path
  /-- The directory of the sources. -/
  commands : Path
  /-- The directory of the artifacts. -/
  prompts : Path
  table : Path
deriving DecidableEq

namespace Layout

def defaultCommands : Text := "commands/gsd".toList

def defaultPrompts : Text := ".github/prompts".toList

def defaultTable : Text := "scripts/tools.json".toList

def ofRoot (root : Path) : Layout where
  root := root
  commands := root.join defaultCommands
  prompts := root.join defaultPrompts
  table := root.join defaultTable

end Layout

namespace FileTree

def files (tree : FileTree) (directory : Path) : Except SystemFault (List Name) := do
  if ← tree.isDirectory directory then
    let place ← tree.locate true directory
    (tree.names place).filterM fun name => tree.isFile (directory.child name)
  else return []

def sources (tree : FileTree) (directory : Path) : Except SystemFault (List Name) :=
  (tree.files directory).map (·.filter fun name => Artifact.isSource name.text)

def artifacts (tree : FileTree) (directory : Path) : Except SystemFault (List Name) :=
  (tree.files directory).map (·.filter fun name => Artifact.isArtifact name.text)

end FileTree

end PromptCompiler
