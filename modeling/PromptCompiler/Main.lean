import PromptCompiler.CommandLine.Program

/-! # Entry point

The entry point reads the part of the directory tree that a call is about, runs the program on it,
prints what the program printed, and carries its changes over to the disk.

That part is everything below the project root that the call names, and what lies in each directory
above it. A link is read as a link to the place that it leads to in the end; one that leads nowhere is
read as a link to itself.
-/

namespace PromptCompiler.Disk

/-- A path as the system takes it. -/
def file (path : Path) := do return (← IO.currentDir) / String.ofList path.text

def names (directory : Path) : IO (List Name) := do
  let entries ← (← file directory).readDir
  return entries.toList.filterMap fun entry => Name.ofText? entry.fileName.toList

/-- A tree with what is at a path and, if wanted, everything below it; what cannot be read is left out. -/
partial def read (deep : Bool) (tree : FileTree) (path : Path) : IO FileTree := do
  let place := path.location
  try
    match (← (← file path).symlinkMetadata).type with
    | .dir =>
      let tree := if tree.isDirectoryAt place then tree else tree.set place .directory
      if deep then (← names path).foldlM (fun tree name => read true tree (path.child name)) tree
      else return tree
    | .symlink =>
      let target ← try pure (← IO.FS.realPath (← file path)).toString.toList catch _ => pure path.text
      return tree.set place (.link target)
    | _ =>
      let content ← if deep then IO.FS.readBinFile (← file path) else pure .empty
      return tree.set place (.file content)
  catch _ => return tree

/-- A tree with the directory at a place and what lies in it. -/
def readDirectory (tree : FileTree) (place : Location) : IO FileTree := do
  let path := Path.ofLocation place
  let found ← try names path catch _ => pure []
  found.foldlM (fun tree name => read false tree (path.child name))
    (if tree.isDirectoryAt place then tree else tree.set place .directory)

/-- The directories above a place and what lies in them. -/
def readAbove : Location → IO FileTree
  | [] => return .empty
  | _ :: outer => do readDirectory (← readAbove outer) outer

/-- The part of the tree that a call about a project root is run on. -/
def readAround (root : Location) : IO FileTree := do
  read true (← readAbove root) (.ofLocation root)

/-- The changes from one tree to another carried over to the disk. -/
def apply (before after : FileTree) : IO Unit := do
  for (place, entry) in after.entries.reverse do
    unless before.get? place = some entry do
      let target ← file (.ofLocation place)
      match entry with
      | .directory => IO.FS.createDirAll target
      | .file content => IO.FS.writeBinFile target content
      | .link _ => return
  for (place, entry) in before.entries do
    if after.get? place = none ∧ entry ≠ .directory then
      IO.FS.removeFile (← file (.ofLocation place))

end PromptCompiler.Disk

open PromptCompiler in
def main (arguments : List String) : IO UInt32 := do
  let arguments := arguments.map String.toList
  let current := Path.ofText (← IO.currentDir).toString.toList
  let named ← Disk.file (current.join (CommandLine.namedRoot arguments))
  let root ← try pure (Path.ofText (← IO.FS.realPath named).toString.toList) catch _ => pure current
  let before ← Disk.readAround root.location
  let (ending, world) := (CommandLine.program current.location arguments).run ⟨before, [], []⟩
  Disk.apply before world.tree
  (← IO.getStdout).putStr (String.ofList world.output)
  (← IO.getStderr).putStr (String.ofList world.complaints)
  match ending with
  | .returned code | .stopped code => return UInt32.ofNat code
