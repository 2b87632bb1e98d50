import PromptCompiler.FileTree.Resolve

/-! # Changing a directory tree

The operations by which a run changes the tree, each on a path from the root: making directories,
writing a file, renaming an entry over another, and removing an entry. Writing follows links and
creates what a link points to; renaming and removing act on a link itself.
-/

namespace PromptCompiler.FileTree

def read (tree : FileTree) (path : Path) : Except SystemFault ByteArray := do
  match ← tree.status path with
  | .file content => .ok content
  | _ => .error .isDirectory

/-- The tree with a new directory at a path. -/
def createDirectory (tree : FileTree) (path : Path) : Except SystemFault FileTree := do
  let location ← tree.locate false path
  match tree.get? location with
  | some _ => .error .alreadyExists
  | none => .ok (tree.set location .directory)

/-- The tree in which a path leads to a directory: it is made, and so are missing parents, unless
there is one already. The number bounds how many parents are made. -/
def ensureDirectoryWithin : Nat → FileTree → Path → Except SystemFault FileTree
  | 0, _, _ => .error .notFound
  | bound + 1, tree, path =>
    match tree.createDirectory path with
    | .ok made => .ok made
    | .error .notFound => do
      if path.steps = [] then .error .notFound
      let parents ← ensureDirectoryWithin bound tree path.parent
      match parents.createDirectory path with
      | .ok made => .ok made
      | .error fault => do if ← parents.isDirectory path then .ok parents else .error fault
    | .error fault => do if ← tree.isDirectory path then .ok tree else .error fault

/-- The tree in which a path leads to a directory, made with its parents if need be. -/
def ensureDirectory (tree : FileTree) (path : Path) : Except SystemFault FileTree :=
  ensureDirectoryWithin (path.steps.length + 1) tree path

/-- The tree that is left where making a directory is refused: parents that were made before stay. -/
def refusedWithin : Nat → FileTree → Path → FileTree
  | 0, tree, _ => tree
  | bound + 1, tree, path =>
    match tree.createDirectory path with
    | .error .notFound =>
      match ensureDirectoryWithin bound tree path.parent with
      | .ok parents => parents
      | .error _ => refusedWithin bound tree path.parent
    | _ => tree

/-- The tree that is left where making a directory with its parents is refused. -/
def refused (tree : FileTree) (path : Path) : FileTree := refusedWithin (path.steps.length + 1) tree path

/-- The tree in which the file that a path leads to has the given bytes; it is made if missing. -/
def write (tree : FileTree) (path : Path) (content : ByteArray) : Except SystemFault FileTree := do
  let location ← tree.locate true path
  match tree.get? location with
  | some .directory => .error .isDirectory
  | _ => .ok (tree.set location (.file content))

/-- The tree with an entry other than a directory moved over what is at another path, which must not
be a directory. -/
def rename (tree : FileTree) (source target : Path) : Except SystemFault FileTree := do
  let origin ← tree.locate false source
  let goal ← tree.locate false target
  match tree.get? origin, tree.get? goal with
  | none, _ => .error .notFound
  | some _, some .directory => .error .isDirectory
  | some entry, _ => .ok ((tree.erase origin).set goal entry)

/-- The tree without the entry, other than a directory, that a path leads to. -/
def remove (tree : FileTree) (path : Path) : Except SystemFault FileTree := do
  let location ← tree.locate false path
  match tree.get? location with
  | none => .error .notFound
  | some .directory => .error .isDirectory
  | some _ => .ok (tree.erase location)

end PromptCompiler.FileTree
