import PromptCompiler.FileTree.Basic
import PromptCompiler.Text.Utf8

/-! # Following paths through a directory tree

Two ways to follow a path. `locate` takes it step by step as the system does: every step needs a
directory to start from, names have a greatest length, and links are followed up to a greatest
number. `realLocation` finds the place without links that a path stands for, whether or not it is
there: what is missing is added as written, and so is what follows a link that leads back to itself.
-/

namespace PromptCompiler

/-- Why the system refuses an operation on a path. -/
inductive SystemFault where
  | notFound
  | alreadyExists
  | notDirectory
  | isDirectory
  | nameTooLong
  | tooManyLinks
  /-- The path holds the character that ends paths in the system. -/
  | embeddedNul
deriving DecidableEq, Repr

def SystemFault.message : SystemFault → Text
  | .notFound => "[Errno 2] No such file or directory".toList
  | .alreadyExists => "[Errno 17] File exists".toList
  | .notDirectory => "[Errno 20] Not a directory".toList
  | .isDirectory => "[Errno 21] Is a directory".toList
  | .nameTooLong => "[Errno 36] File name too long".toList
  | .tooManyLinks => "[Errno 40] Too many levels of symbolic links".toList
  | .embeddedNul => "embedded null byte".toList

/-- Whether a name holds the character that ends paths in the system. -/
def Step.holdsNul (step : Step) : Bool := step.text.contains '\x00'

/-- The greatest number of bytes in a name. -/
def Name.sizeLimit : Nat := 255

/-- The greatest number of links that are followed for one path. -/
def linkLimit : Nat := 40

/-- Where the target of a link starts, for a link in a given directory. -/
def Location.linkStart (directory : Location) (target : Text) : Location :=
  if ['/'].isPrefixOf target then [] else directory

namespace FileTree

def isDirectoryAt (tree : FileTree) (location : Location) : Bool :=
  tree.get? location == some .directory

/-- Whether the target of a link asks for a directory, by a slash or a dot at its end. -/
def wantsDirectory (target : Text) : Bool :=
  match (target.splitOn '/').getLast? with
  | some last => last == [] || last == ['.']
  | none => false

/-- One step after the other from a directory. Only the last step may lead to a file or to a free name,
and a link in the last place is itself the result unless links are to be followed; every other link is
handed over with the remaining steps. -/
def walk (tree : FileTree) (follow : Bool)
    (jump : Location → Text → List Step → Except SystemFault Location) :
    Location → List Step → Except SystemFault Location
  | here, [] => .ok here
  | here, .up :: rest => walk tree follow jump here.tail rest
  | here, .into name :: rest =>
    if Name.sizeLimit < name.text.utf8.size then .error .nameTooLong
    else match tree.get? (name :: here) with
      | some .directory => walk tree follow jump (name :: here) rest
      | some (.link target) =>
        if rest.isEmpty && !follow then .ok (name :: here) else jump here target rest
      | some (.file _) => if rest.isEmpty then .ok (name :: here) else .error .notDirectory
      | none => if rest.isEmpty then .ok (name :: here) else .error .notFound

/-- A walk that may follow fewer than a given number of links. -/
def walkWithin (tree : FileTree) (follow : Bool) :
    Nat → Location → List Step → Except SystemFault Location
  | 0, _, _ => .error .tooManyLinks
  | budget + 1, here, steps =>
    tree.walk follow
      (fun directory target rest => do
        let there ← walkWithin tree follow budget (Location.linkStart directory target)
          (stepsOf target ++ rest)
        if rest.isEmpty && wantsDirectory target && !tree.isDirectoryAt there then
          .error (if (tree.get? there).isSome then .notDirectory else .notFound)
        else .ok there)
      here steps

/-- The place that a path from the root leads to; its last name may be free. -/
def locate (tree : FileTree) (follow : Bool) (path : Path) : Except SystemFault Location :=
  if path.steps.any Step.holdsNul then .error .embeddedNul
  else tree.walkWithin follow (linkLimit + 1) [] path.steps

/-- What a path leads to, links followed. -/
def status (tree : FileTree) (path : Path) : Except SystemFault Entry := do
  let location ← tree.locate true path
  match tree.get? location with
  | some entry => .ok entry
  | none => .error .notFound

/-- Whether a path leads to something. -/
def present (tree : FileTree) (path : Path) : Bool := (tree.status path).isOk

/-- What a path leads to, if anything; a name that is too long is not passed over. -/
def probe (tree : FileTree) (path : Path) : Except SystemFault (Option Entry) :=
  match tree.status path with
  | .ok entry => .ok (some entry)
  | .error .nameTooLong => .error .nameTooLong
  | .error _ => .ok none

def isDirectory (tree : FileTree) (path : Path) : Except SystemFault Bool :=
  (tree.probe path).map (· == some .directory)

def isFile (tree : FileTree) (path : Path) : Except SystemFault Bool :=
  (tree.probe path).map fun
    | some (.file _) => true
    | _ => false

/-! ## Places without links -/

/-- The place that steps lead to when each link stands for the place that a given function finds for
it; the steps after a link without such a place are taken by their text. -/
def resolveSteps (tree : FileTree) (find : Location → Text → Bool × Location) :
    Location → List Step → Bool × Location
  | here, [] => (true, here)
  | here, .up :: rest => resolveSteps tree find here.tail rest
  | here, .into name :: rest =>
    match tree.get? (name :: here) with
    | some (.link target) =>
      match find (name :: here) target with
      | (true, there) => resolveSteps tree find there rest
      | (false, there) => (false, there.after rest)
    | _ => resolveSteps tree find (name :: here) rest

/-- The place that steps lead to while some links are being resolved; one of those met again is left
as it is. Every call resolves one more link, so there are at most as many as entries. -/
def resolveWithin (tree : FileTree) : Nat → List Location → Location → List Step → Bool × Location
  | 0, _, here, steps => (false, here.after steps)
  | depth + 1, pending, here, steps =>
    tree.resolveSteps
      (fun link target =>
        if link ∈ pending then (false, link)
        else resolveWithin tree depth (link :: pending) (Location.linkStart link.tail target)
          (stepsOf target))
      here steps

/-- The place without links that a path from the root stands for. -/
def realLocation (tree : FileTree) (path : Path) : Location :=
  (tree.resolveWithin (tree.entries.length + 1) [] [] path.steps).2

end FileTree

end PromptCompiler
