import PromptCompiler.Run.Basic

/-! # Paths in the scope of a root

A root-relative path is accepted when the place without links that it stands for is the real place of
the root or lies below it. What else it must be can be demanded: that something is there, that it is
a directory, that it is none.
-/

namespace PromptCompiler

/-- What a path must lead to. -/
inductive Demand where
  /-- Anything or nothing. -/
  | none
  /-- Something. -/
  | present
  /-- A directory. -/
  | directory
  /-- Something other than a directory. -/
  | other
deriving DecidableEq, Repr

namespace FileTree

/-- The place without links that a path from the root stands for, unless following the path never
ends. -/
def resolve (tree : FileTree) (path : Path) : Except Fault Location :=
  if path.steps.any Step.holdsNul then .error (.system .embeddedNul)
  else
    let place := tree.realLocation path
    match tree.locate true (.ofLocation place) with
    | .error .tooManyLinks => .error (.linkLoop (.ofLocation place))
    | _ => .ok place

/-- What is at a path, with the refusal of the system as a fault of the run. -/
def probeInRun (tree : FileTree) (path : Path) : Except Fault (Option Entry) :=
  (tree.probe path).mapError .system

/-- Whether a demand on a path is met. -/
def meets (tree : FileTree) (path : Path) (relative : Text) (demand : Demand) : Except Fault Unit :=
  if demand = .none then .ok ()
  else do
    match ← tree.probeInRun path with
    | none => .error (.missing relative)
    | some .directory => if demand = .other then .error (.isDirectory relative) else .ok ()
    | some _ => if demand = .directory then .error (.notDirectory relative) else .ok ()

/-- The path of a root-relative path, if it stays in the root and meets a demand. -/
def resolveInRoot (tree : FileTree) (root : Path) (relative : Text) (demand : Demand) :
    Except Fault Path := do
  let normal ← (RootRelative.normalize true relative).mapError .rootRelative
  let candidate := root.join normal
  let place ← tree.resolve candidate
  let rootPlace ← tree.resolve root
  if !rootPlace.isSuffixOf place then .error (.scopeEscape normal)
  else do
    tree.meets (.ofLocation place) normal demand
    return candidate

end FileTree

end PromptCompiler
