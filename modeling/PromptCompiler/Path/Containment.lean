import PromptCompiler.Path.Basic

/-! # Paths relative to a root

A path from the root of the tree is written relative to a directory: steps up for what only the
directory has, then the names of the target. Separators in the answer are slashes, so a backslash in
a name is written as one. A target whose relative path begins with a step up is outside.
-/

namespace PromptCompiler

namespace Location

/-- The steps from one place to another, both given outermost name first. -/
def stepsBetween : List Name → List Name → List Step
  | a :: root, b :: target =>
    if a = b then stepsBetween root target
    else List.replicate (root.length + 1) .up ++ (b :: target).map .into
  | root, target => List.replicate root.length .up ++ target.map .into

end Location

namespace Path

/-- The text of a target relative to a root. -/
def relativeText (root target : Path) : Text :=
  match Location.stepsBetween root.location.reverse target.location.reverse with
  | [] => ['.']
  | steps => Text.substitute '\\' '/' (['/'].intercalate (steps.map Step.text))

/-- The text of a target relative to a root, if it does not lead out of the root. -/
def within? (root target : Path) : Option Text :=
  let text := relativeText root target
  if text = ['.', '.'] || ['.', '.', '/'].isPrefixOf text then none else some text

/-- The text of a target relative to a root, or its own text if it is outside. -/
def relativeOrOwn (root target : Path) : Text := (within? root target).getD target.text

end Path

end PromptCompiler
