import PromptCompiler.Text.Basic

/-! # Paths

A path says where it starts and which steps it takes. Empty pieces and single dots between slashes
are no steps, two dots are a step up, and any other piece is a step into the entry of that name. A
path that begins with exactly two slashes is kept apart from one that begins with one.

A location is a place in a directory tree, given by the names that lead to it, the innermost first;
the root is the empty list. `Path.location` follows a path by its text alone, so that a step up takes
back the step before it and stays at the root.
-/

namespace PromptCompiler

/-- The name of an entry in a directory. -/
structure Name where
  text : Text
  /-- A name is not empty, is no mark for a directory itself or its parent, and holds no slash. -/
  proper : text ≠ [] ∧ text ≠ ['.'] ∧ text ≠ ['.', '.'] ∧ '/' ∉ text
deriving DecidableEq

theorem Name.ext {first second : Name} (same : first.text = second.text) : first = second := by
  cases first; cases second; cases same; rfl

/-- The entry of a given name, if the text can be a name. -/
def Name.ofText? (text : Text) : Option Name :=
  if proper : text ≠ [] ∧ text ≠ ['.'] ∧ text ≠ ['.', '.'] ∧ '/' ∉ text then some ⟨text, proper⟩
  else none

@[simp] theorem Name.ofText?_text (name : Name) : Name.ofText? name.text = some name :=
  dif_pos name.proper

inductive Step where
  /-- Into the directory that holds the current place. -/
  | up
  | into (name : Name)
deriving DecidableEq

namespace Step

def text : Step → Text
  | .up => ['.', '.']
  | .into name => name.text

/-- The step that a piece between slashes stands for. -/
def ofPiece? (piece : Text) : Option Step :=
  if piece = ['.', '.'] then some .up else (Name.ofText? piece).map .into

@[simp] theorem ofPiece?_text (step : Step) : ofPiece? step.text = some step := by
  cases step with
  | up => rfl
  | into name => simp [ofPiece?, text, name.proper.2.2.1]

end Step

def stepsOf (text : Text) : List Step := (text.splitOn '/').filterMap Step.ofPiece?

/-- A place in a directory tree, by the names that lead to it, the innermost first. -/
abbrev Location := List Name

namespace Location

/-- The place that steps lead to by their text alone; the root is its own parent. -/
def after (here : Location) : List Step → Location
  | [] => here
  | .up :: rest => after here.tail rest
  | .into name :: rest => after (name :: here) rest

/-- The steps from the root to a place. -/
def steps (location : Location) : List Step := location.reverse.map Step.into

end Location

/-- Where a path starts. -/
inductive Anchor where
  /-- At the place that the reader of the path has in mind. -/
  | here
  /-- At the root. -/
  | root
  /-- At the root, written with two slashes. -/
  | doubledRoot
deriving DecidableEq

/-- The slashes that a path begins with. -/
def Anchor.text : Anchor → Text
  | .here => []
  | .root => ['/']
  | .doubledRoot => ['/', '/']

def Anchor.ofText : Text → Anchor
  | '/' :: '/' :: '/' :: _ => .root
  | '/' :: '/' :: _ => .doubledRoot
  | '/' :: _ => .root
  | _ => .here

/-- A way through a directory tree. -/
structure Path where
  anchor : Anchor
  steps : List Step
deriving DecidableEq

namespace Path

def ofText (text : Text) : Path := ⟨Anchor.ofText text, stepsOf text⟩

/-- The text of a path; the path without anchor and steps is a dot. -/
def text (path : Path) : Text :=
  match path.anchor, path.steps with
  | .here, [] => ['.']
  | anchor, steps => anchor.text ++ ['/'].intercalate (steps.map Step.text)

def ofLocation (location : Location) : Path := ⟨.root, location.steps⟩

/-- A path read from where another leads; one that starts at the root replaces it. -/
def join (base : Path) (text : Text) : Path :=
  match Anchor.ofText text with
  | .here => { base with steps := base.steps ++ stepsOf text }
  | _ => ofText text

def child (directory : Path) (name : Name) : Path :=
  { directory with steps := directory.steps ++ [.into name] }

def parent (path : Path) : Path := { path with steps := path.steps.dropLast }

/-- The text of the last step; empty for a path without steps. -/
def name (path : Path) : Text := (path.steps.getLast?.map Step.text).getD []

/-- The path with a text added to its last name. -/
def withNameSuffix (path : Path) (suffix : Text) : Path := path.parent.join (path.name ++ suffix)

/-- The place that a path from the root leads to, by its text alone. -/
def location (path : Path) : Location := Location.after [] path.steps

/-- A step taken after some steps up and then into a place; only a path without anchor can climb. -/
def advance (anchor : Anchor) (climbed : Nat) (inside : Location) : List Step → Path
  | [] => ⟨anchor, List.replicate climbed .up ++ inside.steps⟩
  | .into name :: rest => advance anchor climbed (name :: inside) rest
  | .up :: rest =>
    match inside, anchor with
    | _ :: outer, _ => advance anchor climbed outer rest
    | [], .here => advance anchor (climbed + 1) [] rest
    | [], _ => advance anchor climbed [] rest

/-- The path with every step up taken back against the step before it. -/
def normalize (path : Path) : Path := advance path.anchor 0 [] path.steps

/-- The normal form of a path read from where another leads, without a look at the directory tree. -/
def lexical (base : Path) (text : Text) : Path := (base.join text).normalize

end Path

end PromptCompiler
