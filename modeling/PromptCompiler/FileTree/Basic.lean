import PromptCompiler.Path.Basic

/-! # Directory trees

A tree says what is at each place: a file, a directory, a symbolic link, or nothing. The root is
always a directory. A tree is given by its entries; `get?` is the view of it through which all
other operations are described (`get?_set`, `get?_erase`).
-/

namespace PromptCompiler

/-- Contents of files are compared byte by byte. -/
instance (priority := 2000) decidableEqContent : DecidableEq ByteArray := ByteArray.instDecidableEq

/-- What a directory tree holds at a place. -/
inductive Entry where
  | file (content : ByteArray)
  | directory
  /-- A symbolic link with the text of its target. -/
  | link (target : Text)
deriving DecidableEq

/-- A directory tree, by its entries other than the root. -/
structure FileTree where
  /-- What is at which place; of two entries for one place the first counts. -/
  entries : List (Location × Entry)

namespace FileTree

def empty : FileTree := ⟨[]⟩

instance : Inhabited FileTree := ⟨empty⟩

def get? (tree : FileTree) (location : Location) : Option Entry :=
  if location = [] then some .directory
  else (tree.entries.find? fun entry => entry.1 = location).map Prod.snd

/-- The tree without what is at a place. -/
def erase (tree : FileTree) (location : Location) : FileTree :=
  ⟨tree.entries.filter fun entry => entry.1 ≠ location⟩

/-- The tree with an entry put at a place, instead of what was there. -/
def set (tree : FileTree) (location : Location) (entry : Entry) : FileTree :=
  ⟨(location, entry) :: (tree.erase location).entries⟩

@[simp] theorem get?_root (tree : FileTree) : tree.get? [] = some .directory := rfl

theorem get?_erase (tree : FileTree) (location other : Location) :
    (tree.erase location).get? other =
      if other = location ∧ location ≠ [] then none else tree.get? other := by
  by_cases root : other = []
  · by_cases same : [] = location <;> simp_all [get?]
  · simp only [get?, erase, root, if_false, List.find?_filter]
    by_cases same : other = location
    · subst same
      simp only [root, ne_eq, not_false_eq_true, and_true, if_true, Option.map_eq_none_iff,
        List.find?_eq_none]
      intro entry _
      by_cases here : entry.1 = other <;> simp [here]
    · simp only [same, false_and, if_false]
      congr 2
      funext entry
      by_cases here : entry.1 = other <;> simp [here, same]

theorem get?_set (tree : FileTree) (location other : Location) (entry : Entry) :
    (tree.set location entry).get? other =
      if other = location ∧ location ≠ [] then some entry else tree.get? other := by
  by_cases root : other = []
  · by_cases same : [] = location <;> simp_all [get?]
  · by_cases same : other = location
    · subst same
      simp [get?, set, root]
    · have kept := get?_erase tree location other
      have apart : ¬ location = other := fun equal => same equal.symm
      simp only [get?, root, if_false, same, false_and] at kept ⊢
      simp [set, apart, kept]

/-- The names of the entries of a directory, in increasing order. -/
def names (tree : FileTree) (directory : Location) : List Name :=
  (tree.entries.filterMap fun entry =>
    match entry.1 with
    | name :: outer => if outer = directory then some name else none
    | [] => none).eraseDups.mergeSort fun first second => Text.le first.text second.text

/-- Whether a place lies in a directory, at any depth. -/
def inside (directory location : Location) : Bool :=
  directory.isSuffixOf location && directory != location

end FileTree

end PromptCompiler
