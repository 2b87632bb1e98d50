import PromptCompiler.Proofs.Places
import PromptCompiler.Proofs.Runs

/-! # Trees without links

In a tree without links a path that only steps into entries leads to the place that it spells, provided
that the system takes its names and that everything above the place is a directory. So each operation
on such a tree has one condition and one effect on the view of the tree, and a run that uses these
operations never leaves the trees without links.
-/

namespace PromptCompiler

namespace FileTree

/-- Whether the system takes a name in a path. -/
def Allowed (name : Name) : Prop := name.text.utf8.size ≤ Name.sizeLimit ∧ '\x00' ∉ name.text

instance (name : Name) : Decidable (Allowed name) := inferInstanceAs (Decidable (_ ∧ _))

/-- A directory tree as the system keeps it, without symbolic links. -/
structure Plain (tree : FileTree) : Prop where
  noLink : ∀ location target, tree.get? location ≠ some (.link target)
  /-- Every entry lies in a directory. -/
  within : ∀ name outer, tree.get? (name :: outer) ≠ none → tree.get? outer = some .directory
  /-- Every entry has a name that the system takes. -/
  named : ∀ name outer, tree.get? (name :: outer) ≠ none → Allowed name

/-- Whether a path to a place can be followed up to its last name, which may be free. -/
structure Reaches (tree : FileTree) (location : Location) : Prop where
  /-- The system takes every name of the place. -/
  allowed : ∀ name ∈ location, Allowed name
  /-- The place lies in a directory, unless it is the root. -/
  parent : ∀ name outer, location = name :: outer → tree.get? outer = some .directory

/-- Whether the entries of a tree show that it has no links. -/
def isPlain (tree : FileTree) : Bool :=
  tree.entries.all fun
    | (_, .link _) => false
    | ([], _) => true
    | (name :: outer, _) => tree.isDirectoryAt outer && decide (Allowed name)

namespace Plain

variable {tree : FileTree}

theorem of_isPlain (known : tree.isPlain = true) : tree.Plain := by
  rw [isPlain, List.all_eq_true] at known
  have inEntries (location : Location) (entry : Entry) (notRoot : location ≠ [])
      (there : tree.get? location = some entry) : (location, entry) ∈ tree.entries := by
    rw [get?, if_neg notRoot, Option.map_eq_some_iff] at there
    obtain ⟨⟨place, _⟩, found, rfl⟩ := there
    obtain rfl : place = location := by simpa using List.find?_some found
    exact List.mem_of_find?_eq_some found
  have entered (name : Name) (outer : Location) (present : tree.get? (name :: outer) ≠ none) :
      tree.get? outer = some .directory ∧ Allowed name := by
    obtain ⟨entry, there⟩ := Option.ne_none_iff_exists'.mp present
    have checked := known _ (inEntries _ entry (List.cons_ne_nil name outer) there)
    cases entry with
    | link target => cases checked
    | file content | directory =>
      simpa only [Bool.and_eq_true, isDirectoryAt, beq_iff_eq, decide_eq_true_iff] using checked
  constructor
  · intro location target there
    cases location with
    | nil => simp at there
    | cons name outer => cases known _ (inEntries _ _ (List.cons_ne_nil name outer) there)
  · exact fun name outer present => (entered name outer present).1
  · exact fun name outer present => (entered name outer present).2

/-- Everything above an entry is a directory. -/
theorem directory_above (plain : tree.Plain) {inner outer : Location} (above : outer <:+ inner)
    (apart : outer ≠ inner) (present : tree.get? inner ≠ none) : tree.get? outer = some .directory := by
  induction inner with
  | nil => exact absurd (List.suffix_nil.mp above) apart
  | cons name inner ih =>
    have parent := plain.within name inner present
    rcases List.suffix_cons_iff.mp above with same | above
    · exact absurd same apart
    · by_cases here : outer = inner
      · rwa [here]
      · exact ih above here (by rw [parent]; simp)

/-- The system takes all the names that lead to an entry. -/
theorem allowed_of_present (plain : tree.Plain) {location : Location} (present : tree.get? location ≠ none) :
    ∀ name ∈ location, Allowed name := by
  intro name member
  obtain ⟨inner, outer, rfl⟩ := List.append_of_mem member
  have above : name :: outer <:+ inner ++ name :: outer := List.suffix_append inner (name :: outer)
  by_cases same : name :: outer = inner ++ name :: outer
  · exact plain.named name outer (same ▸ present)
  · refine plain.named name outer ?_
    rw [plain.directory_above above same present]
    simp

theorem reaches_of_present (plain : tree.Plain) {location : Location} (present : tree.get? location ≠ none) :
    tree.Reaches location where
  allowed := plain.allowed_of_present present
  parent := by
    rintro name outer rfl
    exact plain.within name outer present

/-! ## Following paths -/

/-- A walk to a place ends there, and passes only directories on the way. -/
theorem walk_ok (plain : tree.Plain) {follow : Bool}
    {jump : Location → Text → List Step → Except SystemFault Location} {names : List Name}
    {here place : Location} (start : tree.get? here = some .directory)
    (walked : tree.walk follow jump here (names.map .into) = .ok place) :
    place = names.reverse ++ here ∧ (∀ name ∈ names, name.text.utf8.size ≤ Name.sizeLimit) ∧
      ∀ name outer, place = name :: outer → tree.get? outer = some .directory := by
  induction names generalizing here with
  | nil =>
    cases walked
    refine ⟨rfl, by simp, ?_⟩
    rintro name outer rfl
    exact plain.within name outer (by rw [start]; simp)
  | cons name rest ih =>
    rw [List.map_cons, FileTree.walk] at walked
    split at walked
    · cases walked
    rename_i fits
    -- A name that no directory has can only be the last one.
    have last (ending : (rest.map Step.into).isEmpty = true) (stop : name :: here = place) :
        place = (name :: rest).reverse ++ here ∧
          (∀ other ∈ name :: rest, other.text.utf8.size ≤ Name.sizeLimit) ∧
          ∀ other outer, place = other :: outer → tree.get? outer = some .directory := by
      have noStep : rest = [] := by simpa using ending
      subst noStep stop
      refine ⟨rfl, by simpa using Nat.not_lt.mp fits, ?_⟩
      rintro other outer same
      cases same
      exact start
    split at walked
    · rename_i directory
      obtain ⟨ends, sizes, parent⟩ := ih directory walked
      refine ⟨by simpa using ends, ?_, parent⟩
      rintro other member
      rcases List.mem_cons.mp member with rfl | later
      · exact Nat.not_lt.mp fits
      · exact sizes other later
    · rename_i target link
      exact absurd link (plain.noLink _ _)
    · split at walked
      · rename_i ending
        exact last ending (Except.ok.inj walked)
      · cases walked
    · split at walked
      · rename_i ending
        exact last ending (Except.ok.inj walked)
      · cases walked

/-- A walk passes through directories. -/
theorem walk_through (plain : tree.Plain) (follow : Bool)
    (jump : Location → Text → List Step → Except SystemFault Location) {outer : Location}
    (directory : tree.get? outer = some .directory)
    (sizes : ∀ name ∈ outer, name.text.utf8.size ≤ Name.sizeLimit) (rest : List Step) :
    tree.walk follow jump [] (outer.steps ++ rest) = tree.walk follow jump outer rest := by
  induction outer generalizing rest with
  | nil => rfl
  | cons name outer ih =>
    have parent := plain.within name outer (by rw [directory]; simp)
    have fits := Nat.not_lt.mpr (sizes name List.mem_cons_self)
    rw [Location.steps_cons, List.append_assoc,
      ih parent fun other member => sizes other (List.mem_cons_of_mem name member), List.singleton_append,
      FileTree.walk, if_neg fits, directory]

theorem any_holdsNul (location : Location) :
    location.steps.any Step.holdsNul = true ↔ ∃ name ∈ location, '\x00' ∈ name.text := by
  simp [Location.steps, Step.holdsNul, Step.text]

/-- A path that spells a place leads to it, or nowhere. -/
theorem locate_eq_ok_iff (plain : tree.Plain) (follow : Bool) (anchor : Anchor) (location place : Location) :
    tree.locate follow ⟨anchor, location.steps⟩ = .ok place ↔ place = location ∧ tree.Reaches location := by
  have root : tree.get? [] = some .directory := get?_root tree
  rw [locate]
  constructor
  · intro located
    split at located
    · cases located
    rename_i noNul
    rw [any_holdsNul] at noNul
    obtain ⟨ends, sizes, parent⟩ := plain.walk_ok root located
    have same : place = location := by simpa using ends
    refine ⟨same, fun name member => ⟨sizes name (List.mem_reverse.mpr member), ?_⟩, same ▸ parent⟩
    exact fun nul => noNul ⟨name, member, nul⟩
  · rintro ⟨rfl, reaches⟩
    have noNul : ¬ place.steps.any Step.holdsNul = true := by
      rw [any_holdsNul]
      rintro ⟨name, member, nul⟩
      exact (reaches.allowed name member).2 nul
    rw [if_neg noNul, linkLimit, walkWithin]
    cases place with
    | nil => rfl
    | cons name outer =>
      have fits := Nat.not_lt.mpr (reaches.allowed name List.mem_cons_self).1
      rw [Location.steps_cons, plain.walk_through follow _ (reaches.parent name outer rfl)
        (fun other member => (reaches.allowed other (List.mem_cons_of_mem name member)).1),
        FileTree.walk, if_neg fits]
      cases there : tree.get? (name :: outer) with
      | none => rfl
      | some entry =>
        cases entry with
        | directory => rfl
        | file content => rfl
        | link target => exact absurd there (plain.noLink _ _)

/-- A walk is not refused for its links, and for a name only if the name is too long. -/
theorem walk_error (plain : tree.Plain) {follow : Bool}
    {jump : Location → Text → List Step → Except SystemFault Location} {names : List Name}
    {here : Location} {fault : SystemFault} (walked : tree.walk follow jump here (names.map .into) = .error fault) :
    fault ≠ .tooManyLinks ∧ (fault = .nameTooLong → ∃ name ∈ names, ¬ Allowed name) := by
  induction names generalizing here with
  | nil => cases walked
  | cons name rest ih =>
    rw [List.map_cons, FileTree.walk] at walked
    split at walked
    · rename_i long
      cases walked
      exact ⟨by simp, fun _ => ⟨name, List.mem_cons_self, fun allowed => Nat.not_lt.mpr allowed.1 long⟩⟩
    split at walked
    · obtain ⟨notLinks, tooLong⟩ := ih walked
      refine ⟨notLinks, fun same => ?_⟩
      obtain ⟨other, member, refused⟩ := tooLong same
      exact ⟨other, List.mem_cons_of_mem name member, refused⟩
    · rename_i target link
      exact absurd link (plain.noLink _ _)
    all_goals
      split at walked
      · cases walked
      · cases walked
        simp

/-- A path that spells a place is not refused for its links, and for a name only if the system does not
take the name. -/
theorem locate_error (plain : tree.Plain) {follow : Bool} {anchor : Anchor} {location : Location}
    {fault : SystemFault} (located : tree.locate follow ⟨anchor, location.steps⟩ = .error fault) :
    fault ≠ .tooManyLinks ∧ (fault = .nameTooLong → ∃ name ∈ location, ¬ Allowed name) := by
  rw [locate] at located
  split at located
  · cases located
    simp
  · obtain ⟨notLinks, tooLong⟩ := plain.walk_error located
    refine ⟨notLinks, fun same => ?_⟩
    obtain ⟨name, member, refused⟩ := tooLong same
    exact ⟨name, List.mem_reverse.mp member, refused⟩

/-- What a path that spells a place leads to is what the tree holds there. -/
theorem status_eq_ok_iff (plain : tree.Plain) (anchor : Anchor) (location : Location) (entry : Entry) :
    tree.status ⟨anchor, location.steps⟩ = .ok entry ↔ tree.get? location = some entry := by
  rw [status, except_bind_eq_ok_iff]
  constructor
  · rintro ⟨place, located, known⟩
    obtain ⟨rfl, _⟩ := (plain.locate_eq_ok_iff true anchor location place).mp located
    split at known
    · rename_i there
      rw [there, Except.ok.inj known]
    · cases known
  · intro there
    have reaches := plain.reaches_of_present (by rw [there]; simp)
    exact ⟨location, (plain.locate_eq_ok_iff true anchor location location).mpr ⟨rfl, reaches⟩, by rw [there]⟩

/-- A path that spells a place leads to something if the tree holds something there. -/
theorem present_eq (plain : tree.Plain) (anchor : Anchor) (location : Location) :
    tree.present ⟨anchor, location.steps⟩ = (tree.get? location).isSome := by
  rw [present, Bool.eq_iff_iff]
  constructor
  · intro found
    cases known : tree.status ⟨anchor, location.steps⟩ with
    | error fault => rw [known] at found; cases found
    | ok entry => rw [(plain.status_eq_ok_iff anchor location entry).mp known]; rfl
  · intro found
    obtain ⟨entry, there⟩ := Option.isSome_iff_exists.mp found
    rw [(plain.status_eq_ok_iff anchor location entry).mpr there]
    rfl

/-- A probe that is answered tells what the tree holds. -/
theorem probe_of_ok (plain : tree.Plain) {anchor : Anchor} {location : Location} {answer : Option Entry}
    (known : tree.probe ⟨anchor, location.steps⟩ = .ok answer) : answer = tree.get? location := by
  cases there : tree.get? location with
  | some entry =>
    rw [probe, (plain.status_eq_ok_iff anchor location entry).mpr there] at known
    exact (Except.ok.inj known).symm
  | none =>
    rw [probe] at known
    split at known
    · rename_i entry found
      rw [(plain.status_eq_ok_iff anchor location entry).mp found] at there
      cases there
    · cases known
    · exact (Except.ok.inj known).symm

/-- A probe of a place is answered if the system takes the names that lead to it. -/
theorem probe_eq (plain : tree.Plain) (anchor : Anchor) {location : Location}
    (allowed : ∀ name ∈ location, Allowed name) :
    tree.probe ⟨anchor, location.steps⟩ = .ok (tree.get? location) := by
  cases answered : tree.probe ⟨anchor, location.steps⟩ with
  | ok answer => rw [plain.probe_of_ok answered]
  | error fault =>
    rw [probe] at answered
    split at answered
    · cases answered
    · rename_i refused
      rw [status] at refused
      cases located : tree.locate true ⟨anchor, location.steps⟩ with
      | error reason =>
        rw [located] at refused
        cases refused
        obtain ⟨name, member, taken⟩ := (plain.locate_error located).2 rfl
        exact absurd (allowed name member) taken
      | ok place =>
        simp only [located, bind, Except.bind] at refused
        split at refused <;> cases refused
    · cases answered

end Plain

end FileTree

end PromptCompiler
