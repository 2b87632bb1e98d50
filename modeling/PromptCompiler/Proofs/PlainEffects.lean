import PromptCompiler.Proofs.PlainTrees

/-! # Changing trees without links

On a tree without links every operation of a run is one change of the view of the tree at one place, or
a refusal. The trees without links are closed under these changes, because an entry is only made in a
directory and only removed where nothing lies in it.
-/

namespace PromptCompiler

namespace FileTree

variable {tree : FileTree}

namespace Plain

/-- An entry may be put wherever a path leads, unless it takes the place of a directory. -/
theorem set_plain (plain : tree.Plain) {place : Location} {entry : Entry} (reaches : tree.Reaches place)
    (noLink : ∀ target, entry ≠ .link target)
    (stays : tree.get? place = some .directory → entry = .directory) : (tree.set place entry).Plain := by
  have kept (name : Name) (outer : Location) (present : (tree.set place entry).get? (name :: outer) ≠ none) :
      tree.get? outer = some .directory ∧ Allowed name := by
    rw [get?_set] at present
    split at present
    · rename_i here
      exact ⟨reaches.parent name outer here.1.symm, reaches.allowed name (here.1 ▸ List.mem_cons_self)⟩
    · exact ⟨plain.within name outer present, plain.named name outer present⟩
  constructor
  · intro location target
    rw [get?_set]
    split
    · exact fun same => noLink target (Option.some.inj same)
    · exact plain.noLink location target
  · intro name outer present
    have directory := (kept name outer present).1
    rw [get?_set]
    split
    · rename_i here
      rw [stays (here.1 ▸ directory)]
    · exact directory
  · exact fun name outer present => (kept name outer present).2

/-- What is no directory may be removed. -/
theorem erase_plain (plain : tree.Plain) {place : Location}
    (notDirectory : tree.get? place ≠ some .directory) : (tree.erase place).Plain := by
  have kept (location : Location) (present : (tree.erase place).get? location ≠ none) :
      tree.get? location ≠ none := by
    rw [get?_erase] at present
    split at present
    · exact absurd rfl present
    · exact present
  constructor
  · intro location target
    rw [get?_erase]
    split
    · simp
    · exact plain.noLink location target
  · intro name outer present
    have directory := plain.within name outer (kept _ present)
    rw [get?_erase, if_neg, directory]
    rintro ⟨rfl, _⟩
    exact notDirectory directory
  · exact fun name outer present => plain.named name outer (kept _ present)

/-! ## The operations -/

theorem locate_place (plain : tree.Plain) (follow : Bool) {place found : Location} :
    tree.locate follow (.ofLocation place) = .ok found ↔ found = place ∧ tree.Reaches place :=
  plain.locate_eq_ok_iff follow .root place found

theorem read_eq_ok_iff (plain : tree.Plain) (place : Location) (content : ByteArray) :
    tree.read (.ofLocation place) = .ok content ↔ tree.get? place = some (.file content) := by
  rw [read, except_bind_eq_ok_iff]
  constructor
  · rintro ⟨entry, known, same⟩
    have there := (plain.status_eq_ok_iff .root place entry).mp known
    split at same
    · rw [there, Except.ok.inj same]
    · cases same
  · intro there
    exact ⟨_, (plain.status_eq_ok_iff .root place _).mpr there, rfl⟩

theorem write_eq_ok_iff (plain : tree.Plain) (place : Location) (content : ByteArray) (made : FileTree) :
    tree.write (.ofLocation place) content = .ok made ↔
      tree.Reaches place ∧ tree.get? place ≠ some .directory ∧ made = tree.set place (.file content) := by
  rw [write, except_bind_eq_ok_iff]
  constructor
  · rintro ⟨found, located, same⟩
    obtain ⟨rfl, reaches⟩ := (plain.locate_place true).mp located
    split at same
    · cases same
    · rename_i notDirectory
      exact ⟨reaches, notDirectory, (Except.ok.inj same).symm⟩
  · rintro ⟨reaches, notDirectory, rfl⟩
    refine ⟨place, (plain.locate_place true).mpr ⟨rfl, reaches⟩, ?_⟩
    split
    · rename_i directory
      exact absurd directory notDirectory
    · rfl

theorem rename_eq_ok_iff (plain : tree.Plain) (source target : Location) (made : FileTree) :
    tree.rename (.ofLocation source) (.ofLocation target) = .ok made ↔
      tree.Reaches source ∧ tree.Reaches target ∧ ∃ entry, tree.get? source = some entry ∧
        tree.get? target ≠ some .directory ∧ made = (tree.erase source).set target entry := by
  rw [rename, except_bind_eq_ok_iff]
  constructor
  · rintro ⟨origin, located, rest⟩
    obtain ⟨rfl, fromSource⟩ := (plain.locate_place false).mp located
    obtain ⟨goal, located, same⟩ := except_bind_eq_ok_iff.mp rest
    obtain ⟨rfl, toTarget⟩ := (plain.locate_place false).mp located
    split at same
    · cases same
    · cases same
    · rename_i entry there notDirectory
      exact ⟨fromSource, toTarget, entry, there, notDirectory, (Except.ok.inj same).symm⟩
  · rintro ⟨fromSource, toTarget, entry, there, notDirectory, rfl⟩
    refine ⟨source, (plain.locate_place false).mpr ⟨rfl, fromSource⟩, except_bind_eq_ok_iff.mpr ?_⟩
    refine ⟨target, (plain.locate_place false).mpr ⟨rfl, toTarget⟩, ?_⟩
    rw [there]
    split
    · rename_i missing
      cases missing
    · rename_i directory
      exact absurd directory notDirectory
    · rename_i known _
      cases known
      rfl

theorem remove_eq_ok_iff (plain : tree.Plain) (place : Location) (made : FileTree) :
    tree.remove (.ofLocation place) = .ok made ↔
      tree.get? place ≠ none ∧ tree.get? place ≠ some .directory ∧ made = tree.erase place := by
  rw [remove, except_bind_eq_ok_iff]
  constructor
  · rintro ⟨found, located, same⟩
    obtain ⟨rfl, _⟩ := (plain.locate_place false).mp located
    split at same
    · cases same
    · cases same
    · rename_i entry notDirectory there
      refine ⟨by rw [there]; simp, ?_, (Except.ok.inj same).symm⟩
      rw [there]
      exact fun directory => notDirectory (Option.some.inj directory)
  · rintro ⟨present, notDirectory, rfl⟩
    refine ⟨place, (plain.locate_place false).mpr ⟨rfl, plain.reaches_of_present present⟩, ?_⟩
    split
    · rename_i missing
      exact absurd missing present
    · rename_i directory
      exact absurd directory notDirectory
    · rfl

theorem createDirectory_eq_ok_iff (plain : tree.Plain) (place : Location) (made : FileTree) :
    tree.createDirectory (.ofLocation place) = .ok made ↔
      tree.Reaches place ∧ tree.get? place = none ∧ made = tree.set place .directory := by
  rw [createDirectory, except_bind_eq_ok_iff]
  constructor
  · rintro ⟨found, located, same⟩
    obtain ⟨rfl, reaches⟩ := (plain.locate_place false).mp located
    split at same
    · cases same
    · rename_i free
      exact ⟨reaches, free, (Except.ok.inj same).symm⟩
  · rintro ⟨reaches, free, rfl⟩
    exact ⟨place, (plain.locate_place false).mpr ⟨rfl, reaches⟩, by rw [free]⟩

theorem isDirectory_of_ok (plain : tree.Plain) {place : Location} {answer : Bool}
    (known : tree.isDirectory (.ofLocation place) = .ok answer) : answer = tree.isDirectoryAt place := by
  rw [isDirectory] at known
  cases probed : tree.probe (.ofLocation place) with
  | error fault =>
    rw [probed] at known
    cases known
  | ok entry =>
    rw [probed, plain.probe_of_ok probed] at known
    exact (Except.ok.inj known).symm

theorem isDirectory_eq (plain : tree.Plain) {place : Location} (allowed : ∀ name ∈ place, Allowed name) :
    tree.isDirectory (.ofLocation place) = .ok (tree.isDirectoryAt place) := by
  rw [isDirectory, Path.ofLocation, plain.probe_eq .root allowed]
  rfl

end Plain

/-! ## Making directories -/

/-- A directory is made at a place that is free, possibly after the one above it, or it was there already. -/
theorem ensureDirectoryWithin_cases {bound : Nat} {place : Location} {made : FileTree}
    (known : tree.ensureDirectoryWithin (bound + 1) (.ofLocation place) = .ok made) :
    tree.createDirectory (.ofLocation place) = .ok made ∨
      (made = tree ∧ tree.isDirectory (.ofLocation place) = .ok true) ∨
      ∃ name outer parents, place = name :: outer ∧ tree.ensureDirectoryWithin bound (.ofLocation outer) = .ok parents ∧
        (parents.createDirectory (.ofLocation place) = .ok made ∨
          made = parents ∧ parents.isDirectory (.ofLocation place) = .ok true) := by
  have stays {kept : FileTree} {fault : SystemFault}
      (known : (do if ← kept.isDirectory (.ofLocation place) then .ok kept else .error fault) = Except.ok made) :
      made = kept ∧ kept.isDirectory (.ofLocation place) = .ok true := by
    obtain ⟨there, asked, rest⟩ := except_bind_eq_ok_iff.mp known
    split at rest
    · rename_i directory
      cases rest
      exact ⟨rfl, directory ▸ asked⟩
    · cases rest
  rw [ensureDirectoryWithin] at known
  split at known
  · rename_i created
    cases known
    exact .inl created
  · cases place with
    | nil => cases known
    | cons name outer =>
      have steps : (Path.ofLocation (name :: outer)).steps ≠ [] := by
        simp [Path.ofLocation, Location.steps_cons]
      rw [if_neg steps, Path.parent_ofLocation] at known
      change (tree.ensureDirectoryWithin bound (.ofLocation outer) >>= _) = _ at known
      obtain ⟨parents, ensured, rest⟩ := except_bind_eq_ok_iff.mp known
      refine .inr (.inr ⟨name, outer, parents, rfl, ensured, ?_⟩)
      split at rest
      · rename_i created
        cases rest
        exact .inl created
      · exact .inr (stays rest)
  · exact .inr (.inl (stays known))

/-- A tree made from another so that a place and what is above it are directories; all else is as it
was. -/
structure Ensures (tree : FileTree) (place : Location) (made : FileTree) : Prop where
  plain : made.Plain
  directory : made.get? place = some .directory
  /-- Only directories above the place are new. -/
  kept : ∀ other, made.get? other = tree.get? other ∨
    (other <:+ place ∧ tree.get? other = none ∧ made.get? other = some .directory)

theorem isDirectoryAt_iff (place : Location) :
    tree.isDirectoryAt place = true ↔ tree.get? place = some .directory := by
  rw [isDirectoryAt, beq_iff_eq]

private theorem Plain.ensures_self (plain : tree.Plain) {place : Location}
    (there : tree.get? place = some .directory) : tree.Ensures place tree := ⟨plain, there, fun _ => .inl rfl⟩

/-- A new directory in a place that has been made a directory. -/
theorem Ensures.created {parents made : FileTree} {name : Name} {outer : Location}
    (ensured : tree.Ensures outer parents)
    (known : parents.createDirectory (.ofLocation (name :: outer)) = .ok made) :
    tree.Ensures (name :: outer) made := by
  obtain ⟨reaches, free, rfl⟩ := (ensured.plain.createDirectory_eq_ok_iff _ _).mp known
  have there : (parents.set (name :: outer) .directory).get? (name :: outer) = some .directory := by
    simp [get?_set]
  refine ⟨ensured.plain.set_plain reaches (by simp) fun _ => rfl, there, fun other => ?_⟩
  by_cases same : other = name :: outer
  · subst same
    rcases ensured.kept (name :: outer) with kept | ⟨above, _⟩
    · exact .inr ⟨List.suffix_rfl, kept ▸ free, there⟩
    · exact absurd above.length_le (by simp)
  · rw [get?_set, if_neg fun here => same here.1]
    rcases ensured.kept other with kept | ⟨above, missing, now⟩
    · exact .inl kept
    · exact .inr ⟨above.trans (List.suffix_cons name outer), missing, now⟩

/-- Making directories removes nothing. -/
theorem Ensures.present {place other : Location} {made : FileTree} (ensured : tree.Ensures place made)
    (present : tree.get? other ≠ none) : made.get? other ≠ none := by
  rcases ensured.kept other with kept | ⟨-, -, directory⟩
  · rwa [kept]
  · rw [directory]
    simp

/-- What has been made a directory above a place that is a directory itself. -/
theorem Ensures.inner {parents : FileTree} {name : Name} {outer : Location}
    (ensured : tree.Ensures outer parents) (there : parents.get? (name :: outer) = some .directory) :
    tree.Ensures (name :: outer) parents where
  plain := ensured.plain
  directory := there
  kept other := (ensured.kept other).imp id
    fun ⟨above, changed⟩ => ⟨above.trans (List.suffix_cons name outer), changed⟩

namespace Plain

private theorem ensures_of_createDirectory (plain : tree.Plain) {place : Location} {made : FileTree}
    (known : tree.createDirectory (.ofLocation place) = .ok made) : tree.Ensures place made := by
  obtain ⟨reaches, free, _⟩ := (plain.createDirectory_eq_ok_iff _ _).mp known
  cases place with
  | nil => simp at free
  | cons name outer => exact (plain.ensures_self (reaches.parent name outer rfl)).created known

private theorem ensures_of_isDirectory (plain : tree.Plain) {place : Location}
    (known : tree.isDirectory (.ofLocation place) = .ok true) : tree.Ensures place tree :=
  plain.ensures_self ((isDirectoryAt_iff place).mp (plain.isDirectory_of_ok known).symm)

private theorem ensures_of_ensureDirectoryWithin (plain : tree.Plain) {bound : Nat} {place : Location} {made : FileTree}
    (known : tree.ensureDirectoryWithin bound (.ofLocation place) = .ok made) : tree.Ensures place made := by
  -- One more parent is made with each number, and the tree that is asked stays the same.
  induction bound generalizing place made with
  | zero => cases known
  | succ bound ih =>
    rcases ensureDirectoryWithin_cases known with created | ⟨rfl, directory⟩ | ⟨name, outer, parents, rfl, ensured, rest⟩
    · exact plain.ensures_of_createDirectory created
    · exact plain.ensures_of_isDirectory directory
    · have ensured := ih ensured
      rcases rest with created | ⟨rfl, directory⟩
      · exact ensured.created created
      · exact ensured.inner (ensured.plain.ensures_of_isDirectory directory).directory

theorem ensures_of_ensureDirectory (plain : tree.Plain) {place : Location} {made : FileTree}
    (known : tree.ensureDirectory (.ofLocation place) = .ok made) : tree.Ensures place made :=
  plain.ensures_of_ensureDirectoryWithin known

/-- Where making a directory is refused, only parents of it are new. -/
theorem ensures_of_refused (plain : tree.Plain) (place : Location) :
    tree.refused (.ofLocation place) = tree ∨
      ∃ outer, outer <:+ place ∧ tree.Ensures outer (tree.refused (.ofLocation place)) := by
  rw [refused]
  generalize (Path.ofLocation place).steps.length + 1 = bound
  induction bound generalizing place with
  | zero => exact .inl rfl
  | succ bound ih =>
    rw [refusedWithin]
    split
    · cases place with
      | nil =>
        rename_i missing
        cases missing
      | cons name outer =>
        rw [Path.parent_ofLocation]
        split
        · rename_i parents known
          exact .inr ⟨outer, List.suffix_cons name outer, plain.ensures_of_ensureDirectoryWithin known⟩
        · exact (ih outer).imp_right fun ⟨inner, above, ensured⟩ =>
            ⟨inner, above.trans (List.suffix_cons name outer), ensured⟩
    · exact .inl rfl

/-- Where a directory is, nothing is made. -/
theorem ensureDirectory_eq_self (plain : tree.Plain) {place : Location}
    (there : tree.get? place = some .directory) : tree.ensureDirectory (.ofLocation place) = .ok tree := by
  have reaches := plain.reaches_of_present (by rw [there]; simp)
  have located : tree.locate false (.ofLocation place) = .ok place := (plain.locate_place false).mpr ⟨rfl, reaches⟩
  have refused : tree.createDirectory (.ofLocation place) = .error .alreadyExists := by
    simp only [createDirectory, located, bind, Except.bind, there]
  have known := plain.isDirectory_eq reaches.allowed
  rw [(isDirectoryAt_iff place).mpr there] at known
  rw [ensureDirectory, ensureDirectoryWithin, refused]
  change (tree.isDirectory (.ofLocation place) >>= _) = _
  rw [known]
  rfl

end Plain

/-! ## Replacing a file -/

theorem reaches_cons_iff (name : Name) (outer : Location) :
    tree.Reaches (name :: outer) ↔
      (∀ other ∈ name :: outer, Allowed other) ∧ tree.get? outer = some .directory := by
  constructor
  · exact fun reaches => ⟨reaches.allowed, reaches.parent name outer rfl⟩
  · rintro ⟨allowed, directory⟩
    refine ⟨allowed, ?_⟩
    rintro _ _ same
    cases same
    exact directory

/-- Whether a file may take the place of what is at a place in a directory, by way of another place
there. -/
structure Replaceable (tree : FileTree) (outer : Location) (beside name : Name) : Prop where
  reachesBeside : tree.Reaches (beside :: outer)
  /-- It is no directory. -/
  besideFree : tree.get? (beside :: outer) ≠ some .directory
  reachesPlace : tree.Reaches (name :: outer)
  /-- It is no directory. -/
  placeFree : tree.get? (name :: outer) ≠ some .directory

/-- A tree in which a file has taken the place of what was at a place in a directory, by way of another
place there. -/
def replaced (tree : FileTree) (outer : Location) (beside name : Name) (content : ByteArray) : FileTree :=
  ((tree.set (beside :: outer) (.file content)).erase (beside :: outer)).set (name :: outer) (.file content)

theorem get?_replaced (tree : FileTree) (outer : Location) (beside name : Name) (content : ByteArray)
    (other : Location) :
    (tree.replaced outer beside name content).get? other =
      if other = name :: outer then some (.file content)
      else if other = beside :: outer then none
      else tree.get? other := by
  rw [replaced, get?_set, get?_erase, get?_set]
  by_cases place : other = name :: outer
  · simp [place]
  · by_cases here : other = beside :: outer <;> simp [place, here]

theorem Replaceable.plain_replaced {outer : Location} {beside name : Name} (plain : tree.Plain)
    (ready : tree.Replaceable outer beside name) (content : ByteArray) :
    (tree.replaced outer beside name content).Plain := by
  obtain ⟨allowed, directory⟩ := (reaches_cons_iff name outer).mp ready.reachesPlace
  have written : (tree.set (beside :: outer) (.file content)).Plain :=
    plain.set_plain ready.reachesBeside (by simp) fun same => absurd same ready.besideFree
  have erased : ((tree.set (beside :: outer) (.file content)).erase (beside :: outer)).Plain :=
    written.erase_plain (by simp [get?_set])
  refine erased.set_plain ((reaches_cons_iff name outer).mpr ⟨allowed, ?_⟩) (by simp) fun same => ?_
  · simp [get?_erase, get?_set, directory]
  · rw [get?_erase, get?_set] at same
    split at same
    · cases same
    · exact absurd same ready.placeFree

end FileTree

namespace Run

/-- A file is replaced by way of a file beside it. -/
theorem gives_replaceText {before after : World} (plain : before.tree.Plain) {outer : Location} {name : Name}
    {ending : Text} (noSlash : '/' ∉ ending) (notEmpty : ending ≠ []) {text : Text} {result : Unit} :
    (replaceText (.ofLocation (name :: outer)) ending text).Gives before result after ↔
      before.tree.Replaceable outer (name.suffixed ending noSlash) name ∧
        { before with
          tree := before.tree.replaced outer (name.suffixed ending noSlash) name text.utf8 } = after := by
  have apart := name.suffixed_ne noSlash notEmpty
  generalize beside : name.suffixed ending noSlash = other at apart
  simp only [replaceText, Path.withNameSuffix_ofLocation name outer ending noSlash, beside, gives_bind, gives_change,
    plain.write_eq_ok_iff]
  have unchanged (content : ByteArray) : (before.tree.set (other :: outer) (.file content)).get? (name :: outer) =
      before.tree.get? (name :: outer) := by
    rw [FileTree.get?_set, if_neg]
    rintro ⟨same, _⟩
    exact apart (List.cons.inj same).1.symm
  have above (content : ByteArray) : (before.tree.set (other :: outer) (.file content)).get? outer =
      before.tree.get? outer := by
    rw [FileTree.get?_set, if_neg]
    simp
  constructor
  · rintro ⟨_, _, ⟨_, ⟨reaches, notDirectory, rfl⟩, rfl⟩, _, renamed, rfl⟩
    have written : (before.tree.set (other :: outer) (.file text.utf8)).Plain :=
      plain.set_plain reaches (by simp) fun same => absurd same notDirectory
    obtain ⟨_, toPlace, entry, there, free, rfl⟩ := (written.rename_eq_ok_iff _ _ _).mp renamed
    rw [unchanged] at free
    rw [FileTree.get?_set, if_pos (by simp)] at there
    cases there
    obtain ⟨allowed, directory⟩ := (FileTree.reaches_cons_iff _ _).mp toPlace
    rw [above] at directory
    exact ⟨⟨reaches, notDirectory, (FileTree.reaches_cons_iff _ _).mpr ⟨allowed, directory⟩, free⟩, rfl⟩
  · rintro ⟨ready, rfl⟩
    have written : (before.tree.set (other :: outer) (.file text.utf8)).Plain :=
      plain.set_plain ready.reachesBeside (by simp) fun same => absurd same ready.besideFree
    obtain ⟨allowedBeside, directory⟩ := (FileTree.reaches_cons_iff _ _).mp ready.reachesBeside
    obtain ⟨allowedPlace, _⟩ := (FileTree.reaches_cons_iff _ _).mp ready.reachesPlace
    refine ⟨(), _, ⟨_, ⟨ready.reachesBeside, ready.besideFree, rfl⟩, rfl⟩, _,
      (written.rename_eq_ok_iff _ _ _).mpr ⟨?_, ?_, .file text.utf8, ?_, ?_, rfl⟩, rfl⟩
    · exact (FileTree.reaches_cons_iff _ _).mpr ⟨allowedBeside, by rw [above, directory]⟩
    · exact (FileTree.reaches_cons_iff _ _).mpr ⟨allowedPlace, by rw [above, directory]⟩
    · simp [FileTree.get?_set]
    · rw [unchanged]
      exact ready.placeFree

end Run

end PromptCompiler
