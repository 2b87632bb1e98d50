import PromptCompiler.Proofs.LinkedPaths
import PromptCompiler.Proofs.PartialRuns

/-! # Changes within a root

A tree is confined to a root if outside the root it is as it was before, and no link is new. Every change that a
run makes is of one of two kinds: an entry other than a directory becomes a file or goes away, or a directory is
made at a free place. As long as no directory takes the place of a link, paths lead where they led before, so that
a change in a directory of the root is a change within the root.

A directory does take the place of a link where the directory of the tool table is made under the name of an
artifact that was a link and has been removed. Nothing lies below a link, so from there on nothing leads away.
-/

namespace PromptCompiler

namespace FileTree

def Nested (tree : FileTree) : Prop :=
  ∀ name outer, tree.get? (name :: outer) ≠ none → tree.get? outer = some .directory

/-- Whether a tree is as before outside a root, which is still there, and has no new links. -/
structure Confined (root : Location) (before later : FileTree) : Prop where
  kept : ∀ place, ¬ root <:+ place → later.get? place = before.get? place
  opens : later.Opens root
  links : ∀ place target, later.get? place = some (.link target) → before.get? place = some (.link target)

/-- Whether a tree is confined to a root and no directory has taken the place of a link, so that paths lead where
they led before. -/
structure Steady (root : Location) (before later : FileTree) : Prop extends Confined root before later where
  directories : ∀ place, later.get? place = some .directory → ¬ before.HoldsLink place

/-- Whether a property of trees survives changes in a root to what is no directory. -/
structure Survives (root : Location) (holds : FileTree → Prop) : Prop where
  /-- A file may take the place of anything but a directory. -/
  file : ∀ {tree place}, holds tree → root <:+ place → tree.get? place ≠ some .directory →
    ∀ content, holds (tree.set place (.file content))
  /-- Anything but a directory may go away. -/
  erase : ∀ {tree place}, holds tree → root <:+ place → tree.get? place ≠ some .directory → holds (tree.erase place)

def LinkFreeBelow (tree : FileTree) (place : Location) : Prop := ∀ inner, inner ≠ [] → ¬ tree.HoldsLink (inner ++ place)

/-- Whether a directory to which a path leads is known: paths lead where they led before, or the directory is in
the root and nothing below it was a link. -/
def Tracks (root : Location) (before later : FileTree) (directory : Location) : Prop :=
  (∀ place, later.get? place = some .directory → ¬ before.HoldsLink place) ∨
    ∀ place, later.Leads (.ofLocation directory) place → root <:+ place ∧ before.LinkFreeBelow place

variable {tree before later made : FileTree} {root place outer : Location} {name : Name}

/-- Nothing lies below what is no directory. -/
theorem Nested.get?_below (nested : tree.Nested) (notDirectory : tree.get? place ≠ some .directory)
    {inner : Location} (below : inner ≠ []) : tree.get? (inner ++ place) = none := by
  induction inner with
  | nil => exact absurd rfl below
  | cons name inner ih =>
    by_contra present
    have directory := nested name (inner ++ place) present
    cases inner with
    | nil => exact notDirectory directory
    | cons next inner =>
      rw [ih (List.cons_ne_nil next inner)] at directory
      cases directory

def isNested (tree : FileTree) : Bool :=
  tree.entries.all fun
    | ([], _) => true
    | (_ :: outer, _) => tree.isDirectoryAt outer

theorem Nested.of_isNested (known : tree.isNested = true) : tree.Nested := by
  intro name outer present
  rw [get?, if_neg (List.cons_ne_nil name outer), ne_eq, Option.map_eq_none_iff] at present
  obtain ⟨⟨place, entry⟩, found⟩ := Option.ne_none_iff_exists'.mp present
  obtain rfl : place = name :: outer := by simpa using List.find?_some found
  exact (isDirectoryAt_iff outer).mp (List.all_eq_true.mp known _ (List.mem_of_find?_eq_some found))

theorem HoldsLink.ne_directory (link : tree.HoldsLink place) : tree.get? place ≠ some .directory := by
  obtain ⟨target, link⟩ := link
  rw [link]
  simp

private theorem not_holdsLink_of_free (free : tree.get? place = none) : ¬ tree.HoldsLink place := by
  rintro ⟨target, link⟩
  rw [free] at link
  cases link

private theorem Nested.linkFreeBelow (nested : tree.Nested) (notDirectory : tree.get? place ≠ some .directory) :
    tree.LinkFreeBelow place :=
  fun _ below => not_holdsLink_of_free (nested.get?_below notDirectory below)

theorem LinkFreeBelow.entry (free : tree.LinkFreeBelow place) (name : Name) : ¬ tree.HoldsLink (name :: place) :=
  free [name] (List.cons_ne_nil name [])

theorem LinkFreeBelow.below (free : tree.LinkFreeBelow place) (name : Name) : tree.LinkFreeBelow (name :: place) := by
  intro inner _
  have inside := free (inner ++ [name]) (by simp)
  rwa [List.append_assoc, List.singleton_append] at inside

namespace Confined

theorem holdsLink (confined : Confined root before later) (link : later.HoldsLink place) : before.HoldsLink place := by
  obtain ⟨target, link⟩ := link
  exact ⟨target, confined.links place target link⟩

/-- Nothing that lies above the root changes where there is no directory. -/
theorem apart_of_above (confined : Confined root before later) (free : later.get? place ≠ some .directory)
    (above : outer <:+ root) : outer ≠ place := by
  rintro rfl
  exact free (confined.opens outer above)

/-- An entry other than a link is put at a place of the root where there is no directory. -/
theorem set (confined : Confined root before later) (inside : root <:+ place)
    (free : later.get? place ≠ some .directory) {entry : Entry} (noLink : ∀ target, entry ≠ .link target) :
    Confined root before (later.set place entry) where
  kept := by
    intro other outside
    rw [get?_set, if_neg (by rintro ⟨rfl, -⟩; exact outside inside)]
    exact confined.kept other outside
  opens := by
    intro outer above
    rw [get?_set, if_neg fun same => confined.apart_of_above free above same.1]
    exact confined.opens outer above
  links := by
    intro other target link
    rw [get?_set] at link
    split at link
    · exact absurd (Option.some.inj link) (noLink target)
    · exact confined.links other target link

theorem erase (confined : Confined root before later) (inside : root <:+ place)
    (free : later.get? place ≠ some .directory) : Confined root before (later.erase place) where
  kept := by
    intro other outside
    rw [get?_erase, if_neg (by rintro ⟨rfl, -⟩; exact outside inside)]
    exact confined.kept other outside
  opens := by
    intro outer above
    rw [get?_erase, if_neg fun same => confined.apart_of_above free above same.1]
    exact confined.opens outer above
  links := by
    intro other target link
    rw [get?_erase] at link
    split at link
    · cases link
    · exact confined.links other target link

theorem survives (root : Location) (before : FileTree) : Survives root (Confined root before) where
  file := fun confined inside free _ => confined.set inside free fun _ => Entry.noConfusion
  erase := fun confined inside free => confined.erase inside free

end Confined

namespace Steady

theorem retraces (steady : Steady root before later) : Retraces before later := ⟨steady.links, steady.directories⟩

theorem refl (opens : tree.Opens root) : Steady root tree tree where
  kept := fun _ _ => rfl
  opens := opens
  links := (Retraces.refl tree).links
  directories := (Retraces.refl tree).directories

theorem survives (root : Location) (before : FileTree) : Survives root (Steady root before) where
  file := by
    intro tree place steady inside free content
    refine ⟨(Confined.survives root before).file steady.toConfined inside free content, fun other directory => ?_⟩
    rw [get?_set] at directory
    split at directory
    · cases directory
    · exact steady.directories other directory
  erase := by
    intro tree place steady inside free
    refine ⟨(Confined.survives root before).erase steady.toConfined inside free, fun other directory => ?_⟩
    rw [get?_erase] at directory
    split at directory
    · cases directory
    · exact steady.directories other directory

end Steady

/-! ## Making directories -/

theorem createDirectory_root (tree made : FileTree) : tree.createDirectory (.ofLocation []) ≠ .ok made := by
  intro created
  cases created

private theorem createDirectory_ok (created : tree.createDirectory (.ofLocation (name :: outer)) = .ok made) :
    ∃ above, tree.Leads (.ofLocation outer) above ∧ tree.get? (name :: above) = none ∧
      made = tree.set (name :: above) .directory := by
  obtain ⟨place, located, rest⟩ := except_bind_eq_ok_iff.mp created
  obtain ⟨above, leads, same⟩ := locate_entry located
  obtain rfl := same Bool.noConfusion
  split at rest
  · cases rest
  · rename_i free
    exact ⟨above, leads, free, (Except.ok.inj rest).symm⟩

/-- A new directory adds to what is there. -/
theorem embeds_set_directory (free : tree.get? place = none) : Embeds tree (tree.set place .directory) where
  directories := by
    intro other directory
    rw [get?_set]
    split
    · rfl
    · exact directory
  links := by
    intro other target link
    rw [get?_set]
    split
    · rename_i here
      rw [here.1, free] at link
      cases link
    · exact link

/-- Without a link below a place the names below it are taken as they are written. -/
theorem Resolves.below (resolves : tree.Resolves (.ofLocation outer) place)
    (free : tree.LinkFreeBelow place) (inner : Location) :
    tree.Resolves (.ofLocation (inner ++ outer)) (inner ++ place) := by
  induction inner with
  | nil => exact resolves
  | cons name inner ih => exact ih.entry (free (name :: inner) (List.cons_ne_nil name inner))

/-- A free place on the way to a directory in the root is in the root. -/
theorem Steady.inside_of_free (steady : Steady root before later) (nested : before.Nested) {inner : Location}
    (leads : later.Leads (.ofLocation outer) place) (free : later.get? (name :: place) = none)
    (goal : root <:+ before.realLocation (.ofLocation (inner ++ name :: outer))) : root <:+ name :: place := by
  by_contra outside
  have nothing : before.get? (name :: place) = none := (steady.kept _ outside).symm.trans free
  have here : before.Resolves (.ofLocation (name :: outer)) (name :: place) :=
    (steady.retraces.resolves leads).entry (not_holdsLink_of_free nothing)
  rw [(here.below (nested.linkFreeBelow (by rw [nothing]; simp)) inner).realLocation] at goal
  rcases List.suffix_or_suffix_of_suffix goal (List.suffix_append inner (name :: place)) with inside | above
  · exact outside inside
  · -- What lies above the root is a directory, and not free.
    have directory := steady.opens (name :: place) above
    rw [free] at directory
    cases directory

/-- A directory that is made on the way to a directory of the root is made in the root. -/
theorem Confined.createDirectory (confined : Confined root before later) (nested : before.Nested)
    (tracks : Tracks root before later outer) {inner : Location}
    (goal : root <:+ before.realLocation (.ofLocation (inner ++ name :: outer)))
    (created : later.createDirectory (.ofLocation (name :: outer)) = .ok made) :
    Confined root before made ∧ Tracks root before made (name :: outer) := by
  obtain ⟨above, leads, free, rfl⟩ := createDirectory_ok created
  have inside : root <:+ name :: above := by
    rcases tracks with directories | known
    · exact Steady.inside_of_free ⟨confined, directories⟩ nested leads free goal
    · exact (known above leads).1.trans (List.suffix_cons name above)
  have directory : (later.set (name :: above) .directory).get? (name :: above) = some .directory := by
    rw [get?_set, if_pos ⟨rfl, List.cons_ne_nil name above⟩]
  refine ⟨confined.set inside (by rw [free]; simp) fun _ => Entry.noConfusion, ?_⟩
  -- The path to the new directory leads to it.
  have leadsTo {place : Location}
      (leads' : (later.set (name :: above) .directory).Leads (.ofLocation (name :: outer)) place) :
      place = name :: above := by
    obtain ⟨outer', leadsOuter, same⟩ := locate_entry leads'.located
    obtain rfl := leadsOuter.unique ((embeds_set_directory free).leads leads)
    exact same fun _ link => link.ne_directory directory
  rcases tracks with directories | known
  · by_cases link : before.HoldsLink (name :: above)
    · refine .inr fun place leads' => ?_
      rw [leadsTo leads']
      exact ⟨inside, nested.linkFreeBelow link.ne_directory⟩
    · refine .inl fun place found => ?_
      rw [get?_set] at found
      split at found
      · rename_i here
        exact here.1 ▸ link
      · exact directories place found
  · refine .inr fun place leads' => ?_
    rw [leadsTo leads']
    exact ⟨inside, (known above leads).2.below name⟩

/-- Where there is a directory at a path to an entry already, it is known if the one above it is. -/
theorem Tracks.entry (tracks : Tracks root before later outer) (confined : Confined root before later) :
    Tracks root before later (name :: outer) := by
  rcases tracks with directories | known
  · exact .inl directories
  · refine .inr fun place leads => ?_
    obtain ⟨outer', leadsOuter, same⟩ := locate_entry leads.located
    obtain ⟨inside, free⟩ := known outer' leadsOuter
    obtain rfl := same fun _ link => free.entry name (confined.holdsLink link)
    exact ⟨inside.trans (List.suffix_cons name outer'), free.below name⟩

/-- Making a directory on the way to one of the root, with its parents, changes the tree within the root. -/
theorem Steady.ensureDirectoryWithin (steady : Steady root before later) (nested : before.Nested) {bound : Nat}
    {directory : Location} (inner : Location) (goal : root <:+ before.realLocation (.ofLocation (inner ++ directory)))
    (ensured : later.ensureDirectoryWithin bound (.ofLocation directory) = .ok made) :
    Confined root before made ∧ Tracks root before made directory := by
  induction bound generalizing directory inner made with
  | zero => cases ensured
  | succ bound ih =>
    rcases ensureDirectoryWithin_cases ensured with created | ⟨rfl, -⟩ | ⟨name, outer, parents, rfl, ensured, rest⟩
    · cases directory with
      | nil => exact absurd created (createDirectory_root later made)
      | cons name outer => exact steady.createDirectory nested (.inl steady.directories) goal created
    · exact ⟨steady.toConfined, .inl steady.directories⟩
    · obtain ⟨confined, tracks⟩ := ih (inner ++ [name]) (by simpa using goal) ensured
      rcases rest with created | ⟨rfl, -⟩
      · exact confined.createDirectory nested tracks goal created
      · exact ⟨confined, tracks.entry confined⟩

/-- Making a directory of the root changes the tree within the root. -/
theorem Steady.ensureDirectory (steady : Steady root before later) (nested : before.Nested) {directory : Location}
    (goal : root <:+ before.realLocation (.ofLocation directory))
    (ensured : later.ensureDirectory (.ofLocation directory) = .ok made) :
    Confined root before made ∧ Tracks root before made directory :=
  steady.ensureDirectoryWithin nested [] goal ensured

/-- Where making a directory of the root is refused, the parents that were made are in the root. -/
theorem Steady.refused (steady : Steady root before later) (nested : before.Nested) {directory : Location}
    (goal : root <:+ before.realLocation (.ofLocation directory)) :
    Confined root before (later.refused (.ofLocation directory)) := by
  have within (bound : Nat) (inner directory : Location)
      (goal : root <:+ before.realLocation (.ofLocation (inner ++ directory))) :
      Confined root before (later.refusedWithin bound (.ofLocation directory)) := by
    induction bound generalizing inner directory with
    | zero => exact steady.toConfined
    | succ bound ih =>
      rw [refusedWithin]
      split
      · cases directory with
        | nil =>
          rename_i missing
          cases missing
        | cons name outer =>
          have goal' : root <:+ before.realLocation (.ofLocation (inner ++ [name] ++ outer)) := by simpa using goal
          rw [Path.parent_ofLocation]
          split
          · rename_i parents ensured
            exact (steady.ensureDirectoryWithin nested _ goal' ensured).1
          · exact ih _ _ goal'
      · exact steady.toConfined
  exact within _ [] directory goal

/-- What is there stays where directories are made. -/
theorem get?_of_ensureDirectoryWithin {bound : Nat} {directory : Location} (there : tree.get? place ≠ none)
    (ensured : tree.ensureDirectoryWithin bound (.ofLocation directory) = .ok made) :
    made.get? place = tree.get? place := by
  have stays {tree made : FileTree} {directory : Location} (there : tree.get? place ≠ none)
      (created : tree.createDirectory (.ofLocation directory) = .ok made) : made.get? place = tree.get? place := by
    cases directory with
    | nil => exact absurd created (createDirectory_root tree made)
    | cons name outer =>
      obtain ⟨above, -, free, rfl⟩ := createDirectory_ok created
      rw [get?_set, if_neg]
      rintro ⟨rfl, -⟩
      exact there free
  induction bound generalizing directory made with
  | zero => cases ensured
  | succ bound ih =>
    rcases ensureDirectoryWithin_cases ensured with created | ⟨rfl, -⟩ | ⟨name, outer, parents, rfl, ensured, rest⟩
    · exact stays there created
    · rfl
    · have same := ih ensured
      rcases rest with created | ⟨rfl, -⟩
      · exact (stays (same ▸ there) created).trans same
      · exact same

/-- Directories that are made in a tree take the place of no link in it. -/
theorem Steady.ensureDirectory_start (opens : tree.Opens root) (nested : tree.Nested) {directory : Location}
    (goal : root <:+ tree.realLocation (.ofLocation directory))
    (ensured : tree.ensureDirectory (.ofLocation directory) = .ok made) : Steady root tree made := by
  refine ⟨((Steady.refl opens).ensureDirectory nested goal ensured).1, fun place found link => ?_⟩
  have there : tree.get? place ≠ none := fun free => not_holdsLink_of_free free link
  rw [get?_of_ensureDirectoryWithin there ensured] at found
  exact link.ne_directory found

/-! ## Writing, renaming and removing -/

/-- A file is written in the directory to which its path leads, unless a link stands in its place. -/
theorem write_ok {content : ByteArray}
    (noLink : ∀ place, tree.Leads (.ofLocation outer) place → ¬ tree.HoldsLink (name :: place))
    (written : tree.write (.ofLocation (name :: outer)) content = .ok made) :
    ∃ place, tree.Leads (.ofLocation outer) place ∧ tree.get? (name :: place) ≠ some .directory ∧
      made = tree.set (name :: place) (.file content) := by
  obtain ⟨location, located, rest⟩ := except_bind_eq_ok_iff.mp written
  obtain ⟨place, leads, same⟩ := locate_entry located
  obtain rfl := same fun _ => noLink place leads
  split at rest
  · cases rest
  · rename_i notDirectory
    exact ⟨place, leads, notDirectory, (Except.ok.inj rest).symm⟩

/-- An entry that is not followed is found in the directory to which its path leads. -/
theorem Leads.entry (leads : tree.Leads (.ofLocation outer) place) {location : Location}
    (located : tree.locate false (.ofLocation (name :: outer)) = .ok location) : location = name :: place := by
  obtain ⟨other, leads', same⟩ := locate_entry located
  obtain rfl := leads'.unique leads
  exact same Bool.noConfusion

theorem embeds_set_file (notDirectory : tree.get? place ≠ some .directory) (noLink : ¬ tree.HoldsLink place)
    (content : ByteArray) : Embeds tree (tree.set place (.file content)) where
  directories := by
    intro other found
    rw [get?_set, if_neg (by rintro ⟨rfl, -⟩; exact notDirectory found)]
    exact found
  links := by
    intro other target found
    rw [get?_set, if_neg (by rintro ⟨rfl, -⟩; exact noLink ⟨target, found⟩)]
    exact found

/-- A file that takes the place of anything but a directory and a link leaves the paths to directories as they are. -/
theorem leads_set_file (notDirectory : tree.get? place ≠ some .directory) (noLink : ¬ tree.HoldsLink place)
    (content : ByteArray) {path : Path} {directory : Location} (leads : tree.Leads path directory) :
    (tree.set place (.file content)).Leads path directory := (embeds_set_file notDirectory noLink content).leads leads

/-- A file moved within a directory takes the place of anything but a directory there. -/
theorem rename_ok {beside : Name} {content : ByteArray} (leads : tree.Leads (.ofLocation outer) place)
    (there : tree.get? (beside :: place) = some (.file content))
    (renamed : tree.rename (.ofLocation (beside :: outer)) (.ofLocation (name :: outer)) = .ok made) :
    tree.get? (name :: place) ≠ some .directory ∧
      made = (tree.erase (beside :: place)).set (name :: place) (.file content) := by
  obtain ⟨origin, located, rest⟩ := except_bind_eq_ok_iff.mp renamed
  obtain ⟨goal, located', rest⟩ := except_bind_eq_ok_iff.mp rest
  obtain rfl := leads.entry located
  obtain rfl := leads.entry located'
  rw [there] at rest
  split at rest
  · cases rest
  · cases rest
  · rename_i same notDirectory
    cases same
    exact ⟨notDirectory, (Except.ok.inj rest).symm⟩

private theorem remove_ok (removed : tree.remove (.ofLocation (name :: outer)) = .ok made) :
    ∃ place, tree.Leads (.ofLocation outer) place ∧ tree.get? (name :: place) ≠ some .directory ∧
      made = tree.erase (name :: place) := by
  obtain ⟨location, located, rest⟩ := except_bind_eq_ok_iff.mp removed
  obtain ⟨place, leads, same⟩ := locate_entry located
  obtain rfl := same Bool.noConfusion
  split at rest
  · cases rest
  · cases rest
  · rename_i entry notDirectory there
    refine ⟨place, leads, fun directory => ?_, (Except.ok.inj rest).symm⟩
    exact notDirectory (Option.some.inj (there.symm.trans directory))

end FileTree

/-! ## Runs that write and remove files -/

open FileTree

namespace Run

variable {root : Location} {holds : FileTree → Prop} {before : World} {outer : Location} {name : Name}

/-- A file of a directory in the root is replaced, on either ending, if no link stands where its new text is
written first. -/
theorem left_replaceText_of_survives (survives : Survives root holds) (start : holds before.tree) {ending : Text}
    (noSlash : '/' ∉ ending) (free : ∀ place, before.tree.Leads (.ofLocation outer) place →
      root <:+ place ∧ ¬ before.tree.HoldsLink (name.suffixed ending noSlash :: place)) (text : Text) :
    holds ((replaceText (.ofLocation (name :: outer)) ending text).left before) := by
  rw [replaceText, Path.withNameSuffix_ofLocation name outer ending noSlash]
  generalize name.suffixed ending noSlash = beside at free
  have written {made : FileTree} (known : before.tree.write (.ofLocation (beside :: outer)) text.utf8 = .ok made) :
      ∃ place, before.tree.Leads (.ofLocation outer) place ∧ before.tree.get? (beside :: place) ≠ some .directory ∧
        made = before.tree.set (beside :: place) (.file text.utf8) := write_ok (fun place leads => (free place leads).2) known
  have inRoot {place : Location} (leads : before.tree.Leads (.ofLocation outer) place) (entry : Name) :
      root <:+ entry :: place := (free place leads).1.trans (List.suffix_cons entry place)
  refine left_bind holds ?_ fun _ middle given => ?_
  · rcases left_change _ before with still | known
    · exact still ▸ start
    · obtain ⟨place, leads, notDirectory, made⟩ := written known
      rw [made]
      exact survives.file start (inRoot leads beside) notDirectory _
  · obtain ⟨made, known, rfl⟩ := gives_change.mp given
    obtain ⟨place, leads, notDirectory, rfl⟩ := written known
    have middle := survives.file start (inRoot leads beside) notDirectory text.utf8
    rcases left_change (·.rename (.ofLocation (beside :: outer)) (.ofLocation (name :: outer))) _ with still | moved
    · rw [still]
      exact middle
    · have leads' := leads_set_file notDirectory (free place leads).2 text.utf8 leads
      have there : (before.tree.set (beside :: place) (.file text.utf8)).get? (beside :: place) =
          some (.file text.utf8) := by
        rw [get?_set, if_pos ⟨rfl, List.cons_ne_nil beside place⟩]
      obtain ⟨notDirectory', made⟩ := rename_ok leads' there moved
      rw [made]
      refine survives.file (survives.erase middle (inRoot leads beside) (by rw [there]; simp)) (inRoot leads name) ?_ _
      rw [get?_erase]
      split
      · simp
      · exact notDirectory'

/-- An entry of a directory in the root is removed, or is not. -/
theorem left_remove_of_survives (survives : Survives root holds) (start : holds before.tree)
    (inside : ∀ place, before.tree.Leads (.ofLocation outer) place → root <:+ place) :
    holds ((change (·.remove (.ofLocation (name :: outer)))).left before) := by
  rcases left_change _ before with still | removed
  · exact still ▸ start
  · obtain ⟨place, leads, notDirectory, made⟩ := remove_ok removed
    rw [made]
    exact survives.erase start ((inside place leads).trans (List.suffix_cons name place)) notDirectory

end Run

end PromptCompiler
