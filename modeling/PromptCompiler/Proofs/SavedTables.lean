import PromptCompiler.Proofs.MovedEntries
import PromptCompiler.Proofs.Stores

/-! # Tables that are saved and loaded

A table is written under a draft name beside its path and then moved over what is there. If nothing is left under
the draft name before, the file that is moved is the table. If a link is left there, the table is written to where
the link leads, and the link takes the place of the old table. Then the table is found again if the link still leads
there, and it does not if it led to the old table, or past it (`load_save_iff`).
-/

namespace PromptCompiler

open FileTree

namespace FileTree

variable {tree made : FileTree} {path directory : Path} {ending : Text} {above goal place draft : Location}
  {name beside : Name} {content : ByteArray}

/-- Whether a path leads to a place, not to a given one and not through it. -/
def LeadsPast (tree : FileTree) (path : Path) (barrier : Location) : Prop :=
  ∃ place, place ≠ barrier ∧ (tree.erase barrier).locate true path = .ok place

/-- Whether a file can be replaced at a path by way of a draft, its name with an ending beside it. -/
structure Writable (tree : FileTree) (path : Path) (ending : Text) (made : FileTree) (goal : Location) : Prop where
  /-- The directory is there or can be made. -/
  ensured : tree.ensureDirectory path.parent = .ok made
  /-- Then the path leads to an entry, which is free or no directory. -/
  located : made.locate false path = .ok goal
  notDirectory : made.get? goal ≠ some .directory
  /-- The draft can be written, to where a link leads that is in its place. -/
  draft : ∃ place, made.locate true (path.withNameSuffix ending) = .ok place ∧ made.get? place ≠ some .directory

/-- Only a path that ends with a name leads to something else than a directory. -/
theorem exists_child_of_locate {follow : Bool} (located : tree.locate follow path = .ok place)
    (notDirectory : tree.get? place ≠ some .directory) : ∃ directory name, path = Path.child directory name := by
  obtain ⟨anchor, steps⟩ := path
  obtain ⟨-, walked⟩ := locate_eq_ok_iff_walkWithin.mp located
  rcases List.eq_nil_or_concat steps with rfl | ⟨before, last, rfl⟩
  · cases walked
    exact absurd (get?_root tree) notDirectory
  · rw [List.concat_eq_append] at walked ⊢
    cases last with
    | into name => exact ⟨⟨anchor, before⟩, name, rfl⟩
    | up =>
      obtain ⟨middle, -, opens, less, -, ended⟩ := walkWithin_append (opens_root tree) (List.cons_ne_nil _ _) walked
      cases less with
      | zero => cases ended
      | succ less =>
        cases ended
        exact absurd opens.tail.directory notDirectory

/-- A file that can be read is where its path leads. -/
theorem read_eq_ok_iff_locate : tree.read path = .ok content ↔
    ∃ place, tree.locate true path = .ok place ∧ tree.get? place = some (.file content) := by
  rw [FileTree.read, status]
  cases tree.locate true path with
  | error fault => simp [bind, Except.bind]
  | ok place =>
    rcases there : tree.get? place with _ | _ | _ | _ <;> simp [bind, Except.bind, there]

theorem probe_eq_file_iff : tree.probe path = .ok (some (.file content)) ↔ tree.read path = .ok content := by
  rw [FileTree.read, probe]
  cases tree.status path with
  | error fault => cases fault <;> simp [bind, Except.bind]
  | ok entry => rcases entry with _ | _ | _ <;> simp [bind, Except.bind]

/-- What is known when a draft is written beside a name and then takes its place. -/
structure Replacing (made : FileTree) (directory : Path) (above : Location) (name beside : Name) (draft : Location) :
    Prop where
  leads : made.Leads directory above
  allowed : Allowed name
  allowedBeside : Allowed beside
  apart : beside ≠ name
  notDirectory : made.get? (name :: above) ≠ some .directory
  /-- Where the draft is written. -/
  located : made.locate true (directory.child beside) = .ok draft
  draftFree : made.get? draft ≠ some .directory

/-- The tree with the draft. -/
def drafted (made : FileTree) (draft : Location) (content : ByteArray) : FileTree := made.set draft (.file content)

/-- The tree with the entry of the draft's name in the place of another one. -/
def settled (made : FileTree) (draft : Location) (content : ByteArray) (above : Location) (name beside : Name)
    (entry : Entry) : FileTree :=
  ((made.drafted draft content).erase (beside :: above)).set (name :: above) entry

theorem Writable.replacing (writable : tree.Writable path ending made goal) (noSlash : '/' ∉ ending)
    (notEmpty : ending ≠ []) : ∃ directory above name draft, path = directory.child name ∧ goal = name :: above ∧
      tree.ensureDirectory directory = .ok made ∧
      Replacing made directory above name (name.suffixed ending noSlash) draft := by
  have ensured := writable.ensured
  obtain ⟨directory, name, rfl⟩ := exists_child_of_locate writable.located writable.notDirectory
  obtain ⟨above, leads, allowed, same⟩ := locate_child_ok writable.located
  obtain rfl := same Bool.noConfusion
  obtain ⟨draft, located, draftFree⟩ := writable.draft
  rw [Path.withNameSuffix_child _ _ _ noSlash] at located
  rw [Path.parent_child] at ensured
  obtain ⟨-, -, allowedBeside, -⟩ := locate_child_ok located
  exact ⟨directory, above, name, draft, rfl, rfl, ensured, leads, allowed, allowedBeside, name.suffixed_ne noSlash notEmpty,
    writable.notDirectory, located, draftFree⟩

namespace Replacing

variable (replacing : Replacing made directory above name beside draft)

include replacing

private theorem entries_ne : beside :: above ≠ name :: above := fun same => replacing.apart (List.cons.inj same).1

theorem noLink : ¬ made.HoldsLink draft := not_holdsLink_of_locate replacing.located

private theorem get?_drafted (content : ByteArray) :
    (made.drafted draft content).get? draft = some (.file content) := by
  have notRoot : draft ≠ [] := by
    rintro rfl
    exact replacing.draftFree (get?_root made)
  rw [drafted, get?_set, if_pos ⟨rfl, notRoot⟩]

omit replacing in
private theorem get?_drafted_of_ne (made : FileTree) (content : ByteArray) {place : Location} (apart : place ≠ draft) :
    (made.drafted draft content).get? place = made.get? place := by
  rw [drafted, get?_set, if_neg fun same => apart same.1]

/-- Under the draft's name there is the draft itself, or a link that leads to it. -/
theorem entry_cases (content : ByteArray) :
    (draft = beside :: above ∧ (made.drafted draft content).get? (beside :: above) = some (.file content)) ∨
      ∃ target, draft ≠ beside :: above ∧
        (made.drafted draft content).get? (beside :: above) = some (.link target) := by
  by_cases link : made.HoldsLink (beside :: above)
  · obtain ⟨target, link⟩ := link
    have other : draft ≠ beside :: above := by
      rintro rfl
      exact replacing.noLink ⟨target, link⟩
    exact .inr ⟨target, other, (get?_drafted_of_ne made content other.symm).trans link⟩
  · obtain ⟨above', leads, -, same⟩ := locate_child_ok replacing.located
    obtain rfl := leads.unique replacing.leads
    obtain rfl := same fun _ => link
    exact .inl ⟨rfl, replacing.get?_drafted content⟩

private theorem exists_entry (content : ByteArray) :
    ∃ entry, (made.drafted draft content).get? (beside :: above) = some entry := by
  rcases replacing.entry_cases content with ⟨-, file⟩ | ⟨target, -, link⟩
  · exact ⟨_, file⟩
  · exact ⟨_, link⟩

private theorem write_eq (content : ByteArray) :
    made.write (directory.child beside) content = .ok (made.drafted draft content) := by
  refine except_bind_eq_ok_iff.mpr ⟨draft, replacing.located, ?_⟩
  split
  · rename_i found
    exact absurd found replacing.draftFree
  · rfl

private theorem rename_eq (there : (made.drafted draft content).get? (beside :: above) = some entry) :
    (made.drafted draft content).rename (directory.child beside) (directory.child name) =
      .ok (made.settled draft content above name beside entry) := by
  have leads : (made.drafted draft content).Leads directory above :=
    leads_set_file replacing.draftFree replacing.noLink content replacing.leads
  have free : (made.drafted draft content).get? (name :: above) ≠ some .directory := fun found =>
    replacing.notDirectory ((embeds_of_set_file made draft content).directories _ found)
  refine except_bind_eq_ok_iff.mpr ⟨_, leads.locate_child replacing.allowedBeside Bool.noConfusion, ?_⟩
  refine except_bind_eq_ok_iff.mpr ⟨_, leads.locate_child replacing.allowed Bool.noConfusion, ?_⟩
  rw [there]
  split
  · contradiction
  · rename_i found
    exact absurd found free
  · rename_i same _
    cases same
    rfl

/-- The entry of the draft's name has got the other name, and the entry that was there is gone. -/
theorem renames (there : (made.drafted draft content).get? (beside :: above) = some entry) :
    Renames ((made.drafted draft content).erase (name :: above))
      (made.settled draft content above name beside entry) above beside name entry where
  there := by rw [get?_erase, if_neg fun same => replacing.entries_ne same.1, there]
  free := by rw [get?_erase, if_pos ⟨rfl, List.cons_ne_nil _ _⟩]
  moved := by rw [settled, get?_set, if_pos ⟨rfl, List.cons_ne_nil _ _⟩]
  gone := by
    rw [settled, get?_set, if_neg fun same => replacing.entries_ne same.1, get?_erase,
      if_pos ⟨rfl, List.cons_ne_nil _ _⟩]
  kept := by
    intro place apart apart'
    rw [settled, get?_set, if_neg fun same => apart' same.1, get?_erase, if_neg fun same => apart same.1, get?_erase,
      if_neg fun same => apart' same.1]

/-- Nothing leads through the draft's name to a directory. -/
theorem deadEnd : made.DeadEnd (beside :: above) := by
  obtain ⟨-, rfl | ⟨target, budget, link, walked⟩⟩ := replacing.leads.walk_child replacing.located
  · exact deadEnd_of_not_holdsLink replacing.draftFree replacing.noLink
  · exact deadEnd_of_target link walked replacing.draftFree

omit replacing in
private theorem embeds_drafted_erase (made : FileTree) (draft other : Location) (content : ByteArray) :
    Embeds ((made.drafted draft content).erase other) (made.erase other) :=
  (embeds_of_set_file made draft content).erase other

private theorem embeds_erase_drafted (other : Location) (content : ByteArray) :
    Embeds (made.erase other) ((made.drafted draft content).erase other) :=
  (embeds_set_file replacing.draftFree replacing.noLink content).erase other

private theorem deadEnd_drafted (other : Location) (content : ByteArray) :
    ((made.drafted draft content).erase other).DeadEnd (beside :: above) :=
  (replacing.deadEnd.erase other).of_embeds (embeds_drafted_erase made draft other content)

/-- Directories are where they were. -/
theorem opens_settled : (made.settled draft content above name beside entry).Opens above := by
  intro outer inside
  have directory := replacing.leads.opens outer inside
  have notGoal : outer ≠ name :: above := by
    rintro rfl
    exact replacing.notDirectory directory
  have notBeside : outer ≠ beside :: above := by
    rintro rfl
    exact replacing.deadEnd.notDirectory directory
  have notDraft : outer ≠ draft := by
    rintro rfl
    exact replacing.draftFree directory
  rw [settled, get?_set, if_neg fun same => notGoal same.1, get?_erase, if_neg fun same => notBeside same.1,
    get?_drafted_of_ne made content notDraft, directory]

private theorem leadsPast_of_free (unlinked : ¬ made.HoldsLink (beside :: above))
    (dead : made.DeadEnd (name :: above)) :
    made.LeadsPast (directory.child beside) (name :: above) := by
  refine ⟨beside :: above, replacing.entries_ne, ?_⟩
  refine (dead.leads_erase replacing.leads).locate_child replacing.allowedBeside fun _ => ?_
  rintro ⟨target, link⟩
  exact unlinked ⟨target, (embeds_erase made _).links _ target link⟩

/-- A draft that can be reached past the old entry is read in its place. -/
theorem read_settled (there : (made.drafted draft content).get? (beside :: above) = some entry)
    (past : made.LeadsPast (directory.child beside) (name :: above)) :
    (made.settled draft content above name beside entry).read (directory.child name) = .ok content := by
  have renames := replacing.renames there
  obtain ⟨place, apart, located⟩ := past
  have same : made.get? place = (made.erase (name :: above)).get? place := by
    rw [get?_erase, if_neg fun same => apart same.1]
  have again : made.locate true (directory.child beside) = .ok place := by
    refine (embeds_erase made (name :: above)).locate_end located ?_ ?_
    · rw [HoldsLink, same]
      exact not_holdsLink_of_locate located
    · rw [isDirectoryAt, isDirectoryAt, same]
  obtain rfl : draft = place := Except.ok.inj (replacing.located.symm.trans again)
  rw [locate_iff_of_embeds (replacing.embeds_erase_drafted _ content) (embeds_drafted_erase made draft _ content)] at located
  have dead := replacing.deadEnd_drafted (name :: above) content
  obtain ⟨above', leads, -, -⟩ := locate_child_ok located
  obtain rfl : above = above' := by
    have leads' := (embeds_drafted_erase made draft (name :: above) content).leads leads
    exact replacing.leads.unique ((embeds_erase made _).leads leads')
  have reached : ∃ goal, (made.settled draft content above name beside entry).locate true (directory.child name) = .ok goal ∧
      (made.settled draft content above name beside entry).get? goal = some (.file content) := by
    rcases replacing.entry_cases content with ⟨rfl, file⟩ | ⟨target, other, link⟩
    · cases Option.some.inj (there.symm.trans file)
      refine ⟨_, (renames.leads dead leads).locate_child replacing.allowed fun _ => ?_, renames.moved⟩
      rintro ⟨target, link⟩
      rw [renames.moved] at link
      cases link
    · cases Option.some.inj (there.symm.trans link)
      refine ⟨draft, renames.locate_link dead leads replacing.allowed located apart, ?_⟩
      rw [renames.kept draft other apart, get?_erase, if_neg fun same => apart same.1, replacing.get?_drafted content]
  exact read_eq_ok_iff_locate.mpr reached

/-- Only such a draft can be read. -/
theorem leadsPast_of_read (there : (made.drafted draft content).get? (beside :: above) = some entry) {found : ByteArray}
    (read : (made.settled draft content above name beside entry).read (directory.child name) = .ok found) :
    made.LeadsPast (directory.child beside) (name :: above) := by
  have renames := replacing.renames there
  have dead := renames.deadEnd replacing.opens_settled (replacing.deadEnd_drafted _ content)
  obtain ⟨goal, located, file⟩ := read_eq_ok_iff_locate.mp read
  obtain ⟨above', leads, -, -⟩ := locate_child_ok located
  have earlier := renames.symm.leads dead leads
  obtain rfl : above = above' := by
    have leads' := (embeds_drafted_erase made draft (name :: above) content).leads earlier
    exact replacing.leads.unique ((embeds_erase made _).leads leads')
  have reached : ∃ place, place ≠ name :: above ∧
      ((made.drafted draft content).erase (name :: above)).locate true (directory.child beside) = .ok place := by
    rcases replacing.entry_cases content with ⟨rfl, own⟩ | ⟨target, other, link⟩
    · refine ⟨_, replacing.entries_ne, earlier.locate_child replacing.allowedBeside fun _ => ?_⟩
      rintro ⟨target, link⟩
      rw [renames.there, ← there, own] at link
      cases link
    · cases Option.some.inj (there.symm.trans link)
      have notBeside : goal ≠ beside :: above := by
        rintro rfl
        rw [renames.gone] at file
        cases file
      refine ⟨goal, ?_, renames.symm.locate_link dead leads replacing.allowedBeside located notBeside⟩
      rintro rfl
      rw [renames.moved] at file
      cases file
  obtain ⟨place, apart, located⟩ := reached
  exact ⟨place, apart, (locate_iff_of_embeds (embeds_drafted_erase made draft _ content)
    (replacing.embeds_erase_drafted _ content)).mp located⟩

end Replacing

end FileTree

/-! ## Loading -/

namespace ToolTable

variable {table : ToolTable} {path : Path} {before after : World}

private theorem gives_load_of_read {content : ByteArray} (read : before.tree.read path = .ok content)
    (known : ofBytes content = .ok table) : (load path).Gives before table before := by
  simp only [load, Run.gives_bind, Run.gives_ask]
  refine ⟨_, before, ⟨probe_eq_file_iff.mpr read, rfl⟩, ?_⟩
  simp only [known]
  exact Run.gives_pure.mpr ⟨rfl, rfl⟩

/-- Loading gives the table in the file, or else the empty table and a warning. -/
theorem of_gives_load (given : (load path).Gives before table after) :
    (after = before ∧ ∃ content, before.tree.read path = .ok content) ∨ (table = .empty ∧ after ≠ before) := by
  simp only [load, Run.gives_bind, Run.gives_ask] at given
  obtain ⟨answer, _, ⟨probed, rfl⟩, rest⟩ := given
  split at rest
  · simp only [Run.gives_bind, Run.gives_complain, Run.gives_pure] at rest
    obtain ⟨-, _, rfl, rfl, rfl⟩ := rest
    refine .inr ⟨rfl, fun same => ?_⟩
    have lengths := congrArg (fun world => world.complaints.length) same
    simp only [List.length_append, List.length_singleton] at lengths
    omega
  · rename_i content
    split at rest
    · obtain ⟨-, rfl⟩ := Run.gives_pure.mp rest
      exact .inl ⟨rfl, content, probe_eq_file_iff.mp probed⟩
    · exact absurd rest Run.not_gives_throw
  · exact absurd rest Run.not_gives_throw

private theorem draftEnding_noSlash : '/' ∉ draftEnding := by decide

/-- Saving a table writes a draft and moves what is there under its name. -/
theorem gives_save (table : ToolTable) {directory : Path} {above draft : Location} {name beside : Name} {made : FileTree}
    {entry : Entry} (ensured : before.tree.ensureDirectory directory = .ok made)
    (suffixed : name.suffixed draftEnding draftEnding_noSlash = beside)
    (replacing : Replacing made directory above name beside draft)
    (there : (made.drafted draft table.fileText.utf8).get? (beside :: above) = some entry) :
    (table.save (directory.child name)).Gives before ()
      { before with tree := made.settled draft table.fileText.utf8 above name beside entry } := by
  rw [save, Path.parent_child, Run.gives_bind]
  refine ⟨(), { before with tree := made }, Run.gives_ensureDirectory.mpr ⟨made, ensured, rfl⟩, ?_⟩
  rw [Run.replaceText, Path.withNameSuffix_child _ _ _ draftEnding_noSlash, suffixed]
  simp only [Run.gives_bind, Run.gives_change]
  exact ⟨(), _, ⟨_, replacing.write_eq _, rfl⟩, _, replacing.rename_eq there, rfl⟩

/-- A table can be saved at the paths that are writable, and at no others. -/
theorem exists_gives_save_iff (table : ToolTable) : (∃ after, (table.save path).Gives before () after) ↔
    ∃ made goal, before.tree.Writable path draftEnding made goal := by
  constructor
  · rintro ⟨after, given⟩
    rw [save, Run.replaceText] at given
    simp only [Run.gives_bind, Run.gives_ensureDirectory, Run.gives_change] at given
    obtain ⟨-, _, ⟨made, ensured, rfl⟩, -, _, ⟨written, writing, rfl⟩, moved, moving, rfl⟩ := given
    obtain ⟨draft, located, writing⟩ := except_bind_eq_ok_iff.mp writing
    obtain ⟨origin, -, moving⟩ := except_bind_eq_ok_iff.mp moving
    obtain ⟨goal, reached, moving⟩ := except_bind_eq_ok_iff.mp moving
    split at writing
    · cases writing
    rename_i draftFree
    cases writing
    split at moving
    · cases moving
    · cases moving
    rename_i notDirectory
    obtain ⟨directory, name, rfl⟩ := exists_child_of_locate reached notDirectory
    obtain ⟨above, leads, allowed, same⟩ := locate_child_ok reached
    obtain rfl := same Bool.noConfusion
    have leads := (embeds_of_set_file made draft _).leads leads
    refine ⟨made, name :: above, ensured, leads.locate_child allowed Bool.noConfusion, fun found => notDirectory ?_,
      draft, located, draftFree⟩
    exact (embeds_set_file draftFree (not_holdsLink_of_locate located) _).directories _ found
  · rintro ⟨made, goal, writable⟩
    obtain ⟨directory, above, name, draft, rfl, rfl, ensured, replacing⟩ :=
      writable.replacing draftEnding_noSlash (by decide)
    obtain ⟨entry, there⟩ := replacing.exists_entry table.fileText.utf8
    exact ⟨_, gives_save table ensured rfl replacing there⟩

/-- A table that is saved is loaded again if no link is left under the draft's name and the old table leads to no
directory. -/
theorem load_save (table : ToolTable) {made : FileTree} {goal : Location}
    (writable : before.tree.Writable path draftEnding made goal)
    (unlinked : ∀ draft, made.locate false (path.withNameSuffix draftEnding) = .ok draft → ¬ made.HoldsLink draft)
    (dead : made.DeadEnd goal) : ∃ after, (table.save path).Gives before () after ∧ (load path).Gives after table after := by
  obtain ⟨directory, above, name, draft, rfl, rfl, ensured, replacing⟩ :=
    writable.replacing draftEnding_noSlash (by decide)
  rw [Path.withNameSuffix_child _ _ _ draftEnding_noSlash] at unlinked
  obtain ⟨entry, there⟩ := replacing.exists_entry table.fileText.utf8
  have free := unlinked _ (replacing.leads.locate_child replacing.allowedBeside Bool.noConfusion)
  have read := replacing.read_settled there (replacing.leadsPast_of_free free dead)
  exact ⟨_, gives_save table ensured rfl replacing there, gives_load_of_read read (ofBytes_fileText table)⟩

/-- A table that is saved leaves no draft. It is loaded from its path as it was exactly if, before, the draft's name
led somewhere past the old table; if it did not, nothing but the empty table can be loaded, with a warning. -/
theorem load_save_iff (table : ToolTable) {path : Path} {before : World} {made : FileTree} {goal : Location}
    (writable : before.tree.Writable path draftEnding made goal) :
    ∃ after draft, (table.save path).Gives before () after ∧
      made.locate false (path.withNameSuffix draftEnding) = .ok draft ∧ after.tree.get? draft = none ∧
      ((load path).Gives after table after ↔ made.LeadsPast (path.withNameSuffix draftEnding) goal) ∧
      (¬ made.LeadsPast (path.withNameSuffix draftEnding) goal →
        ∀ found later, (load path).Gives after found later → found = .empty ∧ later ≠ after) := by
  obtain ⟨directory, above, name, draft, rfl, rfl, ensured, replacing⟩ :=
    writable.replacing draftEnding_noSlash (by decide)
  rw [Path.withNameSuffix_child _ _ _ draftEnding_noSlash]
  obtain ⟨entry, there⟩ := replacing.exists_entry table.fileText.utf8
  have draftLocated : made.locate false (directory.child (name.suffixed draftEnding draftEnding_noSlash)) = .ok _ :=
    replacing.leads.locate_child replacing.allowedBeside Bool.noConfusion
  refine ⟨_, _, gives_save table ensured rfl replacing there, draftLocated, (replacing.renames there).gone, ⟨?_, ?_⟩, ?_⟩
  · intro given
    rcases of_gives_load given with ⟨-, content, read⟩ | ⟨-, other⟩
    · exact replacing.leadsPast_of_read there read
    · exact absurd rfl other
  · intro past
    exact gives_load_of_read (replacing.read_settled there past) (ofBytes_fileText table)
  · intro lost found later given
    rcases of_gives_load given with ⟨-, content, read⟩ | empty
    · exact absurd (replacing.leadsPast_of_read there read) lost
    · exact empty

namespace Saved

/-- A directory that is not there yet. -/
def directory : Name := ⟨"d".toList, by decide⟩

/-- A path to the table that goes through the directory and back. -/
def location : Path := ⟨.root, [.into directory, .up, .into Layout.tableName]⟩

/-- What the table is when a link is left under the draft's name, besides other entries. -/
def world (target : Text) (entries : List (Location × Entry)) : World where
  tree := ⟨([Layout.tableDraftName], .link target) :: entries⟩
  output := []
  complaints := []

/-- A table with texts that are escaped in the file. -/
def sample : ToolTable := .ofList [("a\"\n\x7f".toList, "\\\x00".toList), ([], "\u2028😀".toList)]

end Saved

theorem load_save_iff_sample :
    let before := Saved.world "d/new".toList [([Layout.tableName], .link "d".toList)]
    let made := before.tree.set [Saved.directory] .directory
    before.tree.Writable Saved.location draftEnding made [Layout.tableName] ∧
      made.LeadsPast (Saved.location.withNameSuffix draftEnding) [Layout.tableName] ∧
      ∃ after draft, (Saved.sample.save Saved.location).Gives before () after ∧
        made.locate false (Saved.location.withNameSuffix draftEnding) = .ok draft ∧ after.tree.get? draft = none ∧
        ((load Saved.location).Gives after Saved.sample after ↔
          made.LeadsPast (Saved.location.withNameSuffix draftEnding) [Layout.tableName]) ∧
        (¬ made.LeadsPast (Saved.location.withNameSuffix draftEnding) [Layout.tableName] →
          ∀ found later, (load Saved.location).Gives after found later → found = .empty ∧ later ≠ after) := by
  intro before made
  have writable : before.tree.Writable Saved.location draftEnding made [Layout.tableName] :=
    { ensured := by rfl
      located := by decide
      notDirectory := by decide
      draft := ⟨[⟨"new".toList, by decide⟩, Saved.directory], by decide, by decide⟩ }
  have past : made.LeadsPast (Saved.location.withNameSuffix draftEnding) [Layout.tableName] :=
    ⟨[⟨"new".toList, by decide⟩, Saved.directory], by decide, by decide⟩
  exact ⟨writable, past, load_save_iff Saved.sample writable⟩

/-- With a link to the table left under the draft's name, the table is written and lost: the link takes its place and
leads to itself. -/
theorem load_save_selfLink :
    let before := Saved.world "tools.json".toList []
    before.tree.Writable Saved.location draftEnding (before.tree.set [Saved.directory] .directory) [Layout.tableName] ∧
      ∃ after, (Saved.sample.save Saved.location).Gives before () after ∧
        after.tree.get? [Layout.tableName] = some (.link "tools.json".toList) ∧
        ¬ ∃ later, (load Saved.location).Gives after Saved.sample later := by
  intro before
  have writable : before.tree.Writable Saved.location draftEnding (before.tree.set [Saved.directory] .directory)
      [Layout.tableName] :=
    { ensured := by rfl
      located := by decide
      notDirectory := by decide
      draft := ⟨[Layout.tableName], by decide, by decide⟩ }
  have saved : ((Saved.sample.save Saved.location).outcome before).1 = .ok () := by decide
  have lost : (((load Saved.location).outcome ((Saved.sample.save Saved.location).outcome before).2).1.toOption) =
      some .empty := by decide
  refine ⟨writable, ((Saved.sample.save Saved.location).outcome before).2, Prod.ext saved rfl, by decide, ?_⟩
  rintro ⟨later, loaded⟩
  have found := congrArg (fun ending => ending.1.toOption) loaded
  have apart : (.empty : ToolTable) ≠ Saved.sample := by decide
  exact apart (Option.some.inj (lost.symm.trans found))

end ToolTable

end PromptCompiler
