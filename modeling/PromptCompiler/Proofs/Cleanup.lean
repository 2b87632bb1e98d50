import Mathlib
import PromptCompiler.Proofs.DeadEnds
import PromptCompiler.Proofs.Stores

/-! # Which artifacts are removed

The names of artifacts are made by putting a base between a beginning and an ending, and recognised by testing for
both. The beginning ends in the character with which the ending begins, so one name passes the tests although
nothing fits between the two. But for a file of that name, removing orphans takes exactly the files with generated
names out of a directory.
-/

namespace PromptCompiler

open FileTree

namespace Artifact

/-- Whether a name consists of the beginning of artifact names, some base, and their ending. -/
def Generated (name : Text) : Prop := ∃ base, name = artifactBeginning ++ base ++ artifactEnding

/-- The name in which the beginning and the ending of artifact names share their dot. -/
def overlap : Text := "gsd.prompt.md".toList

/-- The generated names are the names of the artifacts of sources. -/
theorem generated_iff_nameFor (name : Text) :
    Generated name ↔ ∃ source, isSource source = true ∧ nameFor source = name := by
  constructor
  · rintro ⟨stem, rfl⟩
    have ends : isSource (stem ++ sourceEnding) = true :=
      List.isSuffixOf_iff_suffix.mpr (List.suffix_append stem sourceEnding)
    refine ⟨stem ++ sourceEnding, ends, ?_⟩
    rw [nameFor, List.append_cancel_right (base_append ends)]
  · rintro ⟨source, -, rfl⟩
    exact ⟨base source, rfl⟩

private theorem not_generated_overlap : ¬ Generated overlap := by
  rintro ⟨base, same⟩
  have lengths := congrArg List.length same
  rw [List.length_append, List.length_append, show overlap.length = 13 by decide,
    show artifactBeginning.length = 4 by decide, show artifactEnding.length = 10 by decide] at lengths
  omega

/-- The tests for the beginning and the ending find the generated names and one more. -/
theorem isArtifact_iff (name : Text) : isArtifact name = true ↔ Generated name ∨ name = overlap := by
  constructor
  · intro artifact
    rw [isArtifact, Bool.and_eq_true, List.isPrefixOf_iff_prefix, List.isSuffixOf_iff_suffix] at artifact
    obtain ⟨⟨rest, begins⟩, front, ends⟩ := artifact
    -- The ending lies after the beginning, or begins with a part of it, which is its dot.
    rcases List.append_eq_append_iff.mp (begins.trans ends.symm) with ⟨base, rfl, rfl⟩ | ⟨shared, split, split'⟩
    · exact .inl ⟨base, ends.symm⟩
    · have common : ∀ part ∈ artifactBeginning.tails, part <+: artifactEnding → part = [] ∨ part = ['.'] := by decide
      rcases common shared ((List.mem_tails shared _).mpr ⟨front, split.symm⟩) ⟨rest, split'.symm⟩ with rfl | rfl
      · exact .inl ⟨[], by rw [← begins, split', List.append_nil, List.nil_append]⟩
      · refine .inr (begins.symm.trans ?_)
        rw [show rest = artifactEnding.tail from (congrArg List.tail split').symm]
        rfl
  · rintro (generated | rfl)
    · obtain ⟨source, -, rfl⟩ := (generated_iff_nameFor name).mp generated
      exact isArtifact_nameFor source
    · decide

end Artifact

/-! ## Listing a directory with links -/

namespace FileTree

variable {tree : FileTree} {path : Path} {place : Location} {names : List Name}

private theorem exists_of_filterAuxM_eq_ok {α : Type} {question : α → Except SystemFault Bool}
    {items kept found : List α}
    (filtered : items.filterAuxM question kept = .ok found) :
    ∀ item ∈ items, ∃ answer, question item = .ok answer := by
  induction items generalizing kept with
  | nil => simp
  | cons item rest ih =>
    rw [List.filterAuxM] at filtered
    obtain ⟨answer, known, later⟩ := except_bind_eq_ok_iff.mp filtered
    intro other member
    rcases List.mem_cons.mp member with rfl | member
    · exact ⟨answer, known⟩
    · exact ih later other member

def isFileIn (tree : FileTree) (path : Path) (name : Name) : Bool :=
  (tree.isFile (path.child name)).toOption.getD false

theorem isFileIn_iff {name : Name} : tree.isFileIn path name = true ↔ tree.LeadsToFile (path.child name) := by
  rw [isFileIn, ← isFile_eq_ok_true_iff]
  cases tree.isFile (path.child name) with
  | error fault => simp [Except.toOption]
  | ok answer => simp [Except.toOption]

/-- The files of a directory are listed, unless a link in it leads to a name that is too long. -/
theorem Leads.files_eq_ok_iff (leads : tree.Leads path place) : tree.files path = .ok names ↔
    (∀ name ∈ tree.names place, tree.locate true (path.child name) ≠ .error .nameTooLong) ∧
      names = (tree.names place).filter (tree.isFileIn path) := by
  have listing : tree.files path = (tree.names place).filterM fun name => tree.isFile (path.child name) := by
    rw [files, leads.isDirectory_eq]
    change (tree.locate true path >>= _) = _
    rw [leads.located]
    rfl
  have answered (fine : ∀ name ∈ tree.names place, ∃ answer, tree.isFile (path.child name) = .ok answer) :
      tree.files path = .ok ((tree.names place).filter (tree.isFileIn path)) := by
    rw [listing]
    refine filterM_eq_ok fun name member => ?_
    obtain ⟨answer, known⟩ := fine name member
    rw [isFileIn, known]
    rfl
  constructor
  · intro listed
    obtain ⟨_, filtered, -⟩ := except_bind_eq_ok_iff.mp (listing.symm.trans listed)
    have fine := exists_of_filterAuxM_eq_ok filtered
    refine ⟨fun name member => exists_isFile_eq_ok_iff.mp (fine name member), ?_⟩
    exact Except.ok.inj (listed.symm.trans (answered fine))
  · rintro ⟨fine, rfl⟩
    exact answered fun name member => exists_isFile_eq_ok_iff.mpr (fine name member)

end FileTree

/-! ## Removing -/

namespace Layout

open Artifact

variable {prompts : Path} {place : Location} {before : World} {names : List Name}

/-- Dead ends are taken out of a directory one after the other, and nothing else changes. -/
theorem gives_removeAll (leads : before.tree.Leads prompts place) (nodup : names.Nodup)
    (dead : ∀ name ∈ names, Allowed name ∧ before.tree.get? (name :: place) ≠ none ∧
      before.tree.DeadEnd (name :: place)) :
    ∃ after, Run.Gives (forIn names PUnit.unit fun name _ => do
        Run.change (·.remove (prompts.child name)); pure (ForInStep.yield PUnit.unit)) before PUnit.unit after ∧
      (∀ name ∈ names, after.tree.get? (name :: place) = none) ∧
      ∀ other, (∀ name ∈ names, other ≠ name :: place) → after.tree.get? other = before.tree.get? other := by
  induction names generalizing before with
  | nil => exact ⟨before, Run.gives_forIn_nil.mpr rfl, by simp, fun _ _ => rfl⟩
  | cons name rest ih =>
    obtain ⟨allowed, there, deadEnd⟩ := dead name List.mem_cons_self
    obtain ⟨fresh, nodup⟩ := List.nodup_cons.mp nodup
    have removed : before.tree.remove (prompts.child name) = .ok (before.tree.erase (name :: place)) := by
      rw [remove, leads.locate_child allowed Bool.noConfusion]
      dsimp only [bind, Except.bind]
      split
      · rename_i free
        exact absurd free there
      · rename_i directory
        exact absurd directory deadEnd.notDirectory
      · rfl
    have kept {other : Location} (apart : other ≠ name :: place) :
        (before.tree.erase (name :: place)).get? other = before.tree.get? other := by
      rw [get?_erase, if_neg fun same => apart same.1]
    have dead' : ∀ other ∈ rest, Allowed other ∧ (before.tree.erase (name :: place)).get? (other :: place) ≠ none ∧
        (before.tree.erase (name :: place)).DeadEnd (other :: place) := by
      intro other member
      obtain ⟨allowed, there, deadEnd⟩ := dead other (List.mem_cons_of_mem name member)
      refine ⟨allowed, ?_, deadEnd.erase _⟩
      rw [kept]
      · exact there
      · rintro same
        exact fresh ((List.cons.inj same).1 ▸ member)
    let removing : World := { before with tree := before.tree.erase (name :: place) }
    have leads' : removing.tree.Leads prompts place := deadEnd.leads_erase leads
    obtain ⟨after, later, gone, stays⟩ := ih leads' nodup dead'
    refine ⟨after, Run.gives_forIn_cons.mpr ⟨_, Run.gives_change.mpr ⟨_, removed, rfl⟩, later⟩, ?_, ?_⟩
    · intro other member
      rcases List.mem_cons.mp member with rfl | member
      · rw [stays (other :: place) fun name member same => fresh ((List.cons.inj same).1 ▸ member), get?_erase,
          if_pos ⟨rfl, List.cons_ne_nil other place⟩]
      · exact gone other member
    · intro other apart
      rw [stays other fun name member => apart name (List.mem_cons_of_mem _ member),
        kept (apart name List.mem_cons_self)]

/-- The names in a directory that are recognised as those of artifacts, lead to files, and are not expected. -/
def recognised (tree : FileTree) (prompts : Path) (place : Location) (expected : List Text) : List Name :=
  (((tree.names place).filter (tree.isFileIn prompts)).filter fun name => isArtifact name.text).filter
    fun name => name.text ∉ expected

private theorem listed_recognised (tree : FileTree) (prompts : Path) (place : Location) (expected : List Text) :
    Listed (recognised tree prompts place expected) :=
  (((tree.listed_names place).filter _).filter _).filter _

theorem mem_recognised_iff {tree : FileTree} (leads : tree.Leads prompts place) {expected : List Text} {name : Name} :
    name ∈ recognised tree prompts place expected ↔
      tree.LeadsToFile (prompts.child name) ∧ isArtifact name.text = true ∧ name.text ∉ expected := by
  rw [recognised, List.mem_filter, List.mem_filter, List.mem_filter, isFileIn_iff, decide_eq_true_iff, mem_names_iff]
  constructor
  · rintro ⟨⟨⟨-, file⟩, artifact⟩, unexpected⟩
    exact ⟨file, artifact, unexpected⟩
  · rintro ⟨file, artifact, unexpected⟩
    exact ⟨⟨⟨(leads.deadEnd_of_file file).2.1, file⟩, artifact⟩, unexpected⟩

/-- A run removes what is recognised, if all files of the directory can be listed. -/
theorem gives_removeOrphans_iff (leads : before.tree.Leads prompts place) {expected : List Text}
    {removed : List Name} {after : World} : (removeOrphans prompts expected).Gives before removed after ↔
      (∀ name ∈ before.tree.names place, before.tree.locate true (prompts.child name) ≠ .error .nameTooLong) ∧
        removed = recognised before.tree prompts place expected ∧
        Run.Gives (forIn removed PUnit.unit fun name _ => do
          Run.change (·.remove (prompts.child name)); pure (ForInStep.yield PUnit.unit)) before PUnit.unit after := by
  simp only [removeOrphans, Run.gives_bind, Run.gives_ask, Run.gives_pure, artifacts, except_map_eq_ok_iff,
    leads.files_eq_ok_iff]
  constructor
  · rintro ⟨_, _, ⟨⟨_, ⟨fine, rfl⟩, rfl⟩, rfl⟩, _, _, removing, rfl, rfl⟩
    exact ⟨fine, rfl, removing⟩
  · rintro ⟨fine, rfl, removing⟩
    exact ⟨_, before, ⟨⟨_, ⟨fine, rfl⟩, rfl⟩, rfl⟩, (), after, removing, rfl, rfl⟩

/-- What a clean-up of a directory does that removes exactly the files with generated names that are not expected. -/
structure Cleans (before : FileTree) (prompts : Path) (place : Location) (expected : List Text) (removed : List Name)
    (after : FileTree) : Prop where
  /-- What is removed leads to a file, has a generated name, and is not expected. -/
  removed_iff : ∀ name, name ∈ removed ↔
    before.LeadsToFile (prompts.child name) ∧ Generated name.text ∧ name.text ∉ expected
  listed : Listed removed
  gone : ∀ name ∈ removed, after.get? (name :: place) = none
  kept : ∀ other, (∀ name ∈ removed, other ≠ name :: place) → after.get? other = before.get? other

/-- However a directory is reached and whatever it holds, removing orphans takes exactly the files with generated
names that are not expected out of it, if and only if no link in it leads to a name that is too long and the one
name that passes the tests without being generated is expected or that of no file. -/
theorem removeOrphans_cleans_iff (leads : before.tree.Leads prompts place) (expected : List Text) :
    ((∃ removed after, (removeOrphans prompts expected).Gives before removed after ∧
        Cleans before.tree prompts place expected removed after.tree) ↔
      (∀ name ∈ before.tree.names place, before.tree.locate true (prompts.child name) ≠ .error .nameTooLong) ∧
        ∀ name ∈ before.tree.names place, name.text = overlap →
          before.tree.LeadsToFile (prompts.child name) → name.text ∈ expected) ∧
      ∀ name, Generated name ↔ ∃ source, isSource source = true ∧ nameFor source = name := by
  refine ⟨⟨?_, ?_⟩, generated_iff_nameFor⟩
  · rintro ⟨removed, after, given, cleans⟩
    obtain ⟨fine, same, -⟩ := (gives_removeOrphans_iff leads).mp given
    refine ⟨fine, fun name _ overlaps file => ?_⟩
    by_contra unexpected
    have member : name ∈ removed :=
      same ▸ (mem_recognised_iff leads).mpr ⟨file, (isArtifact_iff _).mpr (.inr overlaps), unexpected⟩
    exact not_generated_overlap (overlaps ▸ ((cleans.removed_iff name).mp member).2.1)
  · rintro ⟨fine, spared⟩
    have dead : ∀ name ∈ recognised before.tree prompts place expected, Allowed name ∧
        before.tree.get? (name :: place) ≠ none ∧ before.tree.DeadEnd (name :: place) :=
      fun name member => leads.deadEnd_of_file ((mem_recognised_iff leads).mp member).1
    have listed := listed_recognised before.tree prompts place expected
    obtain ⟨after, removing, gone, kept⟩ := gives_removeAll leads listed.nodup dead
    refine ⟨_, after, (gives_removeOrphans_iff leads).mpr ⟨fine, rfl, removing⟩, fun name => ?_, listed, gone, kept⟩
    rw [mem_recognised_iff leads, isArtifact_iff]
    constructor
    · rintro ⟨file, generated | overlaps, unexpected⟩
      · exact ⟨file, generated, unexpected⟩
      · have there := (leads.deadEnd_of_file file).2.1
        exact absurd (spared name ((mem_names_iff place name).mpr there) overlaps file) unexpected
    · rintro ⟨file, generated, unexpected⟩
      exact ⟨file, .inl generated, unexpected⟩

namespace Crowded

def directory : Location := [⟨"artifacts".toList, by decide⟩]

def path : Path := .ofText "/shortcut".toList

def expected : Name := ⟨"gsd.a.prompt.md".toList, by decide⟩

/-- The entry of an artifact without a source. -/
def orphan : Name := ⟨"gsd.b.prompt.md".toList, by decide⟩

/-- An entry that is a link to a file. -/
def linked : Name := ⟨"gsd.c.prompt.md".toList, by decide⟩

/-- The entry of a directory with the name of an artifact. -/
def inner : Name := ⟨"gsd.d.prompt.md".toList, by decide⟩

def notes : Name := ⟨"notes.md".toList, by decide⟩

/-- The entry whose name passes the tests without being generated. -/
def handwritten : Name := ⟨overlap, by decide⟩

/-- A directory with an expected artifact, one without a source, a link to it, a directory with the name of an
artifact, and a file of another name. There may be more. -/
def world (more : List (Location × Entry)) : World where
  tree :=
    ⟨more ++ [(directory, .directory), ([⟨"shortcut".toList, by decide⟩], .link "artifacts".toList),
      (expected :: directory, .file (Text.utf8 "a".toList)),
      (linked :: directory, .link "gsd.b.prompt.md".toList), (orphan :: directory, .file (Text.utf8 "b".toList)),
      (inner :: directory, .directory), (notes :: directory, .file (Text.utf8 "n".toList))]⟩
  output := []
  complaints := []

end Crowded

theorem removeOrphans_cleans_iff_sample :
    ∃ removed after, (removeOrphans Crowded.path [Crowded.expected.text]).Gives (Crowded.world []) removed after ∧
      Cleans (Crowded.world []).tree Crowded.path Crowded.directory [Crowded.expected.text] removed after.tree ∧
      removed = [Crowded.orphan, Crowded.linked] := by
  have leads : (Crowded.world []).tree.Leads Crowded.path Crowded.directory := ⟨by decide, by decide⟩
  have listing : (Crowded.world []).tree.names Crowded.directory =
      [Crowded.expected, Crowded.orphan, Crowded.linked, Crowded.inner, Crowded.notes] := by decide_cbv
  have fine : ∀ name ∈ (Crowded.world []).tree.names Crowded.directory,
      (Crowded.world []).tree.locate true (Crowded.path.child name) ≠ .error .nameTooLong := by
    rw [listing]
    decide
  have apart : ∀ name ∈ (Crowded.world []).tree.names Crowded.directory, name.text ≠ overlap := by
    rw [listing]
    decide
  obtain ⟨removed, after, given, cleans⟩ := (removeOrphans_cleans_iff leads [Crowded.expected.text]).1.mpr
    ⟨fine, fun name member overlaps => absurd overlaps (apart name member)⟩
  refine ⟨removed, after, given, cleans, ?_⟩
  rw [((gives_removeOrphans_iff leads).mp given).2.1]
  decide_cbv

/-- A file whose name passes the tests without being generated is removed. -/
theorem removeOrphans_takes_handwritten :
    let before := Crowded.world [(Crowded.handwritten :: Crowded.directory, .file (Text.utf8 "by hand".toList))]
    before.tree.get? (Crowded.handwritten :: Crowded.directory) ≠ none ∧ ¬ Generated Crowded.handwritten.text ∧
      ((removeOrphans Crowded.path []).outcome before).2.tree.get? (Crowded.handwritten :: Crowded.directory) = none ∧
      ¬ ∃ removed after, (removeOrphans Crowded.path []).Gives before removed after ∧
        Cleans before.tree Crowded.path Crowded.directory [] removed after.tree := by
  intro before
  have there : before.tree.get? (Crowded.handwritten :: Crowded.directory) ≠ none := by decide
  have gone : ((removeOrphans Crowded.path []).outcome before).2.tree.get? (Crowded.handwritten :: Crowded.directory) =
      none := by decide_cbv
  refine ⟨there, not_generated_overlap, gone, ?_⟩
  rintro ⟨removed, after, given, cleans⟩
  have member : Crowded.handwritten ∈ removed := by
    by_contra spared
    have kept := cleans.kept (Crowded.handwritten :: Crowded.directory) fun name member same =>
      spared ((List.cons.inj same).1 ▸ member)
    rw [Run.Gives] at given
    rw [given] at gone
    exact there (kept.symm.trans gone)
  exact not_generated_overlap ((cleans.removed_iff _).mp member).2.1

end Layout

end PromptCompiler
