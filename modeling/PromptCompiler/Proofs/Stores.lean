import PromptCompiler.Proofs.Listings
import PromptCompiler.Proofs.ToolTables

/-! # What a run stores

Besides the artifacts a run touches the tree in two ways: it removes the artifacts that belong to no
source, and it writes the tool table again if there are stubs to enter.
-/

namespace PromptCompiler

open FileTree Layout Artifact

/-- Whether the tool table at a place is a given one; where nothing is, it is empty. -/
def FileTree.Loads (tree : FileTree) (place : Location) (table : ToolTable) : Prop :=
  match tree.get? place with
  | none => table = .empty
  | some (.file content) => ToolTable.ofBytes content = .ok table
  | some _ => False

/-- A place holds at most one table. -/
theorem FileTree.Loads.unique {tree : FileTree} {place : Location} {first second : ToolTable}
    (loads : tree.Loads place first) (loads' : tree.Loads place second) : first = second := by
  rw [Loads] at loads loads'
  split at loads
  · rename_i there
    rw [there] at loads'
    rw [loads, loads']
  · rename_i content there
    rw [there] at loads'
    exact Except.ok.inj (loads.symm.trans loads')
  · exact loads.elim

/-- Where a table is or could be written there is no directory. -/
theorem FileTree.Loads.not_directory {tree : FileTree} {place : Location} {table : ToolTable}
    (loads : tree.Loads place table) : tree.get? place ≠ some .directory := by
  intro directory
  rw [Loads, directory] at loads
  exact loads

namespace ToolTable

variable {place : Location} {table : ToolTable}

/-- Loading gives the table at its place and leaves the tree as it is. -/
theorem loads_of_gives {before after : World} (plain : before.tree.Plain)
    (given : (load (.ofLocation place)).Gives before table after) :
    before.tree.Loads place table ∧ after.tree = before.tree := by
  simp only [load, Run.gives_bind, Run.gives_ask] at given
  obtain ⟨answer, _, ⟨probed, rfl⟩, rest⟩ := given
  have there := plain.probe_of_ok probed
  rw [Loads, ← there]
  split at rest
  · simp only [Run.gives_bind, Run.gives_complain, Run.gives_pure] at rest
    obtain ⟨-, _, rfl, rfl, rfl⟩ := rest
    exact ⟨rfl, rfl⟩
  · split at rest
    · rename_i known
      obtain ⟨rfl, rfl⟩ := Run.gives_pure.mp rest
      exact ⟨known, rfl⟩
    · exact absurd rest Run.not_gives_throw
  · exact absurd rest Run.not_gives_throw

/-- The table at a place can be loaded. -/
theorem gives_load {before : World} (plain : before.tree.Plain) (allowed : ∀ name ∈ place, Allowed name)
    (loads : before.tree.Loads place table) :
    ∃ after, (load (.ofLocation place)).Gives before table after ∧ after.tree = before.tree := by
  have probed := plain.probe_eq .root allowed
  simp only [load, Run.gives_bind, Run.gives_ask, Path.ofLocation]
  rw [Loads] at loads
  cases there : before.tree.get? place with
  | none =>
    rw [there] at loads probed
    subst loads
    obtain ⟨after, warned, same⟩ := Run.speaks_complain ("WARN: [load_tool_map] ".toList ++
      (Path.mk .root place.steps).name ++ " not found; using empty map".toList) before
    refine ⟨after, ⟨none, before, ⟨probed, rfl⟩, ?_⟩, same⟩
    exact Run.gives_bind.mpr ⟨(), after, warned, Run.gives_pure.mpr ⟨rfl, rfl⟩⟩
  | some entry =>
    rw [there] at loads probed
    cases entry with
    | file content =>
      refine ⟨before, ⟨_, before, ⟨probed, rfl⟩, ?_⟩, rfl⟩
      simp only at loads
      simp only [loads]
      exact Run.gives_pure.mpr ⟨rfl, rfl⟩
    | directory => exact loads.elim
    | link target => exact loads.elim

end ToolTable

namespace Layout

variable {root : Location}

/-- Entering stubs writes the table again if there are any, in a directory made for it. -/
theorem saveStubs_effect {before after : World} (plain : before.tree.Plain) {table stubs : ToolTable}
    {result : Unit} (given : ((ofPlace root).saveStubs table stubs).Gives before result after) :
    (stubs.entries = [] ∧ after.tree = before.tree) ∨
      (stubs.entries ≠ [] ∧ ∃ made, before.tree.Ensures (scriptsPlace root) made ∧
        made.Replaceable (scriptsPlace root) tableDraftName tableName ∧
        after.tree = made.replaced (scriptsPlace root) tableDraftName tableName
          (table.withStubs stubs).fileText.utf8) := by
  rw [saveStubs] at given
  split at given
  · rename_i noStubs
    obtain ⟨-, rfl⟩ := Run.gives_pure.mp given
    exact .inl ⟨noStubs, rfl⟩
  · rename_i stubbed
    refine .inr ⟨stubbed, ?_⟩
    obtain ⟨_, stored, saving, notices⟩ := Run.gives_bind.mp given
    have noticed := (((Run.speaks_complain _).bind ((Run.speaks_complain _).bind
      ((Run.speaks_forIn _ fun _ => Run.speaks_complain _).bind
        ((Run.speaks_complain _).bind (Run.speaks_complain _))))).eq notices).2
    simp only [ToolTable.save, ofPlace_table, tablePlace, Path.parent_ofLocation, Run.gives_bind,
      Run.gives_ensureDirectory] at saving
    obtain ⟨-, _, ⟨made, ensuring, rfl⟩, replacing⟩ := saving
    have ensured := plain.ensures_of_ensureDirectory ensuring
    obtain ⟨ready, rfl⟩ := (Run.gives_replaceText ensured.plain (by decide) (by decide)).mp replacing
    exact ⟨made, ensured, ready, noticed⟩

/-- Without stubs nothing is written. -/
theorem gives_saveStubs (layout : Layout) {before : World} {table stubs : ToolTable} (noStubs : stubs.entries = []) :
    (layout.saveStubs table stubs).Gives before () before := by
  rw [saveStubs, if_pos noStubs]
  exact Run.gives_pure.mpr ⟨rfl, rfl⟩

/-- The names of the artifacts in a directory that are not among the expected ones. -/
def orphans (tree : FileTree) (place : Location) (expected : List Text) : List Name :=
  ((tree.fileNames place).filter fun name => isArtifact name.text).filter fun name => name.text ∉ expected

theorem mem_orphans_iff {tree : FileTree} {place : Location} {expected : List Text} {name : Name} :
    name ∈ orphans tree place expected ↔
      (∃ content, tree.get? (name :: place) = some (.file content)) ∧ isArtifact name.text = true ∧
        name.text ∉ expected := by
  rw [orphans, List.mem_filter, List.mem_filter, mem_fileNames_iff, decide_eq_true_iff, and_assoc]

/-- Removing entries of a directory removes them and nothing else. -/
theorem removeAll_effect {place : Location} {names : List Name} {before after : World} {result : Unit}
    (plain : before.tree.Plain)
    (given : Run.Gives (forIn names PUnit.unit fun name _ => do
      Run.change (·.remove ((Path.ofLocation place).child name)); pure (ForInStep.yield PUnit.unit))
      before result after) :
    after.tree.Plain ∧ (∀ name ∈ names, after.tree.get? (name :: place) = none) ∧
      ∀ other, (∀ name ∈ names, other ≠ name :: place) → after.tree.get? other = before.tree.get? other := by
  induction names generalizing before with
  | nil =>
    cases Run.gives_forIn_nil.mp given
    exact ⟨plain, by simp, fun _ _ => rfl⟩
  | cons name rest ih =>
    obtain ⟨middle, first, later⟩ := Run.gives_forIn_cons.mp given
    rw [Run.gives_change, Path.child_ofLocation] at first
    obtain ⟨made, removing, rfl⟩ := first
    obtain ⟨-, notDirectory, rfl⟩ := (plain.remove_eq_ok_iff _ _).mp removing
    obtain ⟨plainAfter, removed, kept⟩ := ih (plain.erase_plain notDirectory) later
    refine ⟨plainAfter, fun other member => ?_, fun other apart => ?_⟩
    · by_cases again : other ∈ rest
      · exact removed other again
      · obtain rfl := (List.mem_cons.mp member).resolve_right again
        rw [kept (other :: place), get?_erase, if_pos (by simp)]
        intro name member same
        rw [(List.cons.inj same).1] at again
        exact again member
    · rw [kept other fun name member => apart name (List.mem_cons_of_mem _ member), get?_erase,
        if_neg fun here => apart name List.mem_cons_self here.1]

/-- The artifacts that are not among the expected ones are removed, and nothing else. -/
theorem removeOrphans_effect {place : Location} {expected : List Text} {before after : World} {removed : List Name}
    (plain : before.tree.Plain)
    (given : (removeOrphans (.ofLocation place) expected).Gives before removed after) :
    after.tree.Plain ∧ (∀ name ∈ orphans before.tree place expected, after.tree.get? (name :: place) = none) ∧
      ∀ other, (∀ name ∈ orphans before.tree place expected, other ≠ name :: place) →
        after.tree.get? other = before.tree.get? other := by
  simp only [removeOrphans, Run.gives_bind, Run.gives_ask, Run.gives_pure] at given
  obtain ⟨names, _, ⟨listing, rfl⟩, _, _, removing, -, rfl⟩ := given
  obtain ⟨files, listed, rfl⟩ := except_map_eq_ok_iff.mp listing
  obtain rfl := plain.files_of_ok listed
  exact removeAll_effect plain removing

/-- Where no artifact is superfluous, none is removed. -/
theorem gives_removeOrphans {place : Location} {expected : List Text} {before : World} (plain : before.tree.Plain)
    (directory : before.tree.get? place = some .directory) (spare : orphans before.tree place expected = []) :
    (removeOrphans (.ofLocation place) expected).Gives before [] before := by
  simp only [removeOrphans, Run.gives_bind, Run.gives_ask, Run.gives_pure, artifacts, plain.files_eq directory]
  refine ⟨_, before, ⟨rfl, rfl⟩, (), before, ?_, spare, rfl⟩
  rw [show List.filter _ _ = [] from spare]
  exact Run.gives_forIn_nil.mpr rfl

end Layout

end PromptCompiler
