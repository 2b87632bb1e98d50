import PromptCompiler.Proofs.Commands
import PromptCompiler.Proofs.Stores

/-! # Runs that may end with a fault

A run that ends with a fault leaves what it has changed so far. What a run leaves on either ending is known
from its parts: the fault came in the first part, or the second part ran in the world that the first gave.
-/

namespace PromptCompiler

open FileTree Layout CommandLine

namespace Run

variable {α β : Type}

/-- The tree that a run leaves, whether it gives a result or ends with a fault. -/
def left (run : Run α) (before : World) : FileTree := (run.outcome before).2.tree

theorem Gives.left_eq {run : Run α} {before after : World} {result : α} (given : run.Gives before result after) :
    run.left before = after.tree := congrArg (fun outcome => outcome.2.tree) given

/-- What holds after the first part and, if that gives a result, after the second part, holds in the end. -/
theorem left_bind (holds : FileTree → Prop) {first : Run α} {second : α → Run β} {before : World}
    (faulted : holds (first.left before))
    (later : ∀ value middle, first.Gives before value middle → holds ((second value).left middle)) :
    holds ((first >>= second).left before) := by
  rw [left, outcome_bind]
  rw [left] at faulted
  rcases given : first.outcome before with ⟨fault | value, middle⟩
  · rw [given] at faulted
    exact faulted
  · exact later value middle given

/-! ## Runs that leave the tree as it is -/

/-- A run that leaves the tree as it is on either ending. -/
def Still (run : Run α) : Prop := ∀ before, run.left before = before.tree

theorem still_pure (value : α) : (pure value : Run α).Still := fun _ => rfl

private theorem still_throw (fault : Fault) : (throw fault : Run α).Still := fun _ => rfl

theorem still_currentTree : currentTree.Still := fun _ => rfl

private theorem still_liftM (known : Except Fault α) : (liftM known : Run α).Still := by
  cases known <;> exact fun _ => rfl

theorem Speaks.still {run : Run α} {result : α} (speaks : run.Speaks result) : run.Still := by
  intro before
  obtain ⟨after, given, same⟩ := speaks before
  exact given.left_eq.trans same

/-- After a run that leaves the tree as it is the next one starts with the same tree. -/
theorem Still.left_bind (holds : FileTree → Prop) {first : Run α} {second : α → Run β} (still : first.Still)
    {before : World} (start : holds before.tree)
    (later : ∀ value middle, first.Gives before value middle → middle.tree = before.tree →
      holds ((second value).left middle)) : holds ((first >>= second).left before) := by
  refine Run.left_bind holds ((still before).symm ▸ start) fun value middle given => ?_
  exact later value middle given (given.left_eq.symm.trans (still before))

theorem Still.bind {first : Run α} {second : α → Run β} (one : first.Still) (two : ∀ value, (second value).Still) :
    (first >>= second).Still := by
  intro before
  refine one.left_bind (fun tree => tree = before.tree) rfl fun value middle _ same => ?_
  exact (two value middle).trans same

/-- A last part that leaves the tree as it is does not matter. -/
theorem left_bind_still {first : Run α} {second : α → Run β} (still : ∀ value, (second value).Still) (before : World) :
    (first >>= second).left before = first.left before := by
  refine left_bind (fun tree => tree = first.left before) rfl fun value middle given => ?_
  exact (still value middle).trans given.left_eq.symm

theorem still_ask (question : FileTree → Except SystemFault α) : (ask question).Still := by
  refine still_currentTree.bind fun tree => ?_
  split
  · exact still_pure _
  · exact still_throw _

theorem still_readText (path : Path) : (readText path).Still := by
  refine (still_ask _).bind fun content => ?_
  split
  · exact still_pure _
  · exact still_throw _

/-! ## Changes -/

/-- A change is made, or the tree is left as it is. -/
theorem left_change (operation : FileTree → Except SystemFault FileTree) (before : World) :
    (change operation).left before = before.tree ∨ operation before.tree = .ok ((change operation).left before) := by
  cases known : operation before.tree with
  | ok tree =>
    have given : (change operation).Gives before () { before with tree := tree } := gives_change.mpr ⟨tree, known, rfl⟩
    exact .inr (congrArg Except.ok given.left_eq.symm)
  | error fault =>
    refine .inl ((still_ask operation).left_bind (fun tree => tree = before.tree) rfl fun tree middle given _ => ?_)
    rw [(gives_ask.mp given).1] at known
    cases known

/-- Making a directory leaves the tree in which it is made, or the one in which it is refused. -/
theorem left_ensureDirectory (path : Path) (before : World) :
    before.tree.ensureDirectory path = .ok ((ensureDirectory path).left before) ∨
      (ensureDirectory path).left before = before.tree.refused path := by
  cases known : before.tree.ensureDirectory path with
  | ok made =>
    have given : (ensureDirectory path).Gives before () { before with tree := made } :=
      gives_ensureDirectory.mpr ⟨made, known, rfl⟩
    exact .inl (congrArg Except.ok given.left_eq.symm)
  | error fault =>
    right
    have asked : currentTree.outcome before = (.ok before.tree, before) := rfl
    rw [left, ensureDirectory, outcome_bind, asked]
    simp only [known]
    rfl

/-- A file is replaced, or the tree is left as it is: once the new file is written beside the old one, nothing
prevents its move. -/
theorem left_replaceText {before : World} (plain : before.tree.Plain) {outer : Location} {name : Name} {ending : Text}
    (noSlash : '/' ∉ ending) (notEmpty : ending ≠ []) (allowed : Allowed name)
    (free : before.tree.get? (name :: outer) ≠ some .directory) (text : Text) :
    (replaceText (.ofLocation (name :: outer)) ending text).left before = before.tree ∨
      before.tree.Replaceable outer (name.suffixed ending noSlash) name ∧
        (replaceText (.ofLocation (name :: outer)) ending text).left before =
          before.tree.replaced outer (name.suffixed ending noSlash) name text.utf8 := by
  by_cases ready : before.tree.Replaceable outer (name.suffixed ending noSlash) name
  · let after : World :=
      { before with tree := before.tree.replaced outer (name.suffixed ending noSlash) name text.utf8 }
    have given : (replaceText (.ofLocation (name :: outer)) ending text).Gives before () after :=
      (gives_replaceText plain noSlash notEmpty).mpr ⟨ready, rfl⟩
    exact .inr ⟨ready, given.left_eq⟩
  · have refused (made : FileTree) :
        before.tree.write (.ofLocation (name.suffixed ending noSlash :: outer)) text.utf8 ≠ .ok made := by
      intro written
      obtain ⟨reaches, notDirectory, -⟩ := (plain.write_eq_ok_iff _ _ _).mp written
      obtain ⟨allowedBeside, directory⟩ := (reaches_cons_iff _ _).mp reaches
      have reachesPlace : before.tree.Reaches (name :: outer) := by
        refine (reaches_cons_iff _ _).mpr ⟨?_, directory⟩
        exact List.forall_mem_cons.mpr ⟨allowed, fun other member => allowedBeside other (List.mem_cons_of_mem _ member)⟩
      exact ready ⟨reaches, notDirectory, reachesPlace, free⟩
    rw [replaceText, Path.withNameSuffix_ofLocation name outer ending noSlash]
    refine .inl (left_bind (fun tree => tree = before.tree) ?_ fun _ middle given => ?_)
    · exact (left_change _ before).resolve_right (refused _)
    · obtain ⟨made, written, -⟩ := gives_change.mp given
      exact absurd written (refused made)

/-! ## Repetitions -/

/-- What one step after the other preserves holds after all of them. -/
theorem left_forIn {holds : FileTree → Prop} {body : α → Run Unit} {items : List α}
    (step : ∀ item ∈ items, ∀ before, holds before.tree → holds ((body item).left before)) {before : World}
    (start : holds before.tree) :
    holds (left (forIn items PUnit.unit fun item _ => do
      body item; pure (ForInStep.yield PUnit.unit)) before) := by
  induction items generalizing before with
  | nil => exact start
  | cons item rest ih =>
    rw [List.forIn_cons]
    have first := step item List.mem_cons_self before start
    refine left_bind holds ?_ fun value middle given => ?_
    · rw [left_bind_still fun _ => still_pure _]
      exact first
    · obtain ⟨_, world, done, ended⟩ := gives_bind.mp given
      obtain ⟨rfl, rfl⟩ := gives_pure.mp ended
      rw [done.left_eq] at first
      exact ih (fun other member => step other (List.mem_cons_of_mem item member)) first

/-- What one step after the other preserves, whatever value it goes on with, holds after all of them. -/
theorem left_foldlM {holds : FileTree → Prop} {step : β → α → Run β} {items : List α}
    (preserves : ∀ item ∈ items, ∀ value before, holds before.tree → holds ((step value item).left before))
    {value : β} {before : World} (start : holds before.tree) : holds ((items.foldlM step value).left before) := by
  induction items generalizing value before with
  | nil => exact start
  | cons item rest ih =>
    rw [List.foldlM_cons]
    have first := preserves item List.mem_cons_self value before start
    refine left_bind holds first fun next middle given => ?_
    rw [given.left_eq] at first
    exact ih (fun other member => preserves other (List.mem_cons_of_mem item member)) first

end Run

theorem ToolTable.still_load (path : Path) : (ToolTable.load path).Still := by
  refine (Run.still_ask _).bind fun answer => ?_
  split
  · exact (Run.speaks_complain _).still.bind fun _ => Run.still_pure _
  · split
    · exact Run.still_pure _
    · exact Run.still_throw _
  · exact Run.still_throw _

/-! ## The command that compiles a project -/

namespace CommandLine

theorem still_layoutOf (current : Location) (settings : Settings) : (layoutOf current settings).Still := by
  have root : (rootOf current settings).Still := by
    refine Run.still_currentTree.bind fun tree => (Run.still_liftM _).bind fun place => ?_
    refine (Run.still_ask _).bind fun directory => ?_
    split
    · exact Run.still_pure _
    · exact Run.still_throw _
  refine root.bind fun path => Run.still_currentTree.bind fun tree => ?_
  refine (Run.still_liftM _).bind fun commands => (Run.still_liftM _).bind fun prompts => ?_
  exact (Run.still_liftM _).bind fun table => Run.still_pure _

/-- A run that is brought to an end leaves what it leaves on either ending. -/
theorem conclude_left (run : Run Nat) (before : World) : ((conclude run).run before).2.tree = run.left before := by
  rw [conclude_run, Run.left]
  rcases run.outcome before with ⟨fault | code, world⟩
  · rfl
  · rfl

/-- What a call of the compiler leaves is what compiling the project leaves, if it comes to that. -/
theorem compile_left (holds : FileTree → Prop) {current : Location} {arguments : List Text} {settings : Settings}
    {root : Location} {before : World} (calls : Calls current arguments settings root) (plain : before.tree.Plain)
    (start : holds before.tree) (compiled : holds ((ofPlace root).compile.left before)) :
    holds ((compile current arguments).run before).2.tree := by
  rw [compile_run calls, conclude_left]
  refine (still_layoutOf current settings).left_bind holds start fun layout middle given _ => ?_
  obtain ⟨-, -, rfl, rfl⟩ := (gives_layoutOf_iff calls.default plain).mp given
  rw [Run.left_bind_still fun result => (speaks_reportCompile _ _ _ _).still, calls.root]
  exact compiled

end CommandLine

namespace Layout

variable {root : Location} {before : World}

/-- What the removal of artifacts leaves: some of those that are not expected are gone, and all else is as it was. -/
theorem left_removeOrphans (plain : before.tree.Plain) (place : Location) (expected : List Text) :
    ((removeOrphans (.ofLocation place) expected).left before).Plain ∧
      ∀ other, ((removeOrphans (.ofLocation place) expected).left before).get? other = before.tree.get? other ∨
        (((removeOrphans (.ofLocation place) expected).left before).get? other = none ∧
          ∃ name ∈ orphans before.tree place expected, other = name :: place) := by
  let holds (tree : FileTree) : Prop := tree.Plain ∧ ∀ other, tree.get? other = before.tree.get? other ∨
    (tree.get? other = none ∧ ∃ name ∈ orphans before.tree place expected, other = name :: place)
  change holds _
  have start : holds before.tree := ⟨plain, fun _ => .inl rfl⟩
  refine (Run.still_ask _).left_bind holds start fun names middle given same => ?_
  rw [Run.left_bind_still fun _ => Run.still_pure _]
  obtain ⟨files, listed, rfl⟩ := except_map_eq_ok_iff.mp (Run.gives_ask.mp given).1
  obtain rfl := plain.files_of_ok listed
  refine Run.left_forIn (fun name member world kept => ?_) (same ▸ start)
  rcases Run.left_change (·.remove ((Path.ofLocation place).child name)) world with still | removed
  · rw [still]
    exact kept
  · rw [Path.child_ofLocation] at removed ⊢
    obtain ⟨-, notDirectory, gone⟩ := (kept.1.remove_eq_ok_iff _ _).mp removed
    rw [gone]
    refine ⟨kept.1.erase_plain notDirectory, fun other => ?_⟩
    rw [get?_erase]
    split
    · rename_i here
      exact .inr ⟨rfl, name, member, here.1⟩
    · exact kept.2 other

/-- What saving a table leaves: the tree as it was, or with directories on the way to the table, or with the table
replaced as well. -/
theorem left_save (plain : before.tree.Plain) (table : ToolTable)
    (free : before.tree.get? (tablePlace root) ≠ some .directory) :
    (table.save (.ofLocation (tablePlace root))).left before = before.tree ∨
      (∃ outer, outer <:+ scriptsPlace root ∧
        before.tree.Ensures outer ((table.save (.ofLocation (tablePlace root))).left before)) ∨
      ∃ made, before.tree.Ensures (scriptsPlace root) made ∧
        made.Replaceable (scriptsPlace root) tableDraftName tableName ∧
        (table.save (.ofLocation (tablePlace root))).left before =
          made.replaced (scriptsPlace root) tableDraftName tableName table.fileText.utf8 := by
  let stored (tree : FileTree) : Prop := tree = before.tree ∨
    (∃ outer, outer <:+ scriptsPlace root ∧ before.tree.Ensures outer tree) ∨
    ∃ made, before.tree.Ensures (scriptsPlace root) made ∧
      made.Replaceable (scriptsPlace root) tableDraftName tableName ∧
      tree = made.replaced (scriptsPlace root) tableDraftName tableName table.fileText.utf8
  change stored _
  rw [ToolTable.save, tablePlace, Path.parent_ofLocation]
  refine Run.left_bind stored ?_ fun _ middle given => ?_
  · rcases Run.left_ensureDirectory (.ofLocation (scriptsPlace root)) before with made | refused
    · exact .inr (.inl ⟨_, List.suffix_rfl, plain.ensures_of_ensureDirectory made⟩)
    · rw [refused]
      exact (plain.ensures_of_refused _).imp_right .inl
  · obtain ⟨made, ensuring, rfl⟩ := Run.gives_ensureDirectory.mp given
    have ensured := plain.ensures_of_ensureDirectory ensuring
    let middle : World := { before with tree := made }
    have plainMiddle : middle.tree.Plain := ensured.plain
    have stillFree : middle.tree.get? (tableName :: scriptsPlace root) ≠ some .directory := by
      change made.get? (tableName :: scriptsPlace root) ≠ some .directory
      rcases ensured.kept (tableName :: scriptsPlace root) with kept | ⟨above, -⟩
      · rw [kept]
        exact free
      · exact absurd above.length_le (by simp)
    have noSlash : '/' ∉ ToolTable.draftEnding := by decide
    have allowed : Allowed tableName := by decide
    rcases Run.left_replaceText plainMiddle noSlash (by decide) allowed stillFree table.fileText with
      still | ⟨ready, replaced⟩
    · rw [show Run.left _ _ = made from still]
      exact .inr (.inl ⟨_, List.suffix_rfl, ensured⟩)
    · exact .inr (.inr ⟨made, ensured, ready, replaced⟩)

/-- Entering stubs leaves the tree as it is if there are none, and else what saving the table leaves. -/
theorem left_saveStubs (layout : Layout) (before : World) (table stubs : ToolTable) :
    (layout.saveStubs table stubs).left before = before.tree ∨
      stubs.entries ≠ [] ∧
        (layout.saveStubs table stubs).left before = ((table.withStubs stubs).save layout.table).left before := by
  rw [saveStubs]
  split
  · exact .inl rfl
  · rename_i pending
    refine .inr ⟨pending, Run.left_bind_still (fun _ => ?_) before⟩
    exact ((Run.speaks_complain _).bind ((Run.speaks_complain _).bind
      ((Run.speaks_forIn _ fun _ => Run.speaks_complain _).bind
        ((Run.speaks_complain _).bind (Run.speaks_complain _))))).still

end Layout

end PromptCompiler
