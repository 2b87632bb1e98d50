import PromptCompiler.CommandLine.Verify
import PromptCompiler.Proofs.PartialRuns

/-! # Runs that end with a fault

A run that does not give a result ends with a fault, and a command whose run does so returns the code for faults.
What is left then is known from the part in which the fault came: the parts before it gave their results.
-/

namespace PromptCompiler

open FileTree Layout CommandLine

namespace Run

variable {α β : Type}

/-- Whether a run ends with a fault. -/
def Fails (run : Run α) (before : World) : Prop := ∀ result after, ¬ run.Gives before result after

theorem Speaks.not_fails {run : Run α} {result : α} (speaks : run.Speaks result) {before : World} :
    ¬ run.Fails before := by
  obtain ⟨after, given, -⟩ := speaks before
  exact fun fails => fails result after given

/-- What is left by a run that fails is what its first part leaves if that fails, and else what is left by its second
part, which fails then. -/
theorem left_of_fails_bind (holds : FileTree → Prop) {first : Run α} {second : α → Run β} {before : World}
    (fails : (first >>= second).Fails before) (faulted : first.Fails before → holds (first.left before))
    (later : ∀ value middle, first.Gives before value middle → (second value).Fails middle →
      holds ((second value).left middle)) : holds ((first >>= second).left before) := by
  rw [left, outcome_bind]
  rcases given : first.outcome before with ⟨fault | value, middle⟩
  · have failed : first.Fails before := fun result after given' => by
      cases given.symm.trans given'
    have left := faulted failed
    rw [Run.left, given] at left
    exact left
  · exact later value middle given fun result after given' =>
      fails result after (gives_bind.mpr ⟨value, middle, given, given'⟩)

/-- A run that fails does not do so in a part that only prints. -/
theorem Speaks.left_of_fails_bind (holds : FileTree → Prop) {first : Run α} {value : α} {second : α → Run β}
    {before : World} (speaks : first.Speaks value) (fails : (first >>= second).Fails before)
    (later : ∀ middle, middle.tree = before.tree → (second value).Fails middle → holds ((second value).left middle)) :
    holds ((first >>= second).left before) :=
  Run.left_of_fails_bind holds fails (fun faulted => absurd faulted speaks.not_fails) fun _ middle given fails => by
    obtain ⟨rfl, same⟩ := speaks.eq given
    exact later middle same fails

/-- A run that fails either does so in a first part that leaves the tree as it is, or after it in the same tree. -/
theorem Still.left_of_fails_bind (holds : FileTree → Prop) {first : Run α} {second : α → Run β} {before : World}
    (still : first.Still) (fails : (first >>= second).Fails before) (start : holds before.tree)
    (later : ∀ value middle, first.Gives before value middle → middle.tree = before.tree →
      (second value).Fails middle → holds ((second value).left middle)) : holds ((first >>= second).left before) :=
  Run.left_of_fails_bind holds fails (fun _ => (still before).symm ▸ start) fun value middle given =>
    later value middle given (given.left_eq.symm.trans (still before))

/-- A run fails if its second part does after whatever its first part gives. -/
theorem fails_bind {first : Run α} {second : α → Run β} {before : World}
    (fails : ∀ value middle, first.Gives before value middle → (second value).Fails middle) :
    (first >>= second).Fails before := by
  intro result after given
  obtain ⟨value, middle, first, second⟩ := gives_bind.mp given
  exact fails value middle first result after second

/-- Whether a run ends with a fault and leaves a tree with a property. -/
structure Stops (run : Run α) (before : World) (holds : FileTree → Prop) : Prop where
  fails : run.Fails before
  left : holds (run.left before)

/-- A run stops if its second part does after whatever its first part gives. -/
theorem stops_bind {holds : FileTree → Prop} {first : Run α} {second : α → Run β} {before : World}
    (faulted : holds (first.left before))
    (later : ∀ value middle, first.Gives before value middle → (second value).Stops middle holds) :
    (first >>= second).Stops before holds where
  fails := fails_bind fun value middle given => (later value middle given).fails
  left := left_bind holds faulted fun value middle given => (later value middle given).left

/-- After a first part that leaves the tree as it is the second one starts with the same tree. -/
theorem Still.stops_bind {holds : FileTree → Prop} {first : Run α} {second : α → Run β} {before : World}
    (still : first.Still) (start : holds before.tree)
    (later : ∀ value middle, first.Gives before value middle → middle.tree = before.tree →
      (second value).Stops middle holds) : (first >>= second).Stops before holds :=
  Run.stops_bind ((still before).symm ▸ start) fun value middle given =>
    later value middle given (given.left_eq.symm.trans (still before))

/-- A run stops in its first part if that does. -/
theorem Stops.bind {holds : FileTree → Prop} {first : Run α} {before : World} (stops : first.Stops before holds)
    (second : α → Run β) : (first >>= second).Stops before holds :=
  stops_bind stops.left fun value middle given => absurd given (stops.fails value middle)

section Replacing

variable {before : World} {outer : Location} {name : Name} {ending : Text}

/-- Where a file cannot be replaced, the tree is left as it was or with a new file beside the place. -/
theorem left_replaceText_of_not (plain : before.tree.Plain) (noSlash : '/' ∉ ending) (notEmpty : ending ≠ [])
    (unready : ¬ before.tree.Replaceable outer (name.suffixed ending noSlash) name) (text : Text) :
    (replaceText (.ofLocation (name :: outer)) ending text).left before = before.tree ∨
      (before.tree.Reaches (name.suffixed ending noSlash :: outer) ∧
        before.tree.get? (name.suffixed ending noSlash :: outer) ≠ some .directory ∧
        (replaceText (.ofLocation (name :: outer)) ending text).left before =
          before.tree.set (name.suffixed ending noSlash :: outer) (.file text.utf8)) := by
  have fails {after : World} : ¬ (replaceText (.ofLocation (name :: outer)) ending text).Gives before () after :=
    fun given => unready ((gives_replaceText plain noSlash notEmpty).mp given).1
  rw [replaceText, Path.withNameSuffix_ofLocation name outer ending noSlash] at fails ⊢
  generalize name.suffixed ending noSlash = beside at fails ⊢
  refine left_bind (fun after => after = before.tree ∨ (before.tree.Reaches (beside :: outer) ∧
    before.tree.get? (beside :: outer) ≠ some .directory ∧ after = before.tree.set (beside :: outer) (.file text.utf8)))
    ?_ fun _ middle given => ?_
  · exact (left_change _ before).imp_right (plain.write_eq_ok_iff _ _ _).mp
  · obtain ⟨made, written, rfl⟩ := gives_change.mp given
    obtain ⟨reaches, notDirectory, rfl⟩ := (plain.write_eq_ok_iff _ _ _).mp written
    rcases left_change (·.rename (.ofLocation (beside :: outer)) (.ofLocation (name :: outer))) _ with still | moved
    · exact .inr ⟨reaches, notDirectory, still⟩
    · exact absurd (gives_bind.mpr ⟨(), _, given, gives_change.mpr ⟨_, moved, rfl⟩⟩) fails

end Replacing

end Run

/-! ## The command that verifies a project -/

namespace Layout

end Layout

/-! ## Codes -/

namespace CommandLine

variable {current : Location} {arguments : List Text} {settings : Settings} {root : Location} {before : World}

end CommandLine

end PromptCompiler
