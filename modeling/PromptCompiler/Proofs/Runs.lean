import PromptCompiler.Run.Basic

/-! # What runs give

A run gives a result in a world and leaves another world, unless it ends with a fault. What a run gives
is read off step by step: a run of two parts gives what its second part gives after its first.
-/

namespace PromptCompiler

theorem except_bind_eq_ok_iff {ε α β : Type} {first : Except ε α} {second : α → Except ε β} {result : β} :
    (first >>= second) = .ok result ↔ ∃ middle, first = .ok middle ∧ second middle = .ok result := by
  cases first with
  | error fault =>
    refine iff_of_false (fun same => ?_) (by rintro ⟨_, same, _⟩; cases same)
    cases same
  | ok middle =>
    constructor
    · exact fun same => ⟨middle, rfl, same⟩
    · rintro ⟨_, same, rest⟩
      cases same
      exact rest

theorem except_map_eq_ok_iff {ε α β : Type} {known : Except ε α} {f : α → β} {result : β} :
    known.map f = .ok result ↔ ∃ value, known = .ok value ∧ f value = result := by
  cases known with
  | error fault => simp [Except.map]
  | ok value => simp [Except.map]

/-- Different texts have different bytes. -/
theorem Text.utf8_inj {first second : Text} (same : first.utf8 = second.utf8) : first = second := by
  have decoded := (Text.ofUtf8?_eq_some_iff first.utf8 first).mpr rfl
  rw [same, (Text.ofUtf8?_eq_some_iff second.utf8 second).mpr rfl] at decoded
  exact (Option.some.inj decoded).symm

namespace Run

variable {α β : Type}

/-- How a run ends, and the world that it leaves. -/
def outcome (run : Run α) (before : World) : Except Fault α × World := run.run.run before

/-- A run gives a result and leaves a world. -/
def Gives (run : Run α) (before : World) (result : α) (after : World) : Prop :=
  run.outcome before = (.ok result, after)

@[simp] theorem gives_pure {value result : α} {before after : World} :
    (pure value : Run α).Gives before result after ↔ value = result ∧ before = after := by
  constructor
  · intro given
    cases given
    exact ⟨rfl, rfl⟩
  · rintro ⟨rfl, rfl⟩
    rfl

theorem outcome_bind (first : Run α) (second : α → Run β) (before : World) :
    (first >>= second).outcome before =
      match first.outcome before with
      | (.ok value, middle) => (second value).outcome middle
      | (.error fault, middle) => (.error fault, middle) := by
  simp only [outcome, ExceptT.run_bind, StateT.run_bind]
  change (match first.run.run before with | (result, middle) => _) = _
  rcases first.run.run before with ⟨result, middle⟩
  cases result <;> rfl

@[simp] theorem gives_bind {first : Run α} {second : α → Run β} {before after : World} {result : β} :
    (first >>= second).Gives before result after ↔
      ∃ value middle, first.Gives before value middle ∧ (second value).Gives middle result after := by
  simp only [Gives, outcome_bind]
  rcases first.outcome before with ⟨ending, world⟩
  cases ending with
  | error fault => simp
  | ok value => simp [and_assoc]

@[simp] theorem not_gives_throw {fault : Fault} {result : α} {before after : World} :
    ¬ (throw fault : Run α).Gives before result after := by
  intro given
  cases given

@[simp] theorem gives_liftM {known : Except Fault α} {result : α} {before after : World} :
    (liftM known : Run α).Gives before result after ↔ known = .ok result ∧ before = after := by
  cases known with
  | error fault =>
    constructor
    · intro given
      cases given
    · rintro ⟨same, -⟩
      cases same
  | ok value =>
    constructor
    · intro given
      cases given
      exact ⟨rfl, rfl⟩
    · rintro ⟨same, rfl⟩
      cases same
      rfl

@[simp] theorem gives_currentTree {tree : FileTree} {before after : World} :
    currentTree.Gives before tree after ↔ before.tree = tree ∧ before = after := by
  constructor
  · intro given
    cases given
    exact ⟨rfl, rfl⟩
  · rintro ⟨rfl, rfl⟩
    rfl

@[simp] theorem gives_ask {question : FileTree → Except SystemFault α} {answer : α} {before after : World} :
    (ask question).Gives before answer after ↔ question before.tree = .ok answer ∧ before = after := by
  simp only [ask, gives_bind, gives_currentTree]
  constructor
  · rintro ⟨_, _, ⟨rfl, rfl⟩, given⟩
    split at given
    · rename_i known
      obtain ⟨rfl, rfl⟩ := gives_pure.mp given
      exact ⟨known, rfl⟩
    · exact absurd given not_gives_throw
  · rintro ⟨known, rfl⟩
    exact ⟨_, _, ⟨rfl, rfl⟩, by rw [known]; exact gives_pure.mpr ⟨rfl, rfl⟩⟩

@[simp] theorem gives_modify {update : World → World} {before after : World} {result : PUnit} :
    (modify update : Run PUnit).Gives before result after ↔ update before = after := by
  constructor
  · intro given
    cases given
    rfl
  · rintro rfl
    rfl

@[simp] theorem gives_change {operation : FileTree → Except SystemFault FileTree} {before after : World}
    {result : Unit} :
    (change operation).Gives before result after ↔
      ∃ tree, operation before.tree = .ok tree ∧ { before with tree := tree } = after := by
  simp only [change, gives_bind, gives_ask, gives_modify]
  constructor
  · rintro ⟨tree, _, ⟨known, rfl⟩, rfl⟩
    exact ⟨tree, known, rfl⟩
  · rintro ⟨tree, known, rfl⟩
    exact ⟨tree, _, ⟨known, rfl⟩, rfl⟩

@[simp] theorem gives_ensureDirectory {path : Path} {before after : World} {result : Unit} :
    (ensureDirectory path).Gives before result after ↔
      ∃ tree, before.tree.ensureDirectory path = .ok tree ∧ { before with tree := tree } = after := by
  simp only [ensureDirectory, gives_bind, gives_currentTree]
  constructor
  · rintro ⟨_, _, ⟨rfl, rfl⟩, given⟩
    split at given
    · rename_i made known
      exact ⟨made, known, gives_modify.mp given⟩
    · obtain ⟨_, _, _, thrown⟩ := gives_bind.mp given
      exact absurd thrown not_gives_throw
  · rintro ⟨tree, known, rfl⟩
    refine ⟨_, _, ⟨rfl, rfl⟩, ?_⟩
    rw [known]
    exact gives_modify.mpr rfl

@[simp] theorem gives_readText {path : Path} {text : Text} {before after : World} :
    (readText path).Gives before text after ↔
      before.tree.read path = .ok text.utf8 ∧ before = after := by
  simp only [readText, gives_bind, gives_ask]
  constructor
  · rintro ⟨content, _, ⟨known, rfl⟩, given⟩
    split at given
    · rename_i decoded
      obtain ⟨rfl, rfl⟩ := gives_pure.mp given
      exact ⟨(Text.ofUtf8?_eq_some_iff _ _).mp decoded ▸ known, rfl⟩
    · exact absurd given not_gives_throw
  · rintro ⟨known, rfl⟩
    refine ⟨_, _, ⟨known, rfl⟩, ?_⟩
    rw [(Text.ofUtf8?_eq_some_iff _ _).mpr rfl]
    exact gives_pure.mpr ⟨rfl, rfl⟩

@[simp] theorem gives_print {line : Text} {before after : World} {result : Unit} :
    (print line).Gives before result after ↔
      { before with output := before.output ++ line ++ ['\n'] } = after := gives_modify

@[simp] theorem gives_complain {line : Text} {before after : World} {result : Unit} :
    (complain line).Gives before result after ↔
      { before with complaints := before.complaints ++ line ++ ['\n'] } = after := gives_modify

/-- What a run gives in a world is determined. -/
theorem Gives.unique {run : Run α} {before after after' : World} {result result' : α}
    (given : run.Gives before result after) (given' : run.Gives before result' after') :
    result = result' ∧ after = after' := by
  have same := given.symm.trans given'
  rw [Prod.mk.injEq, Except.ok.injEq] at same
  exact same

/-! ## Repetitions -/

@[simp] theorem gives_forIn_nil {body : α → Run Unit} {before after : World} {result : Unit} :
    (forIn [] PUnit.unit fun item _ => do body item; pure (ForInStep.yield PUnit.unit) : Run Unit).Gives
      before result after ↔ before = after := by
  rw [List.forIn_nil]
  exact gives_pure.trans (and_iff_right rfl)

@[simp] theorem gives_forIn_cons {item : α} {rest : List α} {body : α → Run Unit} {before after : World}
    {result : Unit} :
    (forIn (item :: rest) PUnit.unit fun item _ => do
        body item; pure (ForInStep.yield PUnit.unit) : Run Unit).Gives before result after ↔
      ∃ middle, (body item).Gives before () middle ∧
        (forIn rest PUnit.unit fun item _ => do
          body item; pure (ForInStep.yield PUnit.unit) : Run Unit).Gives middle result after := by
  simp only [List.forIn_cons, gives_bind, gives_pure]
  constructor
  · rintro ⟨_, _, ⟨_, middle, first, rfl, rfl⟩, later⟩
    exact ⟨middle, first, later⟩
  · rintro ⟨middle, first, later⟩
    exact ⟨_, middle, ⟨(), middle, first, rfl, rfl⟩, later⟩

/-! ## Runs that only print -/

/-- A run that comes to an end with a result in every world and leaves the tree as it is. -/
def Speaks (run : Run α) (result : α) : Prop :=
  ∀ before, ∃ after, run.Gives before result after ∧ after.tree = before.tree

theorem Speaks.eq {run : Run α} {result result' : α} (speaks : run.Speaks result) {before after : World}
    (given : run.Gives before result' after) : result = result' ∧ after.tree = before.tree := by
  obtain ⟨other, given', same⟩ := speaks before
  obtain ⟨rfl, rfl⟩ := given'.unique given
  exact ⟨rfl, same⟩

theorem speaks_pure (value : α) : (pure value : Run α).Speaks value :=
  fun before => ⟨before, gives_pure.mpr ⟨rfl, rfl⟩, rfl⟩

theorem speaks_print (line : Text) : (print line).Speaks () := fun _ => ⟨_, gives_print.mpr rfl, rfl⟩

theorem speaks_complain (line : Text) : (complain line).Speaks () := fun _ => ⟨_, gives_complain.mpr rfl, rfl⟩

theorem Speaks.bind {first : Run α} {second : α → Run β} {value : α} {result : β} (one : first.Speaks value)
    (two : (second value).Speaks result) : (first >>= second).Speaks result := by
  intro before
  obtain ⟨middle, given, same⟩ := one before
  obtain ⟨after, given', same'⟩ := two middle
  exact ⟨after, gives_bind.mpr ⟨value, middle, given, given'⟩, same'.trans same⟩

theorem speaks_forIn (items : List α) {body : α → Run Unit} (each : ∀ item, (body item).Speaks ()) :
    Speaks (forIn items PUnit.unit fun item _ => do
      body item; pure (ForInStep.yield PUnit.unit)) () := by
  induction items with
  | nil => exact fun before => ⟨before, gives_forIn_nil.mpr rfl, rfl⟩
  | cons item rest ih =>
    intro before
    obtain ⟨middle, given, same⟩ := each item before
    obtain ⟨after, given', same'⟩ := ih middle
    exact ⟨after, gives_forIn_cons.mpr ⟨middle, given, given'⟩, same'.trans same⟩

end Run

end PromptCompiler
