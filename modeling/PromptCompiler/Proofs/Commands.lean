import PromptCompiler.CommandLine.Compile
import PromptCompiler.Proofs.PlainEffects

/-! # The command that compiles a project

The command returns 0 exactly if its run ends with that code: it finds its layout, compiles the project in
it, and reports neither a withheld artifact nor, in a strict run, an omitted tool. On trees without links
the layout is found without a look at the tree, except that the root must be a directory.
-/

namespace PromptCompiler

open FileTree

namespace FileTree.Plain

variable {tree : FileTree}

private theorem resolveSteps_eq (plain : tree.Plain) (find : Location → Text → Bool × Location) (here : Location)
    (steps : List Step) : tree.resolveSteps find here steps = (true, Location.after here steps) := by
  induction steps generalizing here with
  | nil => rfl
  | cons step rest ih =>
    cases step with
    | up => exact ih here.tail
    | into name =>
      rw [resolveSteps]
      split
      · rename_i target link
        exact absurd link (plain.noLink _ _)
      · exact ih (name :: here)

/-- Without links a path stands for the place that it leads to by its text alone. -/
theorem resolve_eq (plain : tree.Plain) (path : Path) :
    tree.resolve path =
      if path.steps.any Step.holdsNul then .error (.system .embeddedNul) else .ok path.location := by
  have real : tree.realLocation path = path.location := by
    rw [realLocation, resolveWithin, plain.resolveSteps_eq]
    rfl
  rw [resolve, real]
  split
  · rfl
  · simp only
    split
    · rename_i looped
      exact absurd rfl (plain.locate_error looped).1
    · rfl

theorem resolve_place (plain : tree.Plain) {place : Location} (allowed : ∀ name ∈ place, Allowed name) :
    tree.resolve (.ofLocation place) = .ok place := by
  have noNul : ¬ (Path.ofLocation place).steps.any Step.holdsNul = true := by
    rw [Path.ofLocation, any_holdsNul]
    rintro ⟨name, member, nul⟩
    exact (allowed name member).2 nul
  rw [plain.resolve_eq, if_neg noNul, Path.location_ofLocation]

end FileTree.Plain

namespace CommandLine

/-- Whether no option says where a project keeps its files, but for its root. -/
def DefaultLayout (settings : Settings) : Prop :=
  ∀ option ∈ [commandsOption, promptsOption, tableOption], settings.get? option = none

theorem conclude_run (run : Run Nat) (before : World) :
    (conclude run).run before = match run.outcome before with
      | (.ok code, world) => (code, world)
      | (.error fault, world) => (codeOfFault,
        { world with complaints := world.complaints ++ "ERROR: ".toList ++ fault.message ++ ['\n'] }) := by
  simp only [conclude, Run.outcome, StateT.run_bind]
  rcases run.run.run before with ⟨result, world⟩
  cases result <;> rfl

/-- A run that is brought to an end returns 0 exactly if it gives 0. -/
theorem conclude_zero_iff {run : Run Nat} {before after : World} :
    (conclude run).run before = (0, after) ↔ run.Gives before 0 after := by
  rw [conclude_run, Run.Gives]
  rcases run.outcome before with ⟨fault | code, world⟩
  · constructor
    · intro same
      cases congrArg Prod.fst same
    · intro same
      cases congrArg Prod.fst same
  · constructor
    · intro same
      cases same
      rfl
    · intro same
      cases same
      rfl

/-- The root path that the options give, read from the current directory. -/
def rootPath (current : Location) (settings : Settings) : Path :=
  (Path.ofLocation current).join ((settings.get? rootOption).getD ['.'])

/-- The root is found if its path can be written and leads to a directory. -/
theorem gives_rootOf_iff {current : Location} {settings : Settings} {before after : World} {root : Path}
    (plain : before.tree.Plain) :
    (rootOf current settings).Gives before root after ↔
      (rootPath current settings).steps.any Step.holdsNul = false ∧
        before.tree.get? (rootPath current settings).location = some .directory ∧
        root = .ofLocation (rootPath current settings).location ∧ before = after := by
  have resolved : before.tree.resolve (rootPath current settings) = _ := plain.resolve_eq _
  simp only [rootOf, Run.gives_bind, Run.gives_currentTree, Run.gives_liftM, Run.gives_ask]
  constructor
  · rintro ⟨_, _, ⟨rfl, rfl⟩, place, _, ⟨known, rfl⟩, there, _, ⟨asked, rfl⟩, rest⟩
    have known := resolved.symm.trans known
    split at known
    · cases known
    rename_i noNul
    cases known
    split at rest
    · rename_i directory
      obtain ⟨rfl, rfl⟩ := Run.gives_pure.mp rest
      rw [directory] at asked
      exact ⟨Bool.eq_false_iff.mpr noNul, (isDirectoryAt_iff _).mp (plain.isDirectory_of_ok asked).symm, rfl, rfl⟩
    · exact absurd rest Run.not_gives_throw
  · rintro ⟨noNul, directory, rfl, rfl⟩
    rw [noNul, if_neg (by simp)] at resolved
    have asked := plain.isDirectory_eq (plain.allowed_of_present (by rw [directory]; simp))
    rw [(isDirectoryAt_iff _).mpr directory] at asked
    refine ⟨_, _, ⟨rfl, rfl⟩, _, _, ⟨resolved, rfl⟩, true, _, ⟨asked, rfl⟩, ?_⟩
    rw [if_pos rfl]
    exact Run.gives_pure.mpr ⟨rfl, rfl⟩

/-- A root-relative path to an entry in a directory of the root is in the root. -/
theorem resolveInRoot_eq {tree : FileTree} (plain : tree.Plain) {place : Location}
    (directory : tree.get? place = some .directory) (text : Text) {outer inner : Name}
    (normal : RootRelative.normalize true text = .ok text)
    (joined : (Path.ofLocation place).join text = .ofLocation (inner :: outer :: place))
    (named : Allowed outer ∧ Allowed inner) :
    tree.resolveInRoot (.ofLocation place) text .none = .ok ((Path.ofLocation place).join text) := by
  have above := plain.allowed_of_present (by rw [directory]; simp)
  have allowed : ∀ name ∈ inner :: outer :: place, Allowed name := by
    rintro name member
    rcases List.mem_cons.mp member with rfl | member
    · exact named.2
    rcases List.mem_cons.mp member with rfl | member
    · exact named.1
    · exact above name member
  have inside : place.isSuffixOf (inner :: outer :: place) = true :=
    List.isSuffixOf_iff_suffix.mpr ⟨[inner, outer], rfl⟩
  rw [resolveInRoot, normal]
  change (tree.resolve ((Path.ofLocation place).join text) >>= _) = _
  rw [joined, plain.resolve_place allowed]
  change (tree.resolve (.ofLocation place) >>= _) = _
  rw [plain.resolve_place above]
  change (if (!place.isSuffixOf (inner :: outer :: place)) = true then _ else _) = _
  rw [inside]
  rfl

/-- The paths of the default layout are in the root. -/
theorem resolveInRoot_defaults {tree : FileTree} (plain : tree.Plain) {place : Location}
    (directory : tree.get? place = some .directory) :
    tree.resolveInRoot (.ofLocation place) Layout.defaultCommands .none = .ok (Layout.ofPlace place).commands ∧
      tree.resolveInRoot (.ofLocation place) Layout.defaultPrompts .none = .ok (Layout.ofPlace place).prompts ∧
      tree.resolveInRoot (.ofLocation place) Layout.defaultTable .none = .ok (Layout.ofPlace place).table :=
  ⟨resolveInRoot_eq plain directory Layout.defaultCommands rfl (Layout.ofPlace_commands place) (by decide),
    resolveInRoot_eq plain directory Layout.defaultPrompts rfl (Layout.ofPlace_prompts place) (by decide),
    resolveInRoot_eq plain directory Layout.defaultTable rfl (Layout.ofPlace_table place) (by decide)⟩

/-- Without other options the layout is the default one of the root. -/
theorem gives_layoutOf_iff {current : Location} {settings : Settings} (default : DefaultLayout settings)
    {before after : World} {layout : Layout} (plain : before.tree.Plain) :
    (layoutOf current settings).Gives before layout after ↔
      (rootPath current settings).steps.any Step.holdsNul = false ∧
        before.tree.get? (rootPath current settings).location = some .directory ∧
        layout = .ofPlace (rootPath current settings).location ∧ before = after := by
  have commands := default commandsOption (by simp)
  have prompts := default promptsOption (by simp)
  have table := default tableOption (by simp)
  simp only [layoutOf, Run.gives_bind, Run.gives_currentTree, gives_rootOf_iff plain, commands, prompts, table,
    Option.getD_none, Run.gives_liftM, Run.gives_pure]
  generalize (rootPath current settings).location = place
  constructor
  · rintro ⟨_, _, ⟨noNul, directory, rfl, rfl⟩, _, _, ⟨rfl, rfl⟩, _, _, ⟨first, rfl⟩, _, _, ⟨second, rfl⟩, _, _,
      ⟨third, rfl⟩, rfl, rfl⟩
    obtain ⟨commands, prompts, table⟩ := resolveInRoot_defaults plain directory
    cases commands.symm.trans first
    cases prompts.symm.trans second
    cases table.symm.trans third
    exact ⟨noNul, directory, rfl, rfl⟩
  · rintro ⟨noNul, directory, rfl, rfl⟩
    obtain ⟨commands, prompts, table⟩ := resolveInRoot_defaults plain directory
    exact ⟨_, _, ⟨noNul, directory, rfl, rfl⟩, _, _, ⟨rfl, rfl⟩, _, _, ⟨commands, rfl⟩, _, _, ⟨prompts, rfl⟩, _, _,
      ⟨table, rfl⟩, rfl, rfl⟩

/-- The code for a run that compiled a project. -/
def reportCode (strict : Bool) (tally : Tally) (count : Nat) : Nat :=
  if count = 0 then codeOfFailure
  else if tally.withheldCount ≠ 0 ∨ (tally.omittedCount ≠ 0 ∧ strict) then codeOfFailure else 0

theorem reportCode_eq_zero_iff {strict : Bool} {tally : Tally} {count : Nat} :
    reportCode strict tally count = 0 ↔
      count ≠ 0 ∧ tally.withheldCount = 0 ∧ ¬ (tally.omittedCount ≠ 0 ∧ strict) := by
  rw [reportCode]
  split
  · rename_i empty
    simp [empty, codeOfFailure]
  · rename_i counted
    split
    · rename_i failed
      refine iff_of_false (by simp [codeOfFailure]) fun succeeded => ?_
      exact failed.elim (fun withheld => withheld succeeded.2.1) succeeded.2.2
    · rename_i succeeded
      rw [not_or, Decidable.not_not] at succeeded
      exact iff_of_true rfl ⟨counted, succeeded⟩

/-- A report leaves the tree as it is. -/
theorem speaks_reportCompile (layout : Layout) (strict : Bool) (tally : Tally) (count : Nat) :
    (reportCompile layout strict tally count).Speaks (reportCode strict tally count) := by
  unfold reportCompile
  split
  · rename_i empty
    rw [reportCode, if_pos empty]
    exact (Run.speaks_complain _).bind (Run.speaks_pure _)
  · rename_i counted
    rw [reportCode, if_neg counted]
    generalize (if tally.withheldCount ≠ 0 ∨ tally.omittedCount ≠ 0 ∧ strict = true then codeOfFailure else 0) = code
    have last : Run.Speaks (do
        Run.print ("Generated ".toList ++ Text.ofNat count ++ " prompt files into ".toList ++
          layout.root.relativeOrOwn layout.prompts)
        return code) code := (Run.speaks_print _).bind (Run.speaks_pure code)
    dsimp only
    split
    · refine (Run.speaks_complain _).bind ?_
      refine (Run.speaks_complain _).bind ?_
      split
      · exact (Run.speaks_complain _).bind ((Run.speaks_complain _).bind last)
      · exact last
    · split
      · exact (Run.speaks_complain _).bind ((Run.speaks_complain _).bind last)
      · exact last

/-- Whether the command can be called for the project at a place: the options are understood and leave the
layout as it is by default, and the root that they give is the place. -/
structure Calls (current : Location) (arguments : List Text) (settings : Settings) (root : Location) : Prop where
  understood : readOptions compileSpecs arguments = .ok settings
  default : DefaultLayout settings
  root : (rootPath current settings).location = root

variable {current : Location} {arguments : List Text} {settings : Settings} {root : Location} {before after : World}

theorem calls_sample : Calls [] [] [] [] where
  understood := rfl
  default := by
    intro option _
    rfl
  root := rfl

theorem compile_run (calls : Calls current arguments settings root) :
    (compile current arguments).run before = (conclude do
      let layout ← layoutOf current settings
      let (tally, count) ← layout.compile
      reportCompile layout (settings.get? strictOption).isSome tally count).run before := by
  rw [compile, withOptions, calls.understood]

/-- A call that returns 0 has compiled the project with success. -/
theorem gives_of_compile_zero (calls : Calls current arguments settings root) (plain : before.tree.Plain)
    (zero : (compile current arguments).run before = (0, after)) :
    (rootPath current settings).steps.any Step.holdsNul = false ∧ before.tree.get? root = some .directory ∧
      ∃ tally count middle, (Layout.ofPlace root).compile.Gives before (tally, count) middle ∧
        reportCode (settings.get? strictOption).isSome tally count = 0 ∧ after.tree = middle.tree := by
  rw [compile_run calls, conclude_zero_iff] at zero
  obtain ⟨layout, found, finding, rest⟩ := Run.gives_bind.mp zero
  obtain ⟨noNul, directory, rfl, rfl⟩ := (gives_layoutOf_iff calls.default plain).mp finding
  obtain ⟨⟨tally, count⟩, middle, compiled, reported⟩ := Run.gives_bind.mp rest
  obtain ⟨code, same⟩ := (speaks_reportCompile _ _ tally count).eq reported
  rw [calls.root] at directory compiled
  exact ⟨noNul, directory, tally, count, middle, compiled, code, same⟩

/-- A project that can be compiled with success is compiled by a call that returns 0. -/
theorem compile_zero_of_gives (calls : Calls current arguments settings root) (plain : before.tree.Plain)
    (noNul : (rootPath current settings).steps.any Step.holdsNul = false)
    (directory : before.tree.get? root = some .directory) {tally : Tally} {count : Nat} {middle : World}
    (compiled : (Layout.ofPlace root).compile.Gives before (tally, count) middle)
    (code : reportCode (settings.get? strictOption).isSome tally count = 0) :
    ∃ after, (compile current arguments).run before = (0, after) ∧ after.tree = middle.tree := by
  obtain ⟨after, reported, same⟩ := speaks_reportCompile (Layout.ofPlace root)
    (settings.get? strictOption).isSome tally count middle
  refine ⟨after, ?_, same⟩
  rw [compile_run calls, conclude_zero_iff]
  have found : (layoutOf current settings).Gives before (Layout.ofPlace root) before :=
    (gives_layoutOf_iff calls.default plain).mpr ⟨noNul, calls.root ▸ directory, by rw [calls.root], rfl⟩
  exact Run.gives_bind.mpr ⟨_, _, found, Run.gives_bind.mpr ⟨(tally, count), middle, compiled, code ▸ reported⟩⟩

end CommandLine

end PromptCompiler
