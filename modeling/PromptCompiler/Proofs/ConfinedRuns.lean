import PromptCompiler.Proofs.Confinement
import PromptCompiler.Proofs.NormalForms
import PromptCompiler.Proofs.Turns

/-! # Runs that stay in the root

The paths in options are checked to stay in the root, links followed. What a run writes it writes first under
another name beside the file, and there it follows a link that has been left; and the directory of the tool table
is not checked, only the table is. If no link stands where something is written first, and the directory of the
table is in the root, then a call of the compiler changes nothing outside the root.
-/

namespace PromptCompiler

open FileTree Layout

/-! ## Paths of a layout -/

/-- A root-relative path is a chain of names. -/
theorem RootRelative.names_of_normalize {allowBackslashes : Bool} {text normal : Text}
    (known : normalize allowBackslashes text = .ok normal) :
    Anchor.ofText normal = .here ∧ ∃ (first : Name) (later : List Name),
      stepsOf normal = (first :: later).map .into := by
  obtain ⟨accepted, rfl⟩ := normalize_eq_ok_iff.mp known
  obtain ⟨names, notEmpty, spelled⟩ := accepted.exists_names
  obtain ⟨first, later, rfl⟩ := List.exists_cons_of_ne_nil notEmpty
  rw [← spelled]
  exact ⟨Name.ofText_joined _, first, later, Name.stepsOf_joined _⟩

/-- A path read from a place by names spells a place. -/
theorem Path.join_names {text : Text} {names : List Name} (start : Anchor.ofText text = .here)
    (spelled : stepsOf text = names.map .into) (place : Location) :
    (ofLocation place).join text = ofLocation (names.reverse ++ place) := by
  rw [join, start, spelled]
  simp [ofLocation, Location.steps]

namespace CommandLine

variable {tree : FileTree} {path : Path}

/-- A path that is accepted in a root is the path of a place below it, and stands for a place in it. -/
theorem resolveInRoot_ok {root : Location} {relative : Text} {demand : Demand}
    (known : tree.resolveInRoot (.ofLocation root) relative demand = .ok path) :
    (∃ name outer, path = .ofLocation (name :: outer)) ∧
      tree.realLocation (.ofLocation root) <:+ tree.realLocation path := by
  have resolved {path : Path} {place : Location} (known : tree.resolve path = .ok place) :
      place = tree.realLocation path := by
    rw [resolve] at known
    split at known
    · cases known
    · simp only at known
      split at known
      · cases known
      · exact (Except.ok.inj known).symm
  obtain ⟨normal, normalized, known⟩ := except_bind_eq_ok_iff.mp known
  obtain ⟨place, found, known⟩ := except_bind_eq_ok_iff.mp known
  obtain ⟨rootPlace, foundRoot, known⟩ := except_bind_eq_ok_iff.mp known
  obtain rfl := resolved found
  obtain rfl := resolved foundRoot
  split at known
  · cases known
  rename_i inside
  obtain ⟨-, -, known⟩ := except_bind_eq_ok_iff.mp known
  cases known
  rw [Bool.not_eq_true, Bool.not_eq_false', List.isSuffixOf_iff_suffix] at inside
  refine ⟨?_, inside⟩
  cases normal' : RootRelative.normalize true relative with
  | error fault =>
    rw [normal'] at normalized
    cases normalized
  | ok text =>
    rw [normal'] at normalized
    cases normalized
    obtain ⟨start, first, later, spelled⟩ := RootRelative.names_of_normalize normal'
    rw [Path.join_names start spelled]
    rcases reversed : (first :: later).reverse with _ | ⟨name, outer⟩
    · simp at reversed
    · exact ⟨name, outer ++ root, rfl⟩

end CommandLine

namespace Layout

/-- Whether the paths of a layout have been accepted in its root. -/
structure InRoot (layout : Layout) (tree : FileTree) : Prop where
  opens : tree.Opens (tree.realLocation layout.root)
  /-- The directory of the artifacts is given by its place. -/
  prompts : ∃ place, layout.prompts = .ofLocation place
  inside : tree.realLocation layout.root <:+ tree.realLocation layout.prompts
  /-- The tool table is given by its place. -/
  table : ∃ name outer, layout.table = .ofLocation (name :: outer)

/-- Whether a run in a layout writes in the root only: the directory of the tool table is in the root, and no link
stands where the table, or the artifact of a source, is written before it takes its place. -/
structure Sheltered (layout : Layout) (tree : FileTree) : Prop where
  table : tree.realLocation layout.root <:+ tree.realLocation layout.table.parent
  /-- No link stands where the table is written first. -/
  tableDraft : ∀ name ∈ Name.ofText? (layout.table.name ++ ToolTable.draftEnding),
    ¬ tree.HoldsLink (name :: tree.realLocation layout.table.parent)
  /-- No link stands where an artifact is written first. -/
  drafts : ∀ source ∈ (tree.sources layout.commands).toOption.getD [],
    ¬ tree.HoldsLink (Artifact.draftName source :: tree.realLocation layout.prompts)

variable {layout : Layout} {before : FileTree} {root : Location} {world : World}

/-! ## The parts of a run -/

/-- Compiling a source changes the tree within the root, on either ending. -/
theorem left_compileSource_steady {prompts : Location} (given : layout.prompts = .ofLocation prompts)
    (inside : root <:+ before.realLocation layout.prompts) {source : Name}
    (free : ¬ before.HoldsLink (Artifact.draftName source :: before.realLocation layout.prompts))
    {table : ToolTable} {tally : Tally} (steady : Steady root before world.tree) :
    Steady root before ((layout.compileSource table tally source).left world) := by
  rw [compileSource]
  refine (Run.still_readText _).left_bind _ steady fun text read _ same => ?_
  rw [← same] at steady
  refine Run.still_currentTree.left_bind _ steady fun tree seen _ same => ?_
  rw [← same] at steady
  have quiet (label : Text) (messages : List Text) := (Turn.speaks_messages label messages).still
  dsimp only
  refine (quiet _ _).left_bind _ steady fun _ warned _ same => ?_
  rw [← same] at steady
  refine (quiet _ _).left_bind _ steady fun _ failed _ same => ?_
  rw [← same] at steady
  split
  · exact steady
  · rw [Run.left_bind_still fun _ => Run.still_pure _]
    have path : layout.prompts.join (Artifact.nameFor source.text) =
        .ofLocation (Artifact.entryName source :: prompts) := by
      rw [given]
      exact Path.join_name prompts (Artifact.entryName source)
    rw [path]
    refine Run.left_replaceText_of_survives (Steady.survives root before) steady (by decide) (fun place leads => ?_) _
    -- Where the directory of the artifacts is, it is where it was.
    rw [given] at inside free
    obtain rfl := (steady.retraces.resolves leads).realLocation
    exact ⟨inside, fun link => free (steady.holdsLink link)⟩

/-- Removing artifacts changes the tree within the root, on either ending. -/
theorem left_removeOrphans_steady {prompts : Location} (given : layout.prompts = .ofLocation prompts)
    (inside : root <:+ before.realLocation layout.prompts) (expected : List Text)
    (steady : Steady root before world.tree) :
    Steady root before ((removeOrphans layout.prompts expected).left world) := by
  refine (Run.still_ask _).left_bind _ steady fun names listed _ same => ?_
  rw [← same] at steady
  rw [Run.left_bind_still fun _ => Run.still_pure _]
  refine Run.left_forIn (fun name _ world steady => ?_) steady
  rw [given] at inside ⊢
  rw [Path.child_ofLocation]
  refine Run.left_remove_of_survives (Steady.survives root before) steady fun place leads => ?_
  obtain rfl := (steady.retraces.resolves leads).realLocation
  exact inside

/-- Making a directory of the root changes the tree within the root, on either ending. -/
theorem left_ensureDirectory_confined (nested : before.Nested) {directory : Location}
    (inside : root <:+ before.realLocation (.ofLocation directory)) (steady : Steady root before world.tree) :
    Confined root before ((Run.ensureDirectory (.ofLocation directory)).left world) := by
  rcases Run.left_ensureDirectory (.ofLocation directory) world with made | refused
  · exact (steady.ensureDirectory nested inside made).1
  · rw [refused]
    exact steady.refused nested inside

/-- Saving a table changes the tree within the root, on either ending. -/
theorem left_save_confined (nested : before.Nested) {name : Name} {outer : Location}
    (inside : root <:+ before.realLocation (.ofLocation outer))
    (free : ¬ before.HoldsLink
      (name.suffixed ToolTable.draftEnding (by decide) :: before.realLocation (.ofLocation outer)))
    {table : ToolTable} (steady : Steady root before world.tree) :
    Confined root before ((table.save (.ofLocation (name :: outer))).left world) := by
  rw [ToolTable.save, Path.parent_ofLocation]
  refine Run.left_bind _ (left_ensureDirectory_confined nested inside steady) fun _ middle given => ?_
  obtain ⟨made, ensured, rfl⟩ := Run.gives_ensureDirectory.mp given
  obtain ⟨confined, tracks⟩ := steady.ensureDirectory nested inside ensured
  refine Run.left_replaceText_of_survives (Confined.survives root before) confined (by decide) (fun place leads => ?_) _
  rcases tracks with directories | known
  · have steady : Steady root before made := ⟨confined, directories⟩
    obtain rfl := (steady.retraces.resolves leads).realLocation
    exact ⟨inside, fun link => free (confined.holdsLink link)⟩
  · obtain ⟨inside, below⟩ := known place leads
    exact ⟨inside, fun link => below.entry _ (confined.holdsLink link)⟩

/-- Compiling the listed sources, removing artifacts and entering stubs changes the tree within the root, on either
ending. -/
theorem left_compileListed_confined (nested : before.Nested) {prompts : Location}
    (given : layout.prompts = .ofLocation prompts) (inside : root <:+ before.realLocation layout.prompts)
    {sources : List Name}
    (drafts : ∀ source ∈ sources, ¬ before.HoldsLink (Artifact.draftName source :: before.realLocation layout.prompts))
    {name : Name} {outer : Location} (table : layout.table = .ofLocation (name :: outer))
    (parent : root <:+ before.realLocation (.ofLocation outer))
    (draft : ¬ before.HoldsLink
      (name.suffixed ToolTable.draftEnding (by decide) :: before.realLocation (.ofLocation outer)))
    (steady : Steady root before world.tree) (loaded : ToolTable) (count : Nat) :
    Confined root before (Run.left (do
      let tally ← sources.foldlM (layout.compileSource loaded) .empty
      for name in ← removeOrphans layout.prompts tally.artifacts do
        Run.print ("Removed orphan: ".toList ++ name.text)
      layout.saveStubs loaded tally.stubs
      return (tally, count)) world) := by
  have compiled : Steady root before ((sources.foldlM (layout.compileSource loaded) .empty).left world) :=
    Run.left_foldlM (fun source member _ _ steady =>
      left_compileSource_steady given inside (drafts source member) steady) steady
  refine Run.left_bind _ compiled.toConfined fun tally middle compiling => ?_
  rw [compiling.left_eq] at compiled
  have cleared := left_removeOrphans_steady given inside tally.artifacts compiled
  refine Run.left_bind _ cleared.toConfined fun removed after removing => ?_
  rw [removing.left_eq] at cleared
  have prints := (Run.speaks_forIn removed fun name =>
    Run.speaks_print ("Removed orphan: ".toList ++ name.text)).still
  refine prints.left_bind _ cleared.toConfined fun _ told _ same => ?_
  rw [← same] at cleared
  rw [Run.left_bind_still fun _ => Run.still_pure _]
  rcases left_saveStubs layout told loaded tally.stubs with still | ⟨-, saved⟩
  · rw [still]
    exact cleared.toConfined
  · rw [saved, table]
    exact left_save_confined nested parent draft cleared

/-- Compiling a project changes the tree within the root, on either ending. -/
theorem left_compile_confined (nested : world.tree.Nested) (accepted : layout.InRoot world.tree)
    (sheltered : layout.Sheltered world.tree) :
    Confined (world.tree.realLocation layout.root) world.tree (layout.compile.left world) := by
  obtain ⟨prompts, given⟩ := accepted.prompts
  obtain ⟨name, outer, table⟩ := accepted.table
  obtain ⟨parent, draft, drafts⟩ := sheltered
  rw [table, Path.parent_ofLocation] at parent draft
  rw [Path.name_ofLocation] at draft
  have draft := draft _ (Name.ofText?_text (name.suffixed ToolTable.draftEnding (by decide)))
  have inside := accepted.inside
  have start := Steady.refl accepted.opens
  rw [compile]
  refine (ToolTable.still_load _).left_bind _ start.toConfined fun loaded ready _ same => ?_
  rw [← same] at nested parent draft drafts inside start ⊢
  refine (Run.still_ask _).left_bind _ start.toConfined fun sources listed listing same => ?_
  rw [(Run.gives_ask.mp listing).1] at drafts
  rw [← same] at nested parent draft drafts inside start ⊢
  split
  · exact start.toConfined
  refine Run.left_bind _ ?_ fun _ made making => ?_
  · rw [given] at inside ⊢
    exact left_ensureDirectory_confined nested inside start
  · obtain ⟨tree, ensured, rfl⟩ := Run.gives_ensureDirectory.mp making
    have steady : Steady (listed.tree.realLocation layout.root) listed.tree tree := by
      rw [given] at ensured inside
      exact Steady.ensureDirectory_start start.opens nested inside ensured
    exact left_compileListed_confined nested given inside drafts table parent draft steady loaded _

end Layout

/-! ## The command -/

namespace CommandLine

variable {current : Location} {arguments : List Text} {settings : Settings} {before after : World} {layout : Layout}

/-- The layout that a command line stands for in a world, if it is understood and its paths are accepted. -/
def layoutFor? (current : Location) (arguments : List Text) (before : World) : Option Layout :=
  match readOptions compileSpecs arguments with
  | .ok settings => ((layoutOf current settings).outcome before).1.toOption
  | .error _ => none

/-- The paths of a layout that is found have been accepted in its root. -/
theorem inRoot_of_gives (given : (layoutOf current settings).Gives before layout after) :
    layout.InRoot before.tree := by
  simp only [layoutOf, rootOf, Run.gives_bind, Run.gives_currentTree, Run.gives_liftM, Run.gives_ask] at given
  obtain ⟨root, _, ⟨_, _, ⟨rfl, rfl⟩, place, _, ⟨-, rfl⟩, there, _, ⟨asked, rfl⟩, found⟩, tree, _, ⟨rfl, rfl⟩,
    commands, _, ⟨-, rfl⟩, prompts, _, ⟨promptsKnown, rfl⟩, table, _, ⟨tableKnown, rfl⟩, ended⟩ := given
  obtain ⟨rfl, rfl⟩ := Run.gives_pure.mp ended
  split at found
  · rename_i directory
    obtain ⟨rfl, rfl⟩ := Run.gives_pure.mp found
    rw [directory] at asked
    obtain ⟨real, leads⟩ := Leads.of_isDirectory asked
    obtain ⟨⟨name, outer, path⟩, inside⟩ := resolveInRoot_ok promptsKnown
    obtain ⟨named, -⟩ := resolveInRoot_ok tableKnown
    refine ⟨?_, ⟨name :: outer, path⟩, inside, named⟩
    rw [((Retraces.refl _).resolves leads).realLocation]
    exact leads.opens
  · exact absurd found Run.not_gives_throw

/-- A call of the compiler, whatever it returns, leaves everything outside the root of the project as it is: if its
command line stands for a layout, no link stands there where the run writes something before it takes its place, and
the directory of the tool table is in the root. -/
theorem compile_confined (current : Location) (arguments : List Text) (before : World) (nested : before.tree.Nested)
    (sheltered : ∀ layout ∈ layoutFor? current arguments before, layout.Sheltered before.tree) (place : Location)
    (outside : ∀ layout ∈ layoutFor? current arguments before, ¬ before.tree.realLocation layout.root <:+ place) :
    ((compile current arguments).run before).2.tree.get? place = before.tree.get? place := by
  rw [layoutFor?] at sheltered outside
  rw [compile, withOptions]
  split
  · rename_i settings understood
    rw [understood] at sheltered outside
    rw [conclude_left]
    refine (still_layoutOf current settings).left_bind (fun tree => tree.get? place = before.tree.get? place) rfl
      fun layout middle given same => ?_
    have accepted := inRoot_of_gives given
    have found : layout ∈ ((layoutOf current settings).outcome before).1.toOption := by
      rw [Run.Gives] at given
      rw [given]
      rfl
    have sheltered := sheltered layout found
    have outside := outside layout found
    rw [← same] at nested accepted sheltered outside ⊢
    rw [Run.left_bind_still fun result => (speaks_reportCompile _ _ _ _).still]
    exact (left_compile_confined nested accepted sheltered).kept place outside
  · rfl
  · rfl

namespace Linked

def root : Location := [⟨"work".toList, by decide⟩]

/-- The place to which the artifacts of the project are linked. -/
def artifacts : Location := ⟨"out".toList, by decide⟩ :: root

def source : Name := ⟨"zap.md".toList, by decide⟩

def outside : Location := [⟨"outside.txt".toList, by decide⟩]

/-- A project with a link to its root and a link to its directory of artifacts, in which the artifact is a link as
well, and a file beside it. There may be more. -/
def world (more : List (Location × Entry)) : World where
  tree :=
    ⟨more ++ [(root, .directory), ([⟨"here".toList, by decide⟩], .link "/work".toList),
      ((commandsPlace root).tail, .directory), (commandsPlace root, .directory),
      (source :: commandsPlace root, .file (Text.utf8 "---\nallowed-tools: [Zap]\n---\nHello\n".toList)),
      ((promptsPlace root).tail, .directory), (promptsPlace root, .link "../out".toList), (artifacts, .directory),
      (Artifact.entryName source :: artifacts, .link "../commands/gsd/zap.md".toList),
      (outside, .file (Text.utf8 "precious".toList))]⟩
  output := []
  complaints := []

def call : List Text := ["--repo".toList, "/here".toList]

/-- A link left where the artifact is written first. -/
def leftLink : List (Location × Entry) :=
  [(Artifact.draftName source :: artifacts, .link "../../outside.txt".toList)]

/-- The place of a link outside the project that leads back into it. -/
def elsewhere : Location := [Layout.tableName, ⟨"elsewhere".toList, by decide⟩]

/-- A directory of the tool table that is a link, with a table that leads back into the project. -/
def linkedTable : List (Location × Entry) :=
  [(scriptsPlace root, .link "../elsewhere".toList), (elsewhere.tail, .directory),
    (elsewhere, .link "../work/real.json".toList),
    (⟨"real.json".toList, by decide⟩ :: root, .file (Text.utf8 "{}".toList))]

end Linked

theorem compile_confined_sample :
    (Linked.world []).tree.Nested ∧
      (∀ layout ∈ layoutFor? [] Linked.call (Linked.world []), layout.Sheltered (Linked.world []).tree) ∧
      (layoutFor? [] Linked.call (Linked.world [])).isSome = true ∧
      ((compile [] Linked.call).run (Linked.world [])).1 = 0 ∧
      ((compile [] Linked.call).run (Linked.world [])).2.tree.get? Linked.outside =
        (Linked.world []).tree.get? Linked.outside := by
  have nested : (Linked.world []).tree.Nested := .of_isNested (by decide)
  have found : layoutFor? [] Linked.call (Linked.world []) = some (ofPlace Linked.root) := by decide
  have sheltered : ∀ layout ∈ layoutFor? [] Linked.call (Linked.world []), layout.Sheltered (Linked.world []).tree := by
    rw [found]
    rintro layout member
    cases member
    exact ⟨by decide +kernel, by decide +kernel, by decide +kernel⟩
  refine ⟨nested, sheltered, by rw [found]; rfl, by decide +kernel,
    compile_confined [] Linked.call (Linked.world []) nested sheltered Linked.outside ?_⟩
  rw [found]
  rintro layout member
  cases member
  decide

/-- A link that is left where the artifact is written first leads the run out of the root; so does a directory of the
tool table that is a link, though the table itself leads back into the root. -/
theorem compile_escapes :
    ¬ Linked.root <:+ Linked.outside ∧
      ((layoutFor? [] Linked.call (Linked.world Linked.leftLink)).map fun layout =>
        (Linked.world Linked.leftLink).tree.realLocation layout.root) = some Linked.root ∧
      ((compile [] Linked.call).run (Linked.world Linked.leftLink)).2.tree.get? Linked.outside ≠
        (Linked.world Linked.leftLink).tree.get? Linked.outside ∧
    ¬ Linked.root <:+ Linked.elsewhere ∧
      ((layoutFor? [] Linked.call (Linked.world Linked.linkedTable)).map fun layout =>
        (Linked.world Linked.linkedTable).tree.realLocation layout.root) = some Linked.root ∧
      ((compile [] Linked.call).run (Linked.world Linked.linkedTable)).2.tree.get? Linked.elsewhere ≠
        (Linked.world Linked.linkedTable).tree.get? Linked.elsewhere := by
  decide +kernel

end CommandLine

end PromptCompiler
