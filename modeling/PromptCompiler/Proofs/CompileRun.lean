import PromptCompiler.Proofs.Stores
import PromptCompiler.Proofs.Turns

/-! # What a run does to the tree

A run that compiles a project passes through four phases: the directory of the artifacts is made, the
turns are taken, the artifacts without a source are removed, and the stubs are entered into the tool
table. Each phase changes places that the other phases leave alone. So the tree after the run is known
place by place from the tree before it and the turns that were taken.
-/

namespace PromptCompiler

open FileTree Artifact

namespace Layout

/-- The turns that are taken when sources are compiled one after the other. -/
def recordTurns (layout : Layout) (table : ToolTable) : Tally → List Name → Run (List Turn)
  | _, [] => return []
  | tally, source :: rest => do
    let path := layout.commands.child source
    let text ← Run.readText path
    let turn : Turn := ⟨source, ⟨← Run.currentTree, layout.root, table⟩, path, text, tally⟩
    let next ← layout.compileSource table tally source
    return turn :: (← recordTurns layout table next rest)

/-- The run that compiles a project up to its last turn, with a record of the turns. -/
def recorded (layout : Layout) : Run (List Turn) := do
  let table ← ToolTable.load layout.table
  let sources ← Run.ask (·.sources layout.commands)
  if sources = [] then return []
  Run.ensureDirectory layout.prompts
  layout.recordTurns table .empty sources

/-- The turns that are taken when a project is compiled in a world. -/
def turnsIn (layout : Layout) (before : World) : List Turn :=
  match layout.recorded.outcome before with
  | (.ok turns, _) => turns
  | (.error _, _) => []

theorem turnsIn_eq {layout : Layout} {before after : World} {turns : List Turn}
    (given : layout.recorded.Gives before turns after) : layout.turnsIn before = turns := by
  rw [turnsIn, show layout.recorded.outcome before = (.ok turns, after) from given]

/-- The names of the sources of the project at a place. -/
def sourceNames (root : Location) (tree : FileTree) : List Name :=
  (tree.fileNames (commandsPlace root)).filter fun name => isSource name.text

theorem mem_sourceNames_iff {root : Location} {tree : FileTree} {name : Name} :
    name ∈ sourceNames root tree ↔
      (∃ content, tree.get? (name :: commandsPlace root) = some (.file content)) ∧ isSource name.text = true := by
  rw [sourceNames, List.mem_filter, mem_fileNames_iff]

/-- What is found as the sources of a project are the sources at its place. -/
theorem sources_of_ok {root : Location} {tree : FileTree} (plain : tree.Plain) {sources : List Name}
    (known : tree.sources (ofPlace root).commands = .ok sources) : sources = sourceNames root tree := by
  obtain ⟨files, listing, rfl⟩ := except_map_eq_ok_iff.mp known
  rw [ofPlace_commands] at listing
  rw [sourceNames, plain.files_of_ok listing]

/-- The sources in a directory are found. -/
theorem sources_eq {root : Location} {tree : FileTree} (plain : tree.Plain)
    (directory : tree.get? (commandsPlace root) = some .directory) :
    tree.sources (ofPlace root).commands = .ok (sourceNames root tree) := by
  rw [FileTree.sources, ofPlace_commands, plain.files_eq directory]
  rfl

theorem listed_sourceNames (root : Location) (tree : FileTree) : Listed (sourceNames root tree) :=
  (tree.listed_fileNames _).filter _

variable {root : Location} {table : ToolTable}

theorem recordTurns_gives {before : World} {tally sums : Tally} {turns : List Turn} {last : FileTree}
    (plain : before.tree.Plain) (follows : Follows root table before.tree tally turns last sums) :
    ∃ after, ((ofPlace root).recordTurns table tally (turns.map Turn.source)).Gives before turns after := by
  induction turns generalizing before tally with
  | nil => exact ⟨before, Run.gives_pure.mpr ⟨rfl, rfl⟩⟩
  | cons turn rest ih =>
    cases follows with
    | cons starts follows =>
      obtain ⟨middle, first, left⟩ := starts.gives plain
      obtain ⟨after, later⟩ := ih (left ▸ starts.plain_after plain) (left ▸ follows)
      have spelled : (⟨turn.source, ⟨before.tree, .ofLocation root, table⟩,
          .ofLocation (turn.source :: commandsPlace root), turn.text, tally⟩ : Turn) = turn := by
        rw [← starts.project, ← starts.path, ← starts.tally]
      refine ⟨after, ?_⟩
      simp only [List.map_cons, recordTurns, Run.gives_bind, Run.gives_readText, Run.gives_currentTree,
        ofPlace_commands, Path.child_ofLocation, ofPlace_root, plain.read_eq_ok_iff]
      refine ⟨turn.text, _, ⟨starts.read, rfl⟩, _, _, ⟨rfl, rfl⟩, _, _, first, rest, after, later, ?_⟩
      exact Run.gives_pure.mpr ⟨congrArg (· :: rest) spelled, rfl⟩

/-- The phases of a run that compiles some sources. -/
structure Phases (root : Location) (table : ToolTable) (before after : FileTree) (turns : List Turn) (tally : Tally)
    (made last cleared : FileTree) : Prop where
  makes : before.Ensures (promptsPlace root) made
  follows : Follows root table made .empty turns last tally
  /-- No links are left by the removal of the artifacts without a source. -/
  plainCleared : cleared.Plain
  removed : ∀ name ∈ orphans last (promptsPlace root) tally.artifacts, cleared.get? (name :: promptsPlace root) = none
  spared : ∀ other, (∀ name ∈ orphans last (promptsPlace root) tally.artifacts, other ≠ name :: promptsPlace root) →
    cleared.get? other = last.get? other
  /-- Stubs are entered into the table if there are any. -/
  saves : (tally.stubs.entries = [] ∧ after = cleared) ∨
    (tally.stubs.entries ≠ [] ∧ ∃ scripts, cleared.Ensures (scriptsPlace root) scripts ∧
      scripts.Replaceable (scriptsPlace root) tableDraftName tableName ∧
      after = scripts.replaced (scriptsPlace root) tableDraftName tableName
        (table.withStubs tally.stubs).fileText.utf8)

/-- The part of a run after the listing of its sources passes through the phases. -/
theorem phases_of_gives {before after : World} (plain : before.tree.Plain) {sources : List Name} {tally : Tally}
    {count : Nat} (given : Run.Gives (do
      Run.ensureDirectory (ofPlace root).prompts
      let tally ← sources.foldlM ((ofPlace root).compileSource table) .empty
      for name in ← removeOrphans (ofPlace root).prompts tally.artifacts do
        Run.print ("Removed orphan: ".toList ++ name.text)
      (ofPlace root).saveStubs table tally.stubs
      return (tally, sources.length)) before (tally, count) after) :
    ∃ turns made last cleared, Phases root table before.tree after.tree turns tally made last cleared ∧
      turns.map Turn.source = sources ∧ count = sources.length ∧ ∃ other, Run.Gives (do
        Run.ensureDirectory (ofPlace root).prompts
        (ofPlace root).recordTurns table .empty sources) before turns other := by
  obtain ⟨_, ready, making, given⟩ := Run.gives_bind.mp given
  obtain ⟨made, ensuring, rfl⟩ := Run.gives_ensureDirectory.mp making
  rw [ofPlace_prompts] at ensuring
  have makes := plain.ensures_of_ensureDirectory ensuring
  obtain ⟨tally, compiled, compiling, given⟩ := Run.gives_bind.mp given
  obtain ⟨turns, rfl, follows⟩ := Follows.of_gives makes.plain compiling
  obtain ⟨removed, cleared, removing, given⟩ := Run.gives_bind.mp given
  rw [ofPlace_prompts] at removing
  obtain ⟨plainCleared, gone, spared⟩ := removeOrphans_effect (follows.plain_last makes.plain) removing
  obtain ⟨_, told, telling, given⟩ := Run.gives_bind.mp given
  have toldTree : told.tree = cleared.tree := ((Run.speaks_forIn _ fun _ => Run.speaks_print _).eq telling).2
  obtain ⟨_, stored, saving, given⟩ := Run.gives_bind.mp given
  have saves := saveStubs_effect (toldTree ▸ plainCleared) saving
  rw [toldTree] at saves
  obtain ⟨result, rfl⟩ := Run.gives_pure.mp given
  obtain ⟨rfl, rfl⟩ := Prod.mk.inj result
  obtain ⟨other, recorded⟩ := recordTurns_gives makes.plain follows
  refine ⟨turns, made, compiled.tree, cleared.tree, ⟨makes, follows, plainCleared, gone, spared, saves⟩, rfl, rfl,
    other, ?_⟩
  exact Run.gives_bind.mpr ⟨_, _, making, recorded⟩

/-- A run either has no sources and leaves the tree as it is, or passes through its phases. -/
theorem compile_phases {before after : World} (plain : before.tree.Plain) {tally : Tally} {count : Nat}
    (given : (ofPlace root).compile.Gives before (tally, count) after) :
    ∃ table, before.tree.Loads (tablePlace root) table ∧
      ((ofPlace root).turnsIn before).map Turn.source = sourceNames root before.tree ∧
      count = ((ofPlace root).turnsIn before).length ∧
      (((ofPlace root).turnsIn before = [] ∧ tally = .empty ∧ after.tree = before.tree) ∨
        ((ofPlace root).turnsIn before ≠ [] ∧ ∃ made last cleared,
          Phases root table before.tree after.tree ((ofPlace root).turnsIn before) tally made last cleared)) := by
  rw [Layout.compile, Run.gives_bind] at given
  obtain ⟨table, loaded, loading, given⟩ := given
  rw [Run.gives_bind] at given
  obtain ⟨sources, listed, listing, rest⟩ := given
  -- The record of the turns is made in the same world, after the same steps.
  have recording (turns : List Turn) (last : World) (rest : Run.Gives (if sources = [] then (return []) else do
      Run.ensureDirectory (ofPlace root).prompts
      (ofPlace root).recordTurns table .empty sources) listed turns last) : (ofPlace root).turnsIn before = turns :=
    turnsIn_eq (Run.gives_bind.mpr ⟨table, loaded, loading, Run.gives_bind.mpr ⟨sources, listed, listing, rest⟩⟩)
  rw [ofPlace_table] at loading
  obtain ⟨loads, same⟩ := ToolTable.loads_of_gives plain loading
  obtain ⟨known, rfl⟩ := Run.gives_ask.mp listing
  rw [same] at known
  have sources := sources_of_ok plain known
  refine ⟨table, loads, ?_⟩
  split at rest
  · rename_i empty
    obtain ⟨result, rfl⟩ := Run.gives_pure.mp rest
    obtain ⟨rfl, rfl⟩ := Prod.mk.inj result
    rw [recording [] loaded (by rw [if_pos empty]; exact Run.gives_pure.mpr ⟨rfl, rfl⟩), ← sources, empty]
    exact ⟨rfl, rfl, .inl ⟨rfl, rfl, same⟩⟩
  · rename_i notEmpty
    obtain ⟨turns, made, last, cleared, phases, rfl, rfl, other, recorded⟩ := phases_of_gives (same ▸ plain) rest
    rw [same] at phases
    rw [recording turns other (by rw [if_neg notEmpty]; exact recorded)]
    refine ⟨sources, List.length_map .., .inr ⟨fun empty => notEmpty (by rw [empty]; rfl), made, last, cleared, phases⟩⟩

/-- A run for which the directory of the artifacts is there, no artifact is superfluous and no stub is new
is the taking of its turns. -/
theorem gives_compile {world loaded ending : World} {tally : Tally}
    (loading : (ToolTable.load (ofPlace root).table).Gives world table loaded) (plain : loaded.tree.Plain)
    (commands : loaded.tree.get? (commandsPlace root) = some .directory)
    (prompts : loaded.tree.get? (promptsPlace root) = some .directory)
    (sources : sourceNames root loaded.tree ≠ [])
    (folded : ((sourceNames root loaded.tree).foldlM ((ofPlace root).compileSource table) .empty).Gives
      loaded tally ending)
    (plain' : ending.tree.Plain) (prompts' : ending.tree.get? (promptsPlace root) = some .directory)
    (spare : orphans ending.tree (promptsPlace root) tally.artifacts = []) (known : tally.stubs.entries = []) :
    (ofPlace root).compile.Gives world (tally, (sourceNames root loaded.tree).length) ending := by
  have making : loaded.tree.ensureDirectory (ofPlace root).prompts = .ok loaded.tree := by
    rw [ofPlace_prompts, plain.ensureDirectory_eq_self prompts]
  have removing : (removeOrphans (ofPlace root).prompts tally.artifacts).Gives ending [] ending := by
    rw [ofPlace_prompts]
    exact gives_removeOrphans plain' prompts' spare
  refine Run.gives_bind.mpr ⟨table, loaded, loading, ?_⟩
  refine Run.gives_bind.mpr ⟨_, loaded, Run.gives_ask.mpr ⟨sources_eq plain commands, rfl⟩, ?_⟩
  rw [if_neg sources]
  refine Run.gives_bind.mpr ⟨(), loaded, Run.gives_ensureDirectory.mpr ⟨_, making, rfl⟩, ?_⟩
  refine Run.gives_bind.mpr ⟨tally, ending, folded, ?_⟩
  refine Run.gives_bind.mpr ⟨[], ending, removing, ?_⟩
  refine Run.gives_bind.mpr ⟨(), ending, Run.gives_forIn_nil.mpr rfl, ?_⟩
  refine Run.gives_bind.mpr ⟨(), ending, gives_saveStubs _ known, ?_⟩
  exact Run.gives_pure.mpr ⟨rfl, rfl⟩

/-! ## The view of the tree through the phases -/

/-- The stubs for the tools of some turns that a table does not know, in the order in which they are first
seen, one of all that are alike. -/
def pendingStubs (table : ToolTable) (turns : List Turn) : List (Text × Text) :=
  (((turns.flatMap fun turn => Draft.toolNames turn.text).filter fun name =>
    table.fate name = .unknown).eraseDupsBy ToolTable.alike).map (·, ToolTable.unmapped)

theorem get?_stored (tree : FileTree) (root place : Location) (content : ByteArray) :
    (tree.replaced (scriptsPlace root) tableDraftName tableName content).get? place =
      if place = tablePlace root then some (.file content)
      else if place = tableDraftPlace root then none
      else tree.get? place := get?_replaced ..

namespace Phases

variable {before after made last cleared : FileTree} {turns : List Turn} {tally : Tally}

/-- The names of the stubs in the sums are those of the unknown tools. -/
theorem stubs_entries (phases : Phases root table before after turns tally made last cleared) :
    tally.stubs.entries = pendingStubs table turns := by
  have free (name : Text) : ToolTable.lookup? Tally.empty.stubs name = none := rfl
  have noStubs : Tally.empty.stubs.entries = [] := rfl
  rw [phases.follows.sums_eq.1, ToolTable.stubAll_entries, noStubs, List.nil_append, pendingStubs]
  simp only [free, and_true]

private theorem artifacts_eq (phases : Phases root table before after turns tally made last cleared) :
    tally.artifacts = turns.map fun turn => nameFor turn.source.text :=
  phases.follows.sums_eq.2.1

/-- Making the directory of the artifacts leaves everything else. -/
theorem made_eq (phases : Phases root table before after turns tally made last cleared) {place : Location}
    (elsewhere : ¬ place <:+ promptsPlace root) : made.get? place = before.get? place :=
  (phases.makes.kept place).resolve_right fun above => elsewhere above.1

/-- Entering stubs leaves everything else. -/
theorem after_eq (phases : Phases root table before after turns tally made last cleared) {place : Location}
    (elsewhere : ¬ place <:+ scriptsPlace root) (notTable : place ≠ tablePlace root)
    (notDraft : place ≠ tableDraftPlace root) : after.get? place = cleared.get? place := by
  rcases phases.saves with ⟨-, rfl⟩ | ⟨-, scripts, ensured, -, rfl⟩
  · rfl
  · rw [get?_stored, if_neg notTable, if_neg notDraft]
    exact (ensured.kept place).resolve_right fun above => elsewhere above.1

/-- Whether an artifact is expected is a matter of the sources. -/
theorem mem_artifacts_iff (phases : Phases root table before after turns tally made last cleared) (name : Name) :
    name.text ∈ tally.artifacts ↔ ∃ turn ∈ turns, name = entryName turn.source := by
  rw [phases.artifacts_eq, List.mem_map]
  constructor
  · rintro ⟨turn, member, same⟩
    exact ⟨turn, member, Name.ext same.symm⟩
  · rintro ⟨turn, member, rfl⟩
    exact ⟨turn, member, rfl⟩

/-- An artifact in the end is as the turns have left it, unless it belongs to no source. -/
theorem inPrompts_eq (phases : Phases root table before after turns tally made last cleared) (name : Name) :
    (name ∈ orphans last (promptsPlace root) tally.artifacts ∧ after.get? (name :: promptsPlace root) = none) ∨
      (name ∉ orphans last (promptsPlace root) tally.artifacts ∧
        after.get? (name :: promptsPlace root) = last.get? (name :: promptsPlace root)) := by
  have kept : after.get? (name :: promptsPlace root) = cleared.get? (name :: promptsPlace root) :=
    phases.after_eq (inPrompts_not_above_scripts root name)
      (fun same => scriptsPlace_ne_promptsPlace root (List.cons.inj same).2.symm)
      (fun same => scriptsPlace_ne_promptsPlace root (List.cons.inj same).2.symm)
  rw [kept]
  by_cases orphan : name ∈ orphans last (promptsPlace root) tally.artifacts
  · exact .inl ⟨orphan, phases.removed name orphan⟩
  · refine .inr ⟨orphan, phases.spared _ fun other member same => orphan ?_⟩
    rw [(List.cons.inj same).1]
    exact member

/-- No artifact that belongs to a source is removed. -/
theorem not_mem_orphans (phases : Phases root table before after turns tally made last cleared) {turn : Turn}
    (member : turn ∈ turns) : entryName turn.source ∉ orphans last (promptsPlace root) tally.artifacts := by
  rw [mem_orphans_iff]
  rintro ⟨-, -, unexpected⟩
  exact unexpected ((phases.mem_artifacts_iff _).mpr ⟨turn, member, rfl⟩)

/-- The place of the artifact of a source is in the end as its turn leaves it. -/
theorem artifact_eq (phases : Phases root table before after turns tally made last cleared)
    (apart : Follows.Apart turns) {turn : Turn} (member : turn ∈ turns) :
    after.get? (artifactPlace root turn.source) =
      if turn.draft.withheld then before.get? (artifactPlace root turn.source)
      else some (.file turn.draft.output.utf8) := by
  obtain ⟨-, final⟩ := (phases.inPrompts_eq (entryName turn.source)).resolve_left fun orphan =>
    phases.not_mem_orphans member orphan.1
  obtain ⟨atFirst, inTheEnd⟩ := phases.follows.get?_of_owns apart member (.inl rfl)
  have starts := phases.follows.starts_of_mem member
  refine final.trans (inTheEnd.trans ((starts.get?_after _).trans ?_))
  split
  · exact atFirst.trans (phases.made_eq (inPrompts_not_above_prompts root _))
  · rw [if_pos rfl]

/-- Outside of the directory of the artifacts the turns and the removal of artifacts change nothing. -/
theorem cleared_eq (phases : Phases root table before after turns tally made last cleared) {place : Location}
    (elsewhere : ∀ name, place ≠ name :: promptsPlace root) : cleared.get? place = made.get? place := by
  rw [phases.spared place fun name _ => elsewhere name]
  refine phases.follows.get?_last_of_not_writes fun turn _ writes => ?_
  rcases writes.2 with here | here
  · exact elsewhere _ here
  · exact elsewhere _ here

private theorem cleared_inScripts (phases : Phases root table before after turns tally made last cleared)
    (name : Name) :
    cleared.get? (name :: scriptsPlace root) = before.get? (name :: scriptsPlace root) := by
  rw [phases.cleared_eq fun other same => scriptsPlace_ne_promptsPlace root (List.cons.inj same).2]
  exact phases.made_eq (inScripts_not_above_prompts root name)

theorem areStubs (phases : Phases root table before after turns tally made last cleared) :
    ToolTable.AreStubs table tally.stubs := by
  rw [phases.follows.sums_eq.1]
  exact (ToolTable.areStubs_empty table).stubAll _

/-- Without new stubs the table stays, else it has them at its end. -/
theorem table_eq (phases : Phases root table before after turns tally made last cleared) :
    (pendingStubs table turns = [] ∧ after.get? (tablePlace root) = before.get? (tablePlace root)) ∨
      (pendingStubs table turns ≠ [] ∧ ∃ content extended, after.get? (tablePlace root) = some (.file content) ∧
        ToolTable.ofBytes content = .ok extended ∧ extended = table.withStubs tally.stubs ∧
        extended.entries = table.entries ++ pendingStubs table turns) := by
  rw [← phases.stubs_entries]
  rcases phases.saves with ⟨noStubs, rfl⟩ | ⟨stubbed, scripts, -, -, rfl⟩
  · exact .inl ⟨noStubs, phases.cleared_inScripts tableName⟩
  · refine .inr ⟨stubbed, _, _, ?_, ToolTable.ofBytes_fileText _, rfl, phases.areStubs.entries_withStubs⟩
    rw [get?_stored, if_pos rfl]

end Phases

/-- The places that a run may change. -/
inductive Touches (root : Location) (table : ToolTable) (before after : FileTree) (turns : List Turn) :
    Location → Prop
  /-- The artifact of a source that is not withheld. -/
  | artifact {turn : Turn} (member : turn ∈ turns) (written : turn.draft.withheld = false) :
    Touches root table before after turns (artifactPlace root turn.source)
  /-- The name under which such an artifact is written; it is free in the end. -/
  | artifactDraft {turn : Turn} (member : turn ∈ turns) (written : turn.draft.withheld = false)
    (free : after.get? (draftPlace root turn.source) = none) :
    Touches root table before after turns (draftPlace root turn.source)
  /-- An artifact that belongs to no source; it is gone in the end. -/
  | orphan {name : Name} {content : ByteArray} (isArtifact : isArtifact name.text = true)
    (there : before.get? (name :: promptsPlace root) = some (.file content))
    (unexpected : ∀ turn ∈ turns, name ≠ entryName turn.source)
    (gone : after.get? (name :: promptsPlace root) = none) :
    Touches root table before after turns (name :: promptsPlace root)
  | table (stubs : pendingStubs table turns ≠ []) : Touches root table before after turns (tablePlace root)
  /-- The name under which it is written; it is free in the end. -/
  | tableDraft (stubs : pendingStubs table turns ≠ []) (free : after.get? (tableDraftPlace root) = none) :
    Touches root table before after turns (tableDraftPlace root)
  /-- A directory made on the way to the artifacts or, if there are new stubs, to the tool table. -/
  | directory {place : Location} (onTheWay : place <:+ promptsPlace root ∨
      (pendingStubs table turns ≠ [] ∧ place <:+ scriptsPlace root))
    (missing : before.get? place = none) (made : after.get? place = some .directory) :
    Touches root table before after turns place

namespace Phases

variable {before after made last cleared : FileTree} {turns : List Turn} {tally : Tally}

/-- The name under which an artifact is written is free in the end. -/
theorem draft_free (phases : Phases root table before after turns tally made last cleared)
    (apart : Follows.Apart turns) {turn : Turn} (member : turn ∈ turns) (written : turn.draft.withheld = false) :
    after.get? (draftPlace root turn.source) = none := by
  rcases phases.inPrompts_eq (draftName turn.source) with ⟨-, gone⟩ | ⟨-, final⟩
  · exact gone
  · have apartPlaces : draftPlace root turn.source ≠ artifactPlace root turn.source := fun same =>
      draftName_ne_entryName _ _ (List.cons.inj same).1
    obtain ⟨-, inTheEnd⟩ := phases.follows.get?_of_owns apart member (.inr rfl)
    refine final.trans (inTheEnd.trans (((phases.follows.starts_of_mem member).get?_after _).trans ?_))
    rw [written, if_neg (by simp), if_neg apartPlaces, if_pos rfl]

/-- In the directory of the artifacts the turns leave what they do not write. -/
theorem last_inPrompts (phases : Phases root table before after turns tally made last cleared) {name : Name}
    (kept : ∀ turn ∈ turns, ¬ turn.Writes root (name :: promptsPlace root)) :
    last.get? (name :: promptsPlace root) = before.get? (name :: promptsPlace root) :=
  (phases.follows.get?_last_of_not_writes kept).trans (phases.made_eq (inPrompts_not_above_prompts root name))

/-- No turn writes an artifact that belongs to no source. -/
theorem orphan_eq (phases : Phases root table before after turns tally made last cleared) {name : Name}
    (orphan : name ∈ orphans last (promptsPlace root) tally.artifacts) :
    last.get? (name :: promptsPlace root) = before.get? (name :: promptsPlace root) := by
  obtain ⟨-, named, unexpected⟩ := mem_orphans_iff.mp orphan
  refine phases.last_inPrompts fun turn member writes => ?_
  rcases writes.2 with here | here
  · exact unexpected ((phases.mem_artifacts_iff name).mpr ⟨turn, member, (List.cons.inj here).1⟩)
  · rw [(List.cons.inj here).1, not_isArtifact_draftName] at named
    cases named

/-- What is in the directory of the artifacts changes only by turns and by the removal of artifacts. -/
theorem touches_inPrompts (phases : Phases root table before after turns tally made last cleared)
    (apart : Follows.Apart turns) (name : Name) :
    after.get? (name :: promptsPlace root) = before.get? (name :: promptsPlace root) ∨
      Touches root table before after turns (name :: promptsPlace root) := by
  rcases phases.inPrompts_eq name with ⟨orphan, gone⟩ | ⟨-, final⟩
  · obtain ⟨⟨content, there⟩, named, unexpected⟩ := mem_orphans_iff.mp orphan
    rw [phases.orphan_eq orphan] at there
    refine .inr (.orphan named there (fun turn member same => unexpected ?_) gone)
    exact (phases.mem_artifacts_iff name).mpr ⟨turn, member, same⟩
  by_cases writes : ∃ turn ∈ turns, turn.Writes root (name :: promptsPlace root)
  · obtain ⟨turn, member, written, here | here⟩ := writes
    · rw [here]
      exact .inr (.artifact member written)
    · rw [here]
      exact .inr (.artifactDraft member written (phases.draft_free apart member written))
  · exact .inl (final.trans (phases.last_inPrompts fun turn member here => writes ⟨turn, member, here⟩))

/-- Every place is as before or one of those that a run may change. -/
theorem touches (phases : Phases root table before after turns tally made last cleared)
    (apart : Follows.Apart turns) (place : Location) :
    after.get? place = before.get? place ∨ Touches root table before after turns place := by
  by_cases inPrompts : ∃ name, place = name :: promptsPlace root
  · obtain ⟨name, rfl⟩ := inPrompts
    exact phases.touches_inPrompts apart name
  have untouched : cleared.get? place = made.get? place :=
    phases.cleared_eq fun name here => inPrompts ⟨name, here⟩
  -- What is neither an artifact nor a table can only be a directory that is made.
  have ofCleared (same : after.get? place = cleared.get? place) :
      after.get? place = before.get? place ∨ Touches root table before after turns place := by
    rcases phases.makes.kept place with kept | ⟨above, missing, directory⟩
    · exact .inl (same.trans (untouched.trans kept))
    · exact .inr (.directory (.inl above) missing (same.trans (untouched.trans directory)))
  have stubs := phases.stubs_entries
  rcases phases.saves with ⟨-, rfl⟩ | ⟨stubbed, scripts, ensured, -, rfl⟩
  · exact ofCleared rfl
  rw [stubs] at stubbed
  by_cases isTable : place = tablePlace root
  · exact .inr (isTable ▸ .table stubbed)
  have stored := get?_stored scripts root place (table.withStubs tally.stubs).fileText.utf8
  rw [if_neg isTable] at stored
  by_cases isDraft : place = tableDraftPlace root
  · rw [if_pos isDraft, isDraft] at stored
    exact .inr (isDraft ▸ .tableDraft stubbed stored)
  rw [if_neg isDraft] at stored
  rcases ensured.kept place with kept | ⟨above, missing, directory⟩
  · exact ofCleared (stored.trans kept)
  · refine .inr (.directory (.inr ⟨stubbed, above⟩) ?_ (stored.trans directory))
    rcases phases.makes.kept place with kept | ⟨-, -, there⟩
    · rw [← kept, ← untouched, missing]
    · rw [← untouched, missing] at there
      cases there

/-- A directory above the artifacts is there in the end. -/
theorem directory_after (phases : Phases root table before after turns tally made last cleared) {place : Location}
    (above : place <:+ promptsPlace root) (directory : made.get? place = some .directory) :
    after.get? place = some .directory := by
  have untouched : cleared.get? place = some .directory := by
    rw [← directory]
    refine phases.cleared_eq fun name here => ?_
    exact inPrompts_not_above_prompts root name (here ▸ above)
  rcases phases.saves with ⟨-, rfl⟩ | ⟨-, scripts, ensured, -, rfl⟩
  · exact untouched
  · have notTable : place ≠ tablePlace root := by
      rintro rfl
      exact inScripts_not_above_prompts root tableName above
    have notDraft : place ≠ tableDraftPlace root := by
      rintro rfl
      exact inScripts_not_above_prompts root tableDraftName above
    rw [get?_stored, if_neg notTable, if_neg notDraft]
    rcases ensured.kept place with kept | ⟨-, missing, -⟩
    · rw [kept, untouched]
    · rw [untouched] at missing
      cases missing

private theorem made_between (phases : Phases root table before after turns tally made last cleared)
    (place : Location) :
    made.get? place = before.get? place ∨ made.get? place = after.get? place := by
  rcases phases.makes.kept place with kept | ⟨above, -, directory⟩
  · exact .inl kept
  · exact .inr (directory.trans (phases.directory_after above directory).symm)

/-- The turns leave everything as before or as in the end. -/
theorem last_between (phases : Phases root table before after turns tally made last cleared) (place : Location) :
    last.get? place = before.get? place ∨ last.get? place = after.get? place := by
  by_cases inPrompts : ∃ name, place = name :: promptsPlace root
  · obtain ⟨name, rfl⟩ := inPrompts
    rcases phases.inPrompts_eq name with ⟨orphan, -⟩ | ⟨-, final⟩
    · exact .inl (phases.orphan_eq orphan)
    · exact .inr final.symm
  · have untouched : last.get? place = made.get? place := by
      refine phases.follows.get?_last_of_not_writes fun turn _ writes => inPrompts ?_
      exact writes.2.elim (fun here => ⟨_, here⟩) fun here => ⟨_, here⟩
    rw [untouched]
    exact phases.made_between place

/-- In every turn a place is as before the run or as after it. -/
theorem turn_between (phases : Phases root table before after turns tally made last cleared)
    (apart : Follows.Apart turns) {turn : Turn} (member : turn ∈ turns) (place : Location) :
    turn.project.tree.get? place = before.get? place ∨ turn.project.tree.get? place = after.get? place := by
  rcases phases.follows.get?_between apart member place with same | same
  · rw [same]
    exact phases.made_between place
  · rw [same]
    exact phases.last_between place

/-! ## What the next run finds -/

theorem plain_after (phases : Phases root table before after turns tally made last cleared) : after.Plain := by
  rcases phases.saves with ⟨-, rfl⟩ | ⟨-, scripts, ensured, ready, rfl⟩
  · exact phases.plainCleared
  · exact ready.plain_replaced ensured.plain _

/-- The sources are as before. -/
theorem source_eq (phases : Phases root table before after turns tally made last cleared) (name : Name) :
    after.get? (name :: commandsPlace root) = before.get? (name :: commandsPlace root) := by
  rw [phases.after_eq (inCommands_not_above_scripts root name)
    (fun same => scriptsPlace_ne_commandsPlace root (List.cons.inj same).2.symm)
    (fun same => scriptsPlace_ne_commandsPlace root (List.cons.inj same).2.symm),
    phases.cleared_eq fun other same => promptsPlace_ne_commandsPlace root (List.cons.inj same).2.symm,
    phases.made_eq (inCommands_not_above_prompts root name)]

theorem sourceNames_eq (phases : Phases root table before after turns tally made last cleared) :
    sourceNames root after = sourceNames root before := by
  rw [sourceNames, sourceNames, fileNames_congr fun name => ?_]
  rw [isFileAt, isFileAt, phases.source_eq]

/-- The table that the next run loads is the one of this run with its stubs. -/
theorem loads_after (phases : Phases root table before after turns tally made last cleared)
    (loaded : before.Loads (tablePlace root) table) :
    after.Loads (tablePlace root) (table.withStubs tally.stubs) := by
  rcases phases.table_eq with ⟨noStubs, same⟩ | ⟨-, content, extended, there, known, rfl, -⟩
  · have same' : table.withStubs tally.stubs = table := by
      apply OrderedMap.ext
      rw [phases.areStubs.entries_withStubs, phases.stubs_entries, noStubs, List.append_nil]
    rw [same', Loads, same]
    exact loaded
  · rw [Loads, there]
    exact known

end Phases

end Layout

end PromptCompiler
