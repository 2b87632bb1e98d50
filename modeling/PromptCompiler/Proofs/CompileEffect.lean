import PromptCompiler.Proofs.CompileRun

/-! # The effect of a run

What a run leaves is known from the table that it loads and the turns that it takes: the artifacts hold
what the turns compiled, save those that are withheld, artifacts without a source are gone, the table has
the new stubs at its end, and all else is as it was.
-/

namespace PromptCompiler

open FileTree Artifact

namespace Layout

variable {root : Location} {table : ToolTable}

/-- What a run that compiles the project at a place does to the tree, by the table that it loads and the turns
that it takes. -/
structure Effect (root : Location) (before after : FileTree) (table : ToolTable) (turns : List Turn) : Prop where
  /-- There is one turn for each source, in the order of their names. -/
  sources : turns.map Turn.source = sourceNames root before
  /-- Each turn compiles its source as it was before the run, with the table as it was before the run. -/
  compiled : ∀ turn ∈ turns, turn.path = .ofLocation (turn.source :: commandsPlace root) ∧
    before.get? (turn.source :: commandsPlace root) = some (.file turn.text.utf8) ∧
    turn.project.root = .ofLocation root ∧ turn.project.table = table
  /-- Without sources nothing changes. -/
  idle : turns = [] → ∀ place, after.get? place = before.get? place
  /-- The artifact of a source that is not withheld holds what compiling the source gave. -/
  written : ∀ turn ∈ turns, turn.draft.withheld = false →
    after.get? (artifactPlace root turn.source) = some (.file turn.draft.output.utf8)
  /-- The artifact of a source that is withheld is as it was. -/
  withheld : ∀ turn ∈ turns, turn.draft.withheld = true →
    after.get? (artifactPlace root turn.source) = before.get? (artifactPlace root turn.source)
  apart : (turns.map fun turn => artifactPlace root turn.source).Nodup
  /-- There is no other file with the name of an artifact. -/
  expected : turns ≠ [] → ∀ name content, isArtifact name.text = true →
    after.get? (name :: promptsPlace root) = some (.file content) → ∃ turn ∈ turns, name = entryName turn.source
  loaded : before.Loads (tablePlace root) table
  /-- Without new stubs the table is untouched. -/
  tableKept : pendingStubs table turns = [] → after.get? (tablePlace root) = before.get? (tablePlace root)
  /-- With new stubs the table loads as the old one followed by the stubs. -/
  tableExtended : pendingStubs table turns ≠ [] → ∃ content extended,
    after.get? (tablePlace root) = some (.file content) ∧ ToolTable.ofBytes content = .ok extended ∧
      extended.entries = table.entries ++ pendingStubs table turns
  /-- Every other place is as it was. -/
  kept : ∀ place, after.get? place = before.get? place ∨ Touches root table before after turns place

theorem apart_of_sources {tree : FileTree} {turns : List Turn} (sources : turns.map Turn.source = sourceNames root tree) :
    Follows.Apart turns := by
  refine ⟨sources ▸ (listed_sourceNames root tree).nodup, fun turn member => ?_⟩
  exact (mem_sourceNames_iff.mp (sources ▸ List.mem_map_of_mem member)).2

private theorem artifactPlaces_nodup {turns : List Turn} (apart : Follows.Apart turns) :
    (turns.map fun turn => artifactPlace root turn.source).Nodup := by
  induction turns with
  | nil => exact List.nodup_nil
  | cons turn rest ih =>
    rw [List.map_cons, List.nodup_cons, List.mem_map]
    refine ⟨?_, ih apart.tail⟩
    rintro ⟨other, member, same⟩
    exact apart.not_owns (.inl rfl) member (.inl same.symm)

theorem Phases.effect {before after made last cleared : FileTree} {turns : List Turn} {tally : Tally}
    (phases : Phases root table before after turns tally made last cleared) (loaded : before.Loads (tablePlace root) table)
    (sources : turns.map Turn.source = sourceNames root before) (notEmpty : turns ≠ []) :
    Effect root before after table turns where
  sources := sources
  compiled := by
    intro turn member
    have starts := phases.follows.starts_of_mem member
    refine ⟨starts.path, ?_, by rw [starts.project], by rw [starts.project]⟩
    rw [← phases.made_eq (inCommands_not_above_prompts root turn.source)]
    exact phases.follows.read_first member
  idle := fun empty => absurd empty notEmpty
  written := by
    intro turn member written
    rw [phases.artifact_eq (apart_of_sources sources) member, written, if_neg (by simp)]
  withheld := by
    intro turn member withheld
    rw [phases.artifact_eq (apart_of_sources sources) member, withheld, if_pos rfl]
  apart := artifactPlaces_nodup (apart_of_sources sources)
  expected := by
    intro _ name content named there
    rcases phases.inPrompts_eq name with ⟨-, gone⟩ | ⟨kept, final⟩
    · rw [gone] at there
      cases there
    · rw [mem_orphans_iff] at kept
      refine (phases.mem_artifacts_iff name).mp (Decidable.byContradiction fun unexpected => kept ?_)
      exact ⟨⟨content, final ▸ there⟩, named, unexpected⟩
  loaded := loaded
  tableKept := by
    intro noStubs
    exact (phases.table_eq.resolve_right fun extended => extended.1 noStubs).2
  tableExtended := by
    intro new
    obtain ⟨-, content, extended, there, known, -, entries⟩ :=
      phases.table_eq.resolve_left fun kept => new kept.1
    exact ⟨content, extended, there, known, entries⟩
  kept := phases.touches (apart_of_sources sources)

/-- A run that compiles a project and ends with a result has exactly the effect that its turns have. -/
theorem compile_effect {root : Location} {before after : World} (plain : before.tree.Plain) {tally : Tally}
    {count : Nat} (given : (ofPlace root).compile.Gives before (tally, count) after) :
    ∃ table, Effect root before.tree after.tree table ((ofPlace root).turnsIn before) := by
  obtain ⟨table, loaded, sources, -, ⟨empty, -, same⟩ | ⟨notEmpty, made, last, cleared, phases⟩⟩ :=
    compile_phases plain given
  · refine ⟨table, ?_⟩
    rw [empty] at sources ⊢
    rw [same]
    refine ⟨sources, by simp, fun _ _ => rfl, by simp, by simp, by simp, by simp, loaded, fun _ => rfl, ?_,
      fun _ => .inl rfl⟩
    exact fun new => absurd rfl new
  · exact ⟨table, phases.effect loaded sources notEmpty⟩

def sampleName : Name := ⟨"a.md".toList, by decide⟩

/-- A project with one source that declares an unknown tool, without artifacts and without a table. -/
def sampleTree : FileTree where
  entries :=
    [((commandsPlace []).tail, .directory),
     (commandsPlace [], .directory),
     (sampleName :: commandsPlace [],
      .file (Text.utf8 "---\nallowed-tools: [Zap]\n---\nSee @commands/gsd/a.md\n".toList))]

def sampleWorld : World := ⟨sampleTree, [], []⟩

theorem compile_effect_sample : sampleWorld.tree.Plain ∧ ∃ tally count after,
    (ofPlace []).compile.Gives sampleWorld (tally, count) after ∧ tally.stubs.keys = ["zap".toList] ∧ count = 1 ∧
      ∃ table, Effect [] sampleWorld.tree after.tree table ((ofPlace []).turnsIn sampleWorld) := by
  have plain : sampleWorld.tree.Plain := Plain.of_isPlain (by decide)
  have ended : (match ((ofPlace []).compile.outcome sampleWorld).1 with
      | .ok (tally, count) => tally.stubs.keys == ["zap".toList] && count == 1
      | .error _ => false) = true := by decide +kernel
  rcases outcome : (ofPlace []).compile.outcome sampleWorld with ⟨⟨fault⟩ | ⟨tally, count⟩, after⟩
  · rw [outcome] at ended
    cases ended
  · rw [outcome] at ended
    simp only [Bool.and_eq_true, beq_iff_eq] at ended
    exact ⟨plain, tally, count, after, outcome, ended.1, ended.2, compile_effect plain outcome⟩

end Layout

end PromptCompiler
