import PromptCompiler.Proofs.FreshCompile

/-! # Compiling once more

A run that returns 0 need not be repeatable: the artifacts that it writes may be what the references of a
source lead to, and then a second run rewrites these references. The second run returns 0 and changes
nothing exactly if every source compiles to the same artifact against the tree that the first run left. It
is enough that no path that the rewriting of references asked about came or went during the first run.
-/

namespace PromptCompiler

open FileTree Artifact Layout CommandLine

/-- Whether trees hold the same everywhere. -/
def FileTree.Same (tree other : FileTree) : Prop := ∀ place, tree.get? place = other.get? place

/-- Whether a source that has been compiled in a run compiles to the same artifact against a tree. -/
def Turn.Settled (tree : FileTree) (turn : Turn) : Prop :=
  (({ turn.project with tree := tree } : Project).compile turn.path turn.text turn.tally).output = turn.draft.output

def Turn.input (turn : Turn) : Name × Text := (turn.source, turn.text)

private theorem Turn.exists_alike {first second : List Turn} (inputs : first.map input = second.map input) {turn : Turn}
    (member : turn ∈ first) : ∃ other ∈ second, other.source = turn.source ∧ other.text = turn.text := by
  have listed : turn.input ∈ second.map input := inputs ▸ List.mem_map_of_mem member
  obtain ⟨other, member', same⟩ := List.mem_map.mp listed
  obtain ⟨source, text⟩ := Prod.mk.inj same
  exact ⟨other, member', source, text⟩

variable {root : Location} {table stubs : ToolTable}

/-- Trees that hold the same everywhere answer the questions about references alike. -/
theorem FileTree.Same.output_eq {tree other : FileTree} (same : tree.Same other) (plain : tree.Plain)
    (plain' : other.Plain) (new : ToolTable.AreStubs table stubs) {name : Name} {directory : Location} {text : Text}
    {tally tally' : Tally} :
    ((⟨tree, .ofLocation root, table.withStubs stubs⟩ : Project).compile (.ofLocation (name :: directory)) text
      tally).output =
      ((⟨other, .ofLocation root, table⟩ : Project).compile (.ofLocation (name :: directory)) text tally').output := by
  obtain ⟨tools, omitted⟩ := new.mapTools_withStubs (Path.ofLocation (name :: directory)).name (Draft.toolNames text)
  refine Project.compile_output_congr tools omitted (congrArg Prod.fst (References.rewrite_congr fun path asked => ?_))
  obtain ⟨anchor, place, rfl⟩ := References.spells_of_mem_asked asked
  rw [plain.present_eq, plain'.present_eq, same place]

namespace Layout.Phases

variable {before after made last cleared : FileTree} {turns : List Turn} {tally : Tally}

/-- With its stubs in the table every tool of a run is known. -/
theorem known_withStubs (phases : Phases root table before after turns tally made last cleared) {turn : Turn}
    (member : turn ∈ turns) {name : Text} (declared : name ∈ Draft.toolNames turn.text) :
    (table.withStubs tally.stubs).fate name ≠ .unknown := by
  rw [phases.follows.sums_eq.1]
  exact ToolTable.fate_withStubs_ne_unknown (List.mem_flatMap_of_mem member declared)

/-- In a tree that holds the same as the one in the end an artifact can be written again. -/
theorem replaceable_again (phases : Phases root table before after turns tally made last cleared)
    (effect : Effect root before after table turns) {turn : Turn} (member : turn ∈ turns)
    (written : turn.draft.withheld = false) {tree : FileTree} (same : tree.Same after) :
    tree.Replaceable (promptsPlace root) (draftName turn.source) (entryName turn.source) := by
  have ready := (phases.follows.starts_of_mem member).ready written
  have directory : tree.get? (promptsPlace root) = some .directory :=
    (same _).trans (phases.directory_after List.suffix_rfl phases.makes.directory)
  have free := (same _).trans (phases.draft_free (apart_of_sources effect.sources) member written)
  have there := (same _).trans (effect.written turn member written)
  constructor
  · exact (reaches_cons_iff _ _).mpr ⟨ready.reachesBeside.allowed, directory⟩
  · exact fun here => by cases free.symm.trans here
  · exact (reaches_cons_iff _ _).mpr ⟨ready.reachesPlace.allowed, directory⟩
  · exact fun here => by cases there.symm.trans here

/-- Settled turns are taken again without a change, from any tree that holds the same as the one in the end. -/
theorem follows_again (phases : Phases root table before after turns tally made last cleared)
    (effect : Effect root before after table turns) (complete : ∀ turn ∈ turns, turn.draft.withheld = false)
    (settled : ∀ turn ∈ turns, turn.Settled after) {part : List Turn} (sub : ∀ turn ∈ part, turn ∈ turns)
    {tree : FileTree} (plain : tree.Plain) (same : tree.Same after) (sums : Tally) :
    ∃ (again : List Turn) (tree' : FileTree) (sums' : Tally),
      Follows root (table.withStubs tally.stubs) tree sums again tree' sums' ∧ tree'.Same after ∧
        again.map Turn.input = part.map Turn.input ∧ ∀ turn ∈ again, turn.draft.withheld = false := by
  induction part generalizing tree sums with
  | nil => exact ⟨[], tree, sums, .nil, same, rfl, by simp⟩
  | cons turn rest ih =>
    have member := sub turn List.mem_cons_self
    have starts := phases.follows.starts_of_mem member
    let new : Turn := ⟨turn.source, ⟨tree, .ofLocation root, table.withStubs tally.stubs⟩,
      .ofLocation (turn.source :: commandsPlace root), turn.text, sums⟩
    have output : new.draft.output = turn.draft.output := by
      rw [← settled turn member, starts.project, starts.path]
      exact same.output_eq plain phases.plain_after phases.areStubs
    have withheld : new.draft.withheld = false := by
      rw [← complete turn member, Turn.draft, Turn.draft, Project.compile_withheld, Project.compile_withheld]
      exact congrArg (fun output => (Fence.scan output).openLine.isSome) output
    have written := effect.written turn member (complete turn member)
    have startsAgain : new.Starts root (table.withStubs tally.stubs) tree sums := by
      refine ⟨rfl, rfl, rfl, ?_, fun _ => ?_⟩
      · exact (same _).trans ((phases.source_eq _).trans (effect.compiled turn member).2.1)
      · exact phases.replaceable_again effect member (complete turn member) same
    have kept : (new.after root).Same after := by
      intro place
      rw [startsAgain.get?_after, withheld, if_neg (by simp), output]
      split
      · rename_i here
        rw [here, written]
      split
      · rename_i here
        rw [here, phases.draft_free (apart_of_sources effect.sources) member (complete turn member)]
      · exact same place
    obtain ⟨again, tree', sums', follows, same', inputs, complete'⟩ :=
      ih (fun other later => sub other (List.mem_cons_of_mem turn later)) (startsAgain.plain_after plain) kept new.next
    refine ⟨new :: again, tree', sums', .cons startsAgain follows, same', ?_, ?_⟩
    · rw [List.map_cons, List.map_cons, inputs]
      rfl
    · rintro other listed
      rcases List.mem_cons.mp listed with rfl | later
      · exact withheld
      · exact complete' other later

section Again

variable {again : List Turn} {start finish : FileTree} {sums : Tally}

/-- The turns that are taken again expect every artifact of the first run. -/
theorem orphans_again (effect : Effect root before after table turns) (turned : turns ≠ [])
    (follows : Follows root (table.withStubs tally.stubs) start .empty again finish sums)
    (inputs : again.map Turn.input = turns.map Turn.input) (kept : finish.Same after) :
    orphans finish (promptsPlace root) sums.artifacts = [] := by
  apply List.eq_nil_iff_forall_not_mem.mpr
  intro name orphan
  obtain ⟨⟨content, there⟩, named, unexpected⟩ := mem_orphans_iff.mp orphan
  rw [kept] at there
  obtain ⟨turn, member, rfl⟩ := effect.expected turned name content named there
  obtain ⟨new, member', source, -⟩ := Turn.exists_alike inputs.symm member
  have listed : nameFor new.source.text ∈ again.map (fun turn => nameFor turn.source.text) :=
    List.mem_map_of_mem member'
  apply unexpected
  rw [follows.sums_eq.2.1, ← source]
  exact List.mem_append_right _ listed

/-- They find every tool in the table. -/
theorem stubs_again (phases : Phases root table before after turns tally made last cleared)
    (follows : Follows root (table.withStubs tally.stubs) start .empty again finish sums)
    (inputs : again.map Turn.input = turns.map Turn.input) : sums.stubs = .empty := by
  rw [follows.sums_eq.1]
  apply ToolTable.stubAll_of_known
  intro name declared
  obtain ⟨new, member', declared⟩ := List.mem_flatMap.mp declared
  obtain ⟨turn, member, -, text⟩ := Turn.exists_alike inputs member'
  exact phases.known_withStubs member (text ▸ declared)

/-- They omit as many tools as the first run. -/
theorem omittedCount_again (phases : Phases root table before after turns tally made last cleared)
    (follows : Follows root (table.withStubs tally.stubs) start .empty again finish sums)
    (inputs : again.map Turn.input = turns.map Turn.input) : sums.omittedCount = tally.omittedCount := by
  let omitted (input : Name × Text) := (table.mapTools input.1.text (Draft.toolNames input.2)).omitted
  have notices : (again.flatMap fun turn => ((table.withStubs tally.stubs).mapTools turn.source.text
      (Draft.toolNames turn.text)).omitted) = (turns.map Turn.input).flatMap omitted := by
    rw [← inputs, List.flatMap_map]
    refine congrArg again.flatMap (funext fun turn => ?_)
    rw [(phases.areStubs.mapTools_withStubs _ _).2]
    rfl
  rw [follows.sums_eq.2.2.2, phases.follows.sums_eq.2.2.2, notices, List.flatMap_map]
  rfl

end Again

/-- A run whose turns are settled is repeated without a change. -/
theorem compile_again (phases : Phases root table before after turns tally made last cleared)
    (effect : Effect root before after table turns) (turned : turns ≠ [])
    (complete : ∀ turn ∈ turns, turn.draft.withheld = false) (settled : ∀ turn ∈ turns, turn.Settled after)
    {world : World} (tree : world.tree = after) :
    ∃ sums ending, (ofPlace root).compile.Gives world (sums, turns.length) ending ∧ ending.tree.Same after ∧
      sums.withheldCount = 0 ∧ sums.omittedCount = tally.omittedCount := by
  subst tree
  have plain := phases.plain_after
  obtain ⟨turn, member⟩ := List.exists_mem_of_ne_nil turns turned
  have commands : world.tree.get? (commandsPlace root) = some .directory := by
    apply plain.within turn.source
    rw [phases.source_eq, (effect.compiled turn member).2.1]
    simp
  have prompts := phases.directory_after List.suffix_rfl phases.makes.directory
  obtain ⟨loaded, loading, same⟩ := ToolTable.gives_load plain (tablePlace_allowed plain commands)
    (phases.loads_after effect.loaded)
  obtain ⟨again, last', sums, follows, kept, inputs, complete'⟩ := phases.follows_again effect complete settled
    (fun _ member => member) (same ▸ plain) (fun place => congrArg (FileTree.get? · place) same) .empty
  have counted : sourceNames root loaded.tree = turns.map Turn.source := by
    rw [same, phases.sourceNames_eq, effect.sources]
  have sources : again.map Turn.source = sourceNames root loaded.tree := by
    have firsts := congrArg (List.map Prod.fst) inputs
    rw [List.map_map, List.map_map] at firsts
    rw [counted]
    exact firsts
  have length : turns.length = (sourceNames root loaded.tree).length := by
    rw [counted, List.length_map]
  have notEmpty : sourceNames root loaded.tree ≠ [] := by
    rw [counted]
    simpa using turned
  obtain ⟨ending, folded, ended⟩ := follows.gives (same ▸ plain)
  have spare := orphans_again effect turned follows inputs kept
  have noStubs := phases.stubs_again follows inputs
  have kept : ending.tree.Same world.tree := ended ▸ kept
  refine ⟨sums, ending, ?_, kept, ?_, phases.omittedCount_again follows inputs⟩
  · rw [length]
    exact gives_compile (ofPlace_table root ▸ loading) (same ▸ plain) (same ▸ commands) (same ▸ prompts) notEmpty
      (sources ▸ folded) (ended ▸ follows.plain_last (same ▸ plain)) ((kept _).trans prompts) (ended ▸ spare)
      (by rw [noStubs]; rfl)
  · rw [follows.sums_eq.2.2.1, List.countP_eq_zero.mpr fun turn member => by simp [complete' turn member]]
    rfl

end Layout.Phases

namespace Layout.Phases

variable {before after made last cleared : FileTree} {turns : List Turn} {tally : Tally}

/-- The turns of a run are settled if a second run changes nothing. -/
theorem settled_of_same (phases : Phases root table before after turns tally made last cleared)
    (effect : Effect root before after table turns) (complete : ∀ turn ∈ turns, turn.draft.withheld = false)
    {table' : ToolTable} {after' made' last' cleared' : FileTree} {turns' : List Turn} {tally' : Tally}
    (phases' : Phases root table' after after' turns' tally' made' last' cleared')
    (effect' : Effect root after after' table' turns') (complete' : ∀ turn ∈ turns', turn.draft.withheld = false)
    (same : after'.Same after) : ∀ turn ∈ turns, turn.Settled after := by
  intro turn member
  have sources : turns'.map Turn.source = turns.map Turn.source := by
    rw [effect'.sources, phases.sourceNames_eq, effect.sources]
  obtain ⟨turn', member', named⟩ := List.mem_map.mp (sources ▸ List.mem_map_of_mem member :
    turn.source ∈ turns'.map Turn.source)
  have starts := phases.follows.starts_of_mem member
  have starts' := phases'.follows.starts_of_mem member'
  obtain rfl := effect'.loaded.unique (phases.loads_after effect.loaded)
  have texts : turn'.text = turn.text := by
    have read := (effect'.compiled turn' member').2.1
    rw [phases.source_eq, named, (effect.compiled turn member).2.1] at read
    exact (Text.utf8_inj (Entry.file.inj (Option.some.inj read))).symm
  have outputs : turn'.draft.output = turn.draft.output := by
    have written := effect'.written turn' member' (complete' turn' member')
    rw [same, named, effect.written turn member (complete turn member)] at written
    exact (Text.utf8_inj (Entry.file.inj (Option.some.inj written))).symm
  -- The second run leaves the tree as it is, so each of its turns finds it as the first run left it.
  have view : turn'.project.tree.Same after := by
    intro place
    rcases phases'.turn_between (apart_of_sources effect'.sources) member' place with found | found
    · exact found
    · rw [found, same]
  have plain' := phases'.follows.plain_of_mem phases'.makes.plain member'
  rw [Turn.Settled, ← outputs, Turn.draft, starts.project, starts.path, starts'.project, starts'.path, named, texts]
  exact (view.output_eq plain' phases.plain_after phases.areStubs).symm

end Layout.Phases

namespace CommandLine

variable {current : Location} {arguments : List Text} {settings : Settings} {before after : World}

/-- A call of the compiler that returns 0 and settles its sources is repeated without a change. -/
theorem recompile_of_settled (calls : Calls current arguments settings root) (plain : before.tree.Plain)
    (zero : (compile current arguments).run before = (0, after))
    (settled : ∀ turn ∈ (ofPlace root).turnsIn before, turn.Settled after.tree) :
    ∃ again, (compile current arguments).run after = (0, again) ∧
      ∀ place, again.tree.get? place = after.tree.get? place := by
  obtain ⟨noNul, -, -⟩ := gives_of_compile_zero calls plain zero
  obtain ⟨table, tally, made, last, cleared, phases, effect, turned, complete, code⟩ :=
    phases_of_compile_zero calls plain zero
  obtain ⟨sums, ending, compiled, same, withheld, omitted⟩ :=
    phases.compile_again effect turned complete settled rfl
  have directory : after.tree.get? root = some .directory := by
    have prompts := phases.directory_after List.suffix_rfl phases.makes.directory
    have above : root <:+ promptsPlace root := ⟨[_, _], rfl⟩
    have apart : root ≠ promptsPlace root := by
      intro same
      have lengths := congrArg List.length same
      simp only [promptsPlace, List.length_cons] at lengths
      omega
    exact phases.plain_after.directory_above above apart (by rw [prompts]; simp)
  have code' : reportCode (settings.get? strictOption).isSome sums ((ofPlace root).turnsIn before).length = 0 := by
    rw [reportCode_eq_zero_iff] at code ⊢
    rw [withheld, omitted]
    exact ⟨code.1, rfl, code.2.2⟩
  obtain ⟨again, zero', same'⟩ := compile_zero_of_gives calls phases.plain_after noNul directory compiled code'
  exact ⟨again, zero', fun place => by rw [same', same place]⟩

/-- After a call of the compiler that returns 0, the same call returns 0 again and changes nothing exactly if
each source compiles to the same artifact against the tree that the first call left. -/
theorem recompile_iff_settled (calls : Calls current arguments settings root) (plain : before.tree.Plain)
    (zero : (compile current arguments).run before = (0, after)) :
    (∃ again, (compile current arguments).run after = (0, again) ∧
      ∀ place, again.tree.get? place = after.tree.get? place) ↔
      ∀ turn ∈ (ofPlace root).turnsIn before, turn.Settled after.tree := by
  constructor
  · rintro ⟨again, zero', same⟩
    obtain ⟨table, tally, made, last, cleared, phases, effect, -, complete, -⟩ :=
      phases_of_compile_zero calls plain zero
    obtain ⟨table', tally', made', last', cleared', phases', effect', -, complete', -⟩ :=
      phases_of_compile_zero calls phases.plain_after zero'
    exact phases.settled_of_same effect complete phases' effect' complete' same
  · exact recompile_of_settled calls plain zero

theorem recompile_iff_settled_sample : sampleWorld.tree.Plain ∧ ∃ after,
    (compile [] []).run sampleWorld = (0, after) ∧
      ((∃ again, (compile [] []).run after = (0, again) ∧
        ∀ place, again.tree.get? place = after.tree.get? place) ↔
        ∀ turn ∈ (ofPlace []).turnsIn sampleWorld, turn.Settled after.tree) := by
  have plain : sampleWorld.tree.Plain := Plain.of_isPlain (by decide)
  have ended := run_of_code sampleWorld_compiled.1
  exact ⟨plain, _, ended, recompile_iff_settled calls_sample plain ended⟩

/-- A project whose one source refers to its own artifact. -/
def selfReference : FileTree where
  entries :=
    [((commandsPlace []).tail, .directory),
     (commandsPlace [], .directory),
     (sampleName :: commandsPlace [],
      .file (Text.utf8 "../../.github/prompts/gsd.a.prompt.md".toList))]

/-- The first call writes the artifact that the source refers to, and so the second call rewrites the reference. -/
theorem recompile_selfReference : ∃ (world after again : World) (place : Location),
    Calls [] [] [] [] ∧ world.tree.Plain ∧ (compile [] []).run world = (0, after) ∧
      (compile [] []).run after = (0, again) ∧ again.tree.get? place ≠ after.tree.get? place := by
  have plain : selfReference.Plain := Plain.of_isPlain (by decide)
  have runs : ((compile [] []).run ⟨selfReference, [], []⟩).1 = 0 ∧
      ((compile [] []).run ((compile [] []).run ⟨selfReference, [], []⟩).2).1 = 0 ∧
      ((compile [] []).run ((compile [] []).run ⟨selfReference, [], []⟩).2).2.tree.get?
          (artifactPlace [] sampleName) ≠
        ((compile [] []).run ⟨selfReference, [], []⟩).2.tree.get? (artifactPlace [] sampleName) := by
    decide +kernel
  rcases first : (compile [] []).run ⟨selfReference, [], []⟩ with ⟨code, after⟩
  rw [first] at runs
  rcases second : (compile [] []).run after with ⟨code', again⟩
  rw [second] at runs
  obtain ⟨rfl, rfl, changed⟩ := runs
  exact ⟨⟨selfReference, [], []⟩, after, again, _, calls_sample, plain, first, second, changed⟩

/-- It is enough for this that no path that the rewriting of references asked about came or went during the
first call. -/
theorem recompile_same (calls : Calls current arguments settings root) (plain : before.tree.Plain)
    (zero : (compile current arguments).run before = (0, after))
    (unchanged : ∀ turn ∈ (ofPlace root).turnsIn before, ∀ path ∈ turn.asked,
      before.tree.present path = after.tree.present path) :
    ∃ again, (compile current arguments).run after = (0, again) ∧
      ∀ place, again.tree.get? place = after.tree.get? place := by
  refine recompile_of_settled calls plain zero fun turn member => ?_
  obtain ⟨table, tally, made, last, cleared, phases, effect, -⟩ := phases_of_compile_zero calls plain zero
  have starts := phases.follows.starts_of_mem member
  have agree := phases.agree_of_unchanged plain (apart_of_sources effect.sources) member (unchanged turn member)
  rw [Turn.asked, starts.project] at agree
  rw [Turn.Settled, Turn.draft, starts.project]
  exact Project.compile_output_congr rfl rfl (congrArg Prod.fst (References.rewrite_congr agree).symm)

end CommandLine

end PromptCompiler
