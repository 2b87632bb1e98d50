import PromptCompiler.Proofs.AskedPaths
import PromptCompiler.Proofs.AuditedArtifacts
import PromptCompiler.Proofs.Findings
import PromptCompiler.Proofs.SingleProjects
import PromptCompiler.Run.Verify

/-! # Reviewing what was just compiled

After a run that returns 0 every source has its artifact, and the artifact is what compiling the source
gives then, although the table has the new stubs and the tree has the new artifacts: stubs change nothing
in the mapping of tools, and references are rewritten alike if the paths that they ask about lead to
something after the run exactly if they did before it. So the review that follows finds none missing and
none stale, unless the reader of JSON stops at a list in a header that is taken for that of the comment.
-/

namespace PromptCompiler

open FileTree Artifact

/-- The paths that a turn asks about. -/
def Turn.asked (turn : Turn) : List Path :=
  References.asked ⟨turn.project.tree, turn.project.root, turn.path⟩ (Draft.referringBody turn.text)

namespace Layout

variable {root : Location}

/-! ## Reading texts -/

/-- Files that hold texts are read one after another. -/
theorem gives_readEach {before : World} (plain : before.tree.Plain) {place : Location} {names : List Name}
    (readable : ∀ name ∈ names, ∃ text, before.tree.get? (name :: place) = some (.file (Text.utf8 text))) :
    ∃ entries : List (Text × Text),
      (names.mapM fun name => return (name.text, ← Run.readText ((Path.ofLocation place).child name)) :
        Run (List (Text × Text))).Gives before entries before ∧ entries.map Prod.fst = names.map Name.text ∧
      ∀ name ∈ names, ∀ text, before.tree.get? (name :: place) = some (.file (Text.utf8 text)) →
        (name.text, text) ∈ entries := by
  induction names with
  | nil => exact ⟨[], Run.gives_pure.mpr ⟨rfl, rfl⟩, rfl, by simp⟩
  | cons name rest ih =>
    obtain ⟨text, there⟩ := readable name List.mem_cons_self
    obtain ⟨entries, given, keys, texts⟩ := ih fun other member => readable other (List.mem_cons_of_mem name member)
    refine ⟨(name.text, text) :: entries, ?_, by rw [List.map_cons, List.map_cons, keys], ?_⟩
    · simp only [List.mapM_cons, Run.gives_bind, Run.gives_readText, Run.gives_pure, Path.child_ofLocation,
        plain.read_eq_ok_iff] at given ⊢
      exact ⟨_, _, ⟨text, _, ⟨there, rfl⟩, rfl, rfl⟩, entries, before, given, rfl, rfl⟩
    · intro other member text' there'
      rcases List.mem_cons.mp member with rfl | later
      · rw [there, Option.some.injEq, Entry.file.injEq] at there'
        rw [Text.utf8_inj there']
        exact List.mem_cons_self
      · exact List.mem_cons_of_mem _ (texts other later text' there')

/-- Files that hold texts are read, each under its name. -/
theorem gives_readTexts {before : World} (plain : before.tree.Plain) {place : Location} {names : List Name}
    (distinct : names.Nodup)
    (readable : ∀ name ∈ names, ∃ text, before.tree.get? (name :: place) = some (.file (Text.utf8 text))) :
    ∃ texts, (readTexts (.ofLocation place) names).Gives before texts before ∧
      texts.keys = names.map Name.text ∧
      ∀ name ∈ names, ∀ text, before.tree.get? (name :: place) = some (.file (Text.utf8 text)) →
        texts.get? name.text = some text := by
  obtain ⟨entries, given, keys, texts⟩ := gives_readEach plain readable
  have apart : (entries.map Prod.fst).Nodup := by
    rw [keys]
    exact List.pairwise_map.mpr (distinct.imp fun apart same => apart (Name.ext same))
  refine ⟨.ofList entries, ?_, ?_, ?_⟩
  · exact Run.gives_bind.mpr ⟨entries, before, given, Run.gives_pure.mpr ⟨rfl, rfl⟩⟩
  · rw [OrderedMap.keys, OrderedMap.ofList_entries apart, keys]
  · intro name member text there
    apply OrderedMap.get?_of_mem
    rw [OrderedMap.ofList_entries apart]
    exact texts name member text there

/-- What a review of the project at a place in a tree looks at. -/
structure Looks (root : Location) (tree : FileTree) (table : ToolTable) (review : Review) : Prop where
  /-- The sources would be compiled against the tree and the table. -/
  project : review.project = ⟨tree, .ofLocation root, table⟩
  commands : review.commands = .ofLocation (commandsPlace root)
  keys : review.sources.keys = (sourceNames root tree).map Name.text
  sources : ∀ name ∈ sourceNames root tree, ∀ text, tree.get? (name :: commandsPlace root) = some (.file (Text.utf8 text)) →
    review.sources.get? name.text = some text
  artifacts : ∀ name text, isArtifact name.text = true →
    tree.get? (name :: promptsPlace root) = some (.file (Text.utf8 text)) → review.artifacts.get? name.text = some text

/-- The system takes the names that lead to the table of a project. -/
theorem tablePlace_allowed {tree : FileTree} (plain : tree.Plain)
    (commands : tree.get? (commandsPlace root) = some .directory) : ∀ name ∈ tablePlace root, Allowed name := by
  have above := plain.allowed_of_present (by rw [commands]; simp)
  rintro name member
  rcases List.mem_cons.mp member with rfl | member
  · decide
  rcases List.mem_cons.mp member with rfl | member
  · decide
  · exact above name (List.mem_cons_of_mem _ (List.mem_cons_of_mem _ member))

/-- A project in which all sources and artifacts are texts can be reviewed. -/
theorem gives_review {table : ToolTable} {before : World} (plain : before.tree.Plain)
    (loads : before.tree.Loads (tablePlace root) table)
    (commands : before.tree.get? (commandsPlace root) = some .directory)
    (prompts : before.tree.get? (promptsPlace root) = some .directory)
    (texts : ∀ name ∈ sourceNames root before.tree, ∃ text,
      before.tree.get? (name :: commandsPlace root) = some (.file (Text.utf8 text)))
    (outputs : ∀ name content, isArtifact name.text = true →
      before.tree.get? (name :: promptsPlace root) = some (.file content) → ∃ text, content = Text.utf8 text)
    (minimum : Int) :
    ∃ review after, ((ofPlace root).review minimum).Gives before review after ∧ after.tree = before.tree ∧
      Looks root before.tree table review := by
  obtain ⟨loaded, loading, same⟩ := ToolTable.gives_load plain (tablePlace_allowed plain commands) loads
  rw [← same] at plain commands prompts texts outputs ⊢
  obtain ⟨sources, reading, keys, sourceTexts⟩ := gives_readTexts plain (listed_sourceNames root loaded.tree).nodup texts
  let names := (loaded.tree.fileNames (promptsPlace root)).filter fun name => isArtifact name.text
  have listing : loaded.tree.artifacts (ofPlace root).prompts = .ok names := by
    rw [FileTree.artifacts, ofPlace_prompts, plain.files_eq prompts]
    rfl
  have readable : ∀ name ∈ names, ∃ text, loaded.tree.get? (name :: promptsPlace root) = some (.file (Text.utf8 text)) := by
    intro name member
    obtain ⟨file, named⟩ := List.mem_filter.mp member
    obtain ⟨content, there⟩ := (mem_fileNames_iff _ _).mp file
    obtain ⟨text, rfl⟩ := outputs name content named there
    exact ⟨text, there⟩
  obtain ⟨artifacts, reading', -, artifactTexts⟩ := gives_readTexts plain
    ((loaded.tree.listed_fileNames (promptsPlace root)).filter fun name => isArtifact name.text).nodup readable
  refine ⟨⟨⟨loaded.tree, (ofPlace root).root, table⟩, (ofPlace root).commands, sources, artifacts, minimum⟩, loaded,
    ?_, rfl, rfl, ofPlace_commands root, keys, sourceTexts, fun name text named there => ?_⟩
  · rw [← ofPlace_table] at loading
    rw [← ofPlace_commands] at reading
    rw [← ofPlace_prompts] at reading'
    refine Run.gives_bind.mpr ⟨table, loaded, loading, ?_⟩
    refine Run.gives_bind.mpr ⟨_, loaded, Run.gives_ask.mpr ⟨sources_eq plain commands, rfl⟩, ?_⟩
    refine Run.gives_bind.mpr ⟨sources, loaded, reading, ?_⟩
    refine Run.gives_bind.mpr ⟨names, loaded, Run.gives_ask.mpr ⟨listing, rfl⟩, ?_⟩
    refine Run.gives_bind.mpr ⟨artifacts, loaded, reading', ?_⟩
    refine Run.gives_bind.mpr ⟨loaded.tree, loaded, Run.gives_currentTree.mpr ⟨rfl, rfl⟩, ?_⟩
    exact Run.gives_pure.mpr ⟨rfl, rfl⟩
  · exact artifactTexts name (List.mem_filter.mpr ⟨(mem_fileNames_iff _ _).mpr ⟨_, there⟩, named⟩) text there

/-! ## Compiling again -/

/-- A turn whose questions have the same answers in another tree compiles to the same artifact there, also
when stubs are in the table. -/
theorem output_eq_of_agree {table stubs : ToolTable} {tree other : FileTree} {tally tally' : Tally} {turn : Turn}
    (starts : turn.Starts root table tree tally) (new : ToolTable.AreStubs table stubs)
    (agree : ∀ path ∈ turn.asked, tree.present path = other.present path) :
    ((⟨other, .ofLocation root, table.withStubs stubs⟩ : Project).compile turn.path turn.text tally').output =
      turn.draft.output := by
  rw [Turn.asked, starts.project] at agree
  obtain ⟨tools, omitted⟩ := new.mapTools_withStubs turn.path.name (Draft.toolNames turn.text)
  rw [Turn.draft, starts.project]
  exact Project.compile_output_congr tools omitted (congrArg Prod.fst (References.rewrite_congr agree).symm)

namespace Phases

variable {table : ToolTable} {before after made last cleared : FileTree} {turns : List Turn} {tally : Tally}

/-- The questions of a turn have the answers of the end of the run, if the run did not change them. -/
theorem agree_of_unchanged (phases : Phases root table before after turns tally made last cleared)
    (plain : before.Plain) (apart : Follows.Apart turns) {turn : Turn} (member : turn ∈ turns)
    (unchanged : ∀ path ∈ turn.asked, before.present path = after.present path) :
    ∀ path ∈ turn.asked, turn.project.tree.present path = after.present path := by
  intro path asked
  have starts := phases.follows.starts_of_mem member
  have same := unchanged path asked
  rw [Turn.asked, starts.project, starts.path] at asked
  obtain ⟨anchor, place, rfl⟩ := References.spells_of_mem_asked asked
  rw [plain.present_eq, phases.plain_after.present_eq] at same
  rw [(phases.follows.plain_of_mem phases.makes.plain member).present_eq, phases.plain_after.present_eq]
  rcases phases.turn_between apart member place with between | between
  · rw [between, same]
  · rw [between]

end Phases

end Layout

/-- An audit of what a turn has compiled stops only at a list in the header. -/
theorem Turn.declaredTools?_output_eq_error_iff {turn : Turn} {stop : Json.Stop} :
    declaredTools? turn.draft.output = .error stop ↔ turn.draft.parts.StopsAt stop := by
  have written : turn.draft.output = turn.draft.lineEnding.restore turn.draft.parts.render := Project.compile_output ..
  rw [written, declaredTools?_restore, Parts.declaredTools?_render_eq_error_iff]

namespace Layout

variable {root : Location} {tree : FileTree} {table : ToolTable} {review : Review} {turns : List Turn}

/-! ## What a review finds about compiled artifacts -/

/-- Whether a tree holds what some turns have compiled, and no other sources. -/
structure HoldsCompiled (root : Location) (tree : FileTree) (turns : List Turn) : Prop where
  sources : turns.map Turn.source = sourceNames root tree
  texts : ∀ turn ∈ turns, tree.get? (turn.source :: commandsPlace root) = some (.file turn.text.utf8)
  written : ∀ turn ∈ turns, tree.get? (artifactPlace root turn.source) = some (.file turn.draft.output.utf8)

theorem Looks.keys_eq (looks : Looks root tree table review) (holds : HoldsCompiled root tree turns) :
    review.sources.keys = turns.map fun turn => turn.source.text := by
  rw [looks.keys, ← holds.sources, List.map_map]
  rfl

theorem Looks.artifact_eq (looks : Looks root tree table review) (holds : HoldsCompiled root tree turns) {turn : Turn}
    (member : turn ∈ turns) : review.artifacts.get? (nameFor turn.source.text) = some turn.draft.output :=
  looks.artifacts (entryName turn.source) turn.draft.output (isArtifact_nameFor turn.source.text)
    (holds.written turn member)

/-- A review of what was compiled stops where the audit of an artifact does. -/
theorem Looks.stopsAt_iff (looks : Looks root tree table review) (holds : HoldsCompiled root tree turns)
    {stop : Json.Stop} : review.StopsAt stop ↔ ∃ turn ∈ turns, turn.draft.parts.StopsAt stop := by
  simp only [Review.StopsAt, looks.keys_eq holds, ← Turn.declaredTools?_output_eq_error_iff]
  constructor
  · rintro ⟨_, listed, content, there, stops⟩
    obtain ⟨turn, member, rfl⟩ := List.mem_map.mp listed
    obtain rfl := Option.some.inj ((looks.artifact_eq holds member).symm.trans there)
    exact ⟨turn, member, stops⟩
  · rintro ⟨turn, member, stops⟩
    exact ⟨_, List.mem_map_of_mem member, _, looks.artifact_eq holds member, stops⟩

/-- Where no list holds half a pair of code units, a review of what was compiled ends exactly if no list is nested too
deep. -/
theorem Looks.auditable_iff (looks : Looks root tree table review) (holds : HoldsCompiled root tree turns)
    (whole : ∀ turn ∈ turns, ¬ turn.draft.parts.StopsAt .halfPair) :
    review.Auditable ↔ ∀ turn ∈ turns, ∀ container, ¬ turn.draft.parts.StopsAt (.tooDeep container) := by
  constructor
  · exact fun auditable turn member container stops =>
      auditable _ ((looks.stopsAt_iff holds).mpr ⟨turn, member, stops⟩)
  · intro shallow stop stops
    obtain ⟨turn, member, stops⟩ := (looks.stopsAt_iff holds).mp stops
    cases stop with
    | tooDeep container => exact shallow turn member container stops
    | halfPair => exact whole turn member stops

/-- Whether the artifact of a source holds what compiling the source against a tree and a table gives. -/
def UpToDate (root : Location) (tree : FileTree) (table : ToolTable) (source : Name) : Prop :=
  ∃ text output, tree.get? (source :: commandsPlace root) = some (.file (Text.utf8 text)) ∧
    tree.get? (artifactPlace root source) = some (.file (Text.utf8 output)) ∧
    ((⟨tree, .ofLocation root, table⟩ : Project).compile (.ofLocation (source :: commandsPlace root)) text
      .empty).output = output

/-- No artifact is found missing if all are up to date. -/
theorem Looks.coverage (looks : Looks root tree table review)
    (current : ∀ source ∈ sourceNames root tree, UpToDate root tree table source) : review.finds .coverage = [] := by
  refine List.flatMap_eq_nil_iff.mpr fun entry member => ?_
  have listed : entry.1 ∈ review.sources.keys := List.mem_map_of_mem member
  rw [looks.keys] at listed
  obtain ⟨source, listed, same⟩ := List.mem_map.mp listed
  obtain ⟨text, output, -, there, -⟩ := current source listed
  have found : review.artifacts.get? (nameFor source.text) = some output :=
    looks.artifacts (entryName source) output (isArtifact_nameFor source.text) there
  rw [Review.findsAbout, ← same, Review.checkCoverage, OrderedMap.contains, found]
  rfl

/-- No artifact is found stale if all are up to date. -/
theorem Looks.staleness (looks : Looks root tree table review)
    (current : ∀ source ∈ sourceNames root tree, UpToDate root tree table source) : review.finds .staleness = [] := by
  refine List.flatMap_eq_nil_iff.mpr ?_
  rintro ⟨key, text⟩ entry
  have known := OrderedMap.get?_of_mem entry
  have member := OrderedMap.mem_keys_of_get? known
  rw [looks.keys] at member
  obtain ⟨source, listed, rfl⟩ := List.mem_map.mp member
  obtain ⟨text', output, read, there, compiled⟩ := current source listed
  obtain rfl : text' = text := Option.some.inj ((looks.sources source listed text' read).symm.trans known)
  have found : review.artifacts.get? (nameFor source.text) = some output :=
    looks.artifacts (entryName source) output (isArtifact_nameFor source.text) there
  have again : (review.draft source.text text').output = output := by
    rw [Review.draft, looks.project, looks.commands, Path.join_name, compiled]
  simp only [Review.findsAbout, found, Option.map_some, Option.getD_some, Review.findsIn, Review.checkStaleness,
    Review.checkDraft, again, if_true, ite_self]

/-! ## Trees that a run has left -/

/-- Whether trees hold the same everywhere but in the directory of the tool table. -/
def SameOutsideScripts (root : Location) (tree other : FileTree) : Prop :=
  ∀ place, ¬ scriptsPlace root <:+ place → tree.get? place = other.get? place

private theorem not_inScripts (root inner : Location) {outer : Name} (other : outer.text ≠ "scripts".toList) :
    ¬ scriptsPlace root <:+ inner ++ outer :: root := by
  intro inside
  have above : scriptsPlace root <:+ outer :: root :=
    List.suffix_of_suffix_length_le inside (List.suffix_append inner _) (by simp [scriptsPlace])
  have same := above.eq_of_length (by simp [scriptsPlace])
  exact other (congrArg Name.text (List.cons.inj same).1).symm

namespace SameOutsideScripts

variable {other : FileTree}

theorem source_eq (same : SameOutsideScripts root tree other) (name : Name) :
    tree.get? (name :: commandsPlace root) = other.get? (name :: commandsPlace root) :=
  same _ (not_inScripts root [_, _] (by decide))

theorem artifact_eq (same : SameOutsideScripts root tree other) (name : Name) :
    tree.get? (name :: promptsPlace root) = other.get? (name :: promptsPlace root) :=
  same _ (not_inScripts root [_, _] (by decide))

end SameOutsideScripts

namespace Phases

variable {before after made last cleared : FileTree} {tally : Tally}

/-- Without withheld artifacts everything is up to date after a run that changed no answer. -/
theorem upToDate (phases : Phases root table before after turns tally made last cleared) (plain : before.Plain)
    (effect : Effect root before after table turns) (complete : ∀ turn ∈ turns, turn.draft.withheld = false)
    (unchanged : ∀ turn ∈ turns, ∀ path ∈ turn.asked, before.present path = after.present path) :
    ∀ source ∈ sourceNames root after, UpToDate root after (table.withStubs tally.stubs) source := by
  intro source listed
  rw [phases.sourceNames_eq, ← effect.sources] at listed
  obtain ⟨turn, member, rfl⟩ := List.mem_map.mp listed
  obtain ⟨path, read, -⟩ := effect.compiled turn member
  have agree := phases.agree_of_unchanged plain (apart_of_sources effect.sources) member (unchanged turn member)
  refine ⟨turn.text, turn.draft.output, (phases.source_eq _).trans read,
    effect.written turn member (complete turn member), ?_⟩
  rw [← path]
  exact output_eq_of_agree (phases.follows.starts_of_mem member) phases.areStubs agree

/-- A tree in which only the tool table has changed since the run holds what was compiled. -/
theorem holdsCompiled (phases : Phases root table before after turns tally made last cleared)
    (effect : Effect root before after table turns) (complete : ∀ turn ∈ turns, turn.draft.withheld = false)
    {tree : FileTree} (same : SameOutsideScripts root tree after) : HoldsCompiled root tree turns := by
  refine ⟨?_, fun turn member => ?_, fun turn member => ?_⟩
  · have listed : sourceNames root tree = sourceNames root after := by
      rw [sourceNames, sourceNames, fileNames_congr fun name => ?_]
      rw [isFileAt, isFileAt, same.source_eq]
    rw [listed, phases.sourceNames_eq, effect.sources]
  · exact (same.source_eq _).trans ((phases.source_eq _).trans (effect.compiled turn member).2.1)
  · exact (same.artifact_eq _).trans (effect.written turn member (complete turn member))

/-- A project that was compiled can be reviewed, also when another table has taken the place of the old one. -/
theorem gives_review (phases : Phases root table before after turns tally made last cleared)
    (effect : Effect root before after table turns) (turned : turns ≠ [])
    (complete : ∀ turn ∈ turns, turn.draft.withheld = false) {world : World} {current : ToolTable}
    (plain : world.tree.Plain) (same : SameOutsideScripts root world.tree after)
    (loads : world.tree.Loads (tablePlace root) current) (minimum : Int) :
    ∃ review last, ((ofPlace root).review minimum).Gives world review last ∧ last.tree = world.tree ∧
      Looks root world.tree current review ∧ HoldsCompiled root world.tree turns := by
  have holds := phases.holdsCompiled effect complete same
  have commands : world.tree.get? (commandsPlace root) = some .directory := by
    obtain ⟨turn, member⟩ := List.exists_mem_of_ne_nil turns turned
    refine plain.within turn.source _ ?_
    rw [holds.texts turn member]
    simp
  have prompts : world.tree.get? (promptsPlace root) = some .directory :=
    (same _ (not_inScripts root [_] (by decide))).trans
      (phases.directory_after List.suffix_rfl phases.makes.directory)
  have texts : ∀ name ∈ sourceNames root world.tree, ∃ text,
      world.tree.get? (name :: commandsPlace root) = some (.file (Text.utf8 text)) := by
    intro name listed
    obtain ⟨turn, member, rfl⟩ := List.mem_map.mp (holds.sources ▸ listed)
    exact ⟨turn.text, holds.texts turn member⟩
  have outputs : ∀ name content, isArtifact name.text = true →
      world.tree.get? (name :: promptsPlace root) = some (.file content) → ∃ text, content = Text.utf8 text := by
    intro name content named there
    rw [same.artifact_eq] at there
    obtain ⟨turn, member, rfl⟩ := effect.expected turned name content named there
    have final := effect.written turn member (complete turn member)
    exact ⟨turn.draft.output, Entry.file.inj (Option.some.inj (there.symm.trans final))⟩
  obtain ⟨review, last, given, kept, looks⟩ := Layout.gives_review plain loads commands prompts texts outputs minimum
  exact ⟨review, last, given, kept, looks, holds⟩

end Phases

end Layout

open CommandLine Layout

namespace CommandLine

variable {current : Location} {arguments : List Text} {settings : Settings} {root : Location} {before after : World}

/-- A call that returns 0 has passed through its phases, without withholding an artifact. -/
theorem phases_of_compile_zero (calls : Calls current arguments settings root) (plain : before.tree.Plain)
    (zero : (compile current arguments).run before = (0, after)) :
    ∃ table tally made last cleared,
      Phases root table before.tree after.tree ((ofPlace root).turnsIn before) tally made last cleared ∧
        Effect root before.tree after.tree table ((ofPlace root).turnsIn before) ∧
        (ofPlace root).turnsIn before ≠ [] ∧
        (∀ turn ∈ (ofPlace root).turnsIn before, turn.draft.withheld = false) ∧
        reportCode (settings.get? strictOption).isSome tally ((ofPlace root).turnsIn before).length = 0 := by
  obtain ⟨-, -, tally, count, middle, compiled, code, same⟩ := gives_of_compile_zero calls plain zero
  obtain ⟨counted, complete, -⟩ := reportCode_eq_zero_iff.mp code
  obtain ⟨table, loaded, sources, rfl, ⟨empty, -, -⟩ | ⟨turned, made, last, cleared, phases⟩⟩ :=
    compile_phases plain compiled
  · rw [empty] at counted
    exact absurd rfl counted
  rw [← same] at phases
  refine ⟨table, tally, made, last, cleared, phases, phases.effect loaded sources turned, turned, ?_, code⟩
  have counted := phases.follows.sums_eq.2.2.1
  rw [complete, show Tally.empty.withheldCount = 0 from rfl, Nat.zero_add, eq_comm, List.countP_eq_zero] at counted
  exact fun turn member => Bool.eq_false_iff.mpr (counted turn member)

/-- The review right after a call that returns 0 reads what was compiled, and it finds no artifact missing and none
stale if it ends, provided that the call changed no answer about references. -/
private theorem gives_review_after_compile (calls : Calls current arguments settings root) (plain : before.tree.Plain)
    (zero : (compile current arguments).run before = (0, after))
    (unchanged : ∀ turn ∈ (ofPlace root).turnsIn before, ∀ path ∈ turn.asked,
      before.tree.present path = after.tree.present path) (minimum : Int) :
    ∃ table review last, ((ofPlace root).review minimum).Gives after review last ∧ last.tree = after.tree ∧
      Looks root after.tree table review ∧ HoldsCompiled root after.tree ((ofPlace root).turnsIn before) ∧
      review.finds .coverage = [] ∧ review.finds .staleness = [] := by
  obtain ⟨table, tally, made, last, cleared, phases, effect, turned, complete, -⟩ :=
    phases_of_compile_zero calls plain zero
  have current := phases.upToDate plain effect complete unchanged
  obtain ⟨review, world, given, same, looks, holds⟩ := phases.gives_review effect turned complete phases.plain_after
    (fun _ _ => rfl) (phases.loads_after effect.loaded) minimum
  exact ⟨_, review, world, given, same, looks, holds, looks.coverage current, looks.staleness current⟩

/-- After a call of the compiler that returns 0 the project can be reviewed. The review ends and finds no artifact
missing and none stale exactly if no list in the header of an artifact, taken for that of its comment, is nested too
deep for the reader of JSON. This holds provided that no path that the rewriting of references asked about came or
went during the run, and that no such list holds half a pair of code units. -/
theorem review_after_compile_iff (calls : Calls current arguments settings root) (plain : before.tree.Plain)
    (zero : (compile current arguments).run before = (0, after))
    (unchanged : ∀ turn ∈ (ofPlace root).turnsIn before, ∀ path ∈ turn.asked,
      before.tree.present path = after.tree.present path)
    (whole : ∀ turn ∈ (ofPlace root).turnsIn before, ¬ turn.draft.parts.StopsAt .halfPair) (minimum : Int) :
    ∃ review last, ((ofPlace root).review minimum).Gives after review last ∧ last.tree = after.tree ∧
      ((∃ found, review.diagnostics = .ok found ∧
          ∀ diagnostic ∈ found, diagnostic.check ≠ .coverage ∧ diagnostic.check ≠ .staleness) ↔
        ∀ turn ∈ (ofPlace root).turnsIn before, ∀ container, ¬ turn.draft.parts.StopsAt (.tooDeep container)) := by
  obtain ⟨table, review, last, given, same, looks, holds, covered, fresh⟩ :=
    gives_review_after_compile calls plain zero unchanged minimum
  refine ⟨review, last, given, same, ?_⟩
  rw [← looks.auditable_iff holds whole]
  constructor
  · rintro ⟨found, ended, -⟩
    exact (Review.diagnostics_eq_ok_iff.mp ended).1
  · intro auditable
    exact ⟨review.findings, Review.diagnostics_eq_ok_iff.mpr ⟨auditable, rfl⟩, fun diagnostic member =>
      ⟨Review.finds_eq_nil_iff.mp covered diagnostic member, Review.finds_eq_nil_iff.mp fresh diagnostic member⟩⟩

theorem run_of_code {code : Nat} (ended : ((compile current arguments).run before).1 = code) :
    (compile current arguments).run before = (code, ((compile current arguments).run before).2) :=
  Prod.ext ended rfl

/-- The compiler succeeds on the sample, and the one path that its source asks about stays. -/
theorem sampleWorld_compiled : ((compile [] []).run sampleWorld).1 = 0 ∧
    ((ofPlace []).turnsIn sampleWorld).map (·.asked.length) = [1] ∧
    (∀ turn ∈ (ofPlace []).turnsIn sampleWorld, ∀ path ∈ turn.asked,
      sampleWorld.tree.present path = ((compile [] []).run sampleWorld).2.tree.present path) ∧
    ∀ turn ∈ (ofPlace []).turnsIn sampleWorld, ¬ turn.draft.parts.StopsAt .halfPair := by
  decide +kernel

theorem review_after_compile_iff_sample : sampleWorld.tree.Plain ∧ ∃ after,
    (compile [] []).run sampleWorld = (0, after) ∧
      ((ofPlace []).turnsIn sampleWorld).map (·.asked.length) = [1] ∧
      (∀ turn ∈ (ofPlace []).turnsIn sampleWorld, ∀ path ∈ turn.asked,
        sampleWorld.tree.present path = after.tree.present path) ∧
      (∀ turn ∈ (ofPlace []).turnsIn sampleWorld, ¬ turn.draft.parts.StopsAt .halfPair) ∧
      ∃ review last, ((ofPlace []).review 1).Gives after review last ∧ last.tree = after.tree ∧
        ((∃ found, review.diagnostics = .ok found ∧
            ∀ diagnostic ∈ found, diagnostic.check ≠ .coverage ∧ diagnostic.check ≠ .staleness) ↔
          ∀ turn ∈ (ofPlace []).turnsIn sampleWorld, ∀ container, ¬ turn.draft.parts.StopsAt (.tooDeep container)) := by
  have plain : sampleWorld.tree.Plain := Plain.of_isPlain (by decide)
  obtain ⟨zero, counted, unchanged, whole⟩ := sampleWorld_compiled
  have ended := run_of_code zero
  exact ⟨plain, _, ended, counted, unchanged, whole,
    review_after_compile_iff calls_sample plain ended unchanged whole 1⟩

/-- A description with arrays nested too deep, in what looks like a comment on declared tools, ends the review right
after the call without findings. -/
theorem review_after_compile_stops : ∃ (world after : World) (review : Review) (last : World),
    Calls [] [] [] [] ∧ world.tree.Plain ∧ (compile [] []).run world = (0, after) ∧
      (∀ turn ∈ (ofPlace []).turnsIn world, ∀ path ∈ turn.asked, world.tree.present path = after.tree.present path) ∧
      ((ofPlace []).review 1).Gives after review last ∧ review.StopsAt (.tooDeep .array) ∧
      ∀ found, review.diagnostics ≠ .ok found := by
  let table := singleTable "readFile".toList
  let text := describedSource (nestedComment Json.callLimit)
  let turn := singleTurn table text
  obtain ⟨known, written, asked, deep⟩ : (∀ name ∈ Draft.toolNames text, table.fate name ≠ .unknown) ∧
      turn.draft.withheld = false ∧ turn.asked = [] ∧ turn.draft.parts.StopsAt (.tooDeep .array) := by decide +kernel
  obtain ⟨after, ended, -, turns⟩ := compile_singleWorld known written
  have unchanged : ∀ turn ∈ (ofPlace []).turnsIn (singleWorld table text), ∀ path ∈ turn.asked,
      (singleTree table text).present path = after.tree.present path := by
    intro turn member path listed
    rw [turns, List.mem_singleton] at member
    rw [member, asked] at listed
    cases listed
  obtain ⟨_, review, last, given, -, looks, holds, -, -⟩ :=
    gives_review_after_compile calls_sample singleTree_plain ended unchanged 1
  have stops : review.StopsAt (.tooDeep .array) := by
    rw [looks.stopsAt_iff holds, turns]
    exact ⟨_, List.mem_singleton_self _, deep⟩
  exact ⟨_, after, review, last, calls_sample, singleTree_plain, ended, unchanged, given, stops, fun found lost =>
    (Review.diagnostics_eq_ok_iff.mp lost).1 _ stops⟩

end CommandLine

end PromptCompiler
