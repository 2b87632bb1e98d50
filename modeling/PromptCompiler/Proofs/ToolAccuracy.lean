import Mathlib.Data.List.Nodup
import PromptCompiler.Proofs.FreshCompile

/-! # Tool accuracy

A review compares the tools in the header of an artifact with those that its declared tools map to now. Right
after a run it finds no difference exactly if the tools of every artifact that an audit looks at can be read
back. When another table takes the place of the old one, it finds the artifacts of which the tools change,
as far as an audit looks at them. Neither holds where a header has a text that is taken for the comment.
-/

namespace PromptCompiler

open FileTree Artifact Artifact.Parts

/-! ## The artifact of a document -/

namespace Project

variable {project : Project} {path : Path} {source : Text} {tally : Tally}

/-- What is read from lines of either ending is read from the parts of the artifact. -/
theorem read_compile_output {α : Type} (read : Text → α)
    (unchanged : ∀ text, read (LineEnding.restore .crlf text) = read text) (project : Project) (path : Path) (source : Text)
    (tally : Tally) :
    read (project.compile path source tally).output = read (project.compile path source tally).parts.render := by
  rw [compile_output]
  cases (project.compile path source tally).lineEnding with
  | lf => rfl
  | crlf => exact unchanged _

theorem compile_declared (project : Project) (path : Path) (source : Text) (tally : Tally) :
    (project.compile path source tally).parts.declared = (ToolDeclaration.ofText source).names := by
  rw [compile_eq, Draft.complete_parts]
  rfl

theorem compile_tools (project : Project) (path : Path) (source : Text) (tally : Tally) :
    (project.compile path source tally).parts.tools = (project.table.mapTools path.name (Draft.toolNames source)).tools := by
  rw [compile_eq, Draft.complete_parts]
  rfl

/-- Fields stand on one line, and so does what is made of them. -/
theorem compile_oneLine (command : '\n' ∉ (project.compile path source tally).parts.command)
    (tools : ∀ tool ∈ (project.compile path source tally).parts.tools, '\n' ∉ tool) :
    (project.compile path source tally).parts.OneLine := by
  refine ⟨command, ?_, ?_, tools⟩
  · rw [compile_eq, Draft.complete_parts] at command ⊢
    change '\n' ∉ Draft.description _
    rw [Draft.description]
    split
    · intro feed
      rcases List.mem_append.mp feed with opening | inCommand
      · exact absurd opening (by decide)
      · exact command inCommand
    · exact Header.not_mem_getD_field source _
  · rw [compile_eq, Draft.complete_parts]
    exact Header.not_mem_getD_field source _

end Project

/-- The tools that the source of a turn maps to under a table. -/
def Turn.toolsUnder (turn : Turn) (table : ToolTable) : List Text :=
  (table.mapTools turn.source.text (Draft.toolNames turn.text)).tools

namespace Turn.Starts

variable {root : Location} {table : ToolTable} {tree : FileTree} {tally : Tally} {turn : Turn}

private theorem tools_eq (starts : turn.Starts root table tree tally) :
    turn.draft.parts.tools = turn.toolsUnder turn.project.table := by
  rw [Turn.draft, Project.compile_tools, toolsUnder, starts.path, Path.name_ofLocation]

/-- The tools are found in the artifact as they are exactly if each of them can be read back. -/
theorem foundTools_iff (starts : turn.Starts root table tree tally) (audited : turn.draft.parts.Audited)
    (command : '\n' ∉ turn.draft.parts.command) :
    foundTools turn.draft.output = turn.toolsUnder turn.project.table ↔
      ∀ tool ∈ turn.toolsUnder turn.project.table, Readable tool := by
  obtain ⟨names, declared⟩ := audited.exists_declared
  have increasing : Text.sorted turn.draft.parts.tools = turn.draft.parts.tools := by
    rw [starts.tools_eq]
    exact Text.sorted_sortedDistinct _
  have found := foundTools_eq_iff declared (Project.compile_oneLine command) increasing
  have same : foundTools turn.draft.output = foundTools turn.draft.parts.render := by
    have written : turn.draft.output = turn.draft.lineEnding.restore turn.draft.parts.render :=
      Project.compile_output ..
    rw [foundTools, foundTools, written, tools?_restore]
  rw [same, ← starts.tools_eq, found]

end Turn.Starts

namespace Review

/-- An artifact whose comment is read is found to differ exactly if it has other tools than the names map to now. -/
theorem toolFindings_eq_nil_iff (review : Review) {source content : Text} {names : List Text}
    (recorded : declaredTools? content = .ok (some names)) :
    review.toolFindings source content = [] ↔ foundTools content = review.expectedTools source names := by
  rw [toolFindings, recorded]
  simp only [compareTools, foundTools, ite_eq_left_iff, List.cons_ne_nil, imp_false, Decidable.not_not]

/-- A difference is found in the artifact of a turn exactly if an audit looks at the artifact and finds other tools
than the source maps to now. -/
theorem toolFindings_turn_eq_nil_iff (review : Review) {turn : Turn}
    (clear : turn.draft.parts.declared ≠ none → turn.draft.parts.Clear) :
    review.toolFindings turn.source.text turn.draft.output = [] ↔
      (turn.draft.parts.Audited → foundTools turn.draft.output = turn.toolsUnder review.project.table) := by
  have written : turn.draft.output = turn.draft.lineEnding.restore turn.draft.parts.render := Project.compile_output ..
  have recorded : declaredTools? turn.draft.output =
      .ok (if turn.draft.parts.Audited then turn.draft.parts.declared else none) := by
    rw [written, declaredTools?_restore, declaredTools?_render fun known => (clear known).noComment]
  by_cases audited : turn.draft.parts.Audited
  · obtain ⟨names, declared⟩ := audited.exists_declared
    have expected : review.expectedTools turn.source.text names = turn.toolsUnder review.project.table := by
      have lowered : Draft.toolNames turn.text = names.map Text.lower := by
        rw [Turn.draft, Project.compile_declared] at declared
        rw [Draft.toolNames, ToolDeclaration.lowered, declared]
        rfl
      rw [expectedTools, Turn.toolsUnder, lowered]
      rfl
    rw [if_pos audited, declared] at recorded
    simp only [review.toolFindings_eq_nil_iff recorded, expected, audited, forall_const]
  · rw [if_neg audited] at recorded
    rw [toolFindings, recorded]
    exact iff_of_true rfl fun found => absurd found audited

end Review

namespace Layout

variable {root : Location} {table : ToolTable} {tree : FileTree} {review : Review} {turns : List Turn}

/-- The tools of compiled artifacts are checked one by one. -/
theorem Looks.toolAccuracy (looks : Looks root tree table review) (holds : HoldsCompiled root tree turns) :
    review.finds .toolAccuracy =
      turns.flatMap fun turn => review.toolFindings turn.source.text turn.draft.output := by
  let find (source : Text) : List Diagnostic :=
    ((review.artifacts.get? (nameFor source)).map (review.toolFindings source)).getD []
  have checked : review.finds .toolAccuracy = review.sources.keys.flatMap find := by
    rw [OrderedMap.keys, List.flatMap_map]
    rfl
  rw [checked, looks.keys_eq holds, List.flatMap_map]
  refine List.flatMap_congr fun turn member => ?_
  simp only [find, looks.artifact_eq holds member, Option.map_some, Option.getD_some]

private theorem Looks.project_table (looks : Looks root tree table review) : review.project.table = table := by
  rw [looks.project]

/-- A review of compiled artifacts ends if nothing in their headers can be taken for the comment. -/
theorem Looks.auditable_of_clear (looks : Looks root tree table review) (holds : HoldsCompiled root tree turns)
    (clear : ∀ turn ∈ turns, turn.draft.parts.declared ≠ none → turn.draft.parts.Clear) : review.Auditable := by
  intro stop stops
  obtain ⟨turn, member, stops⟩ := (looks.stopsAt_iff holds).mp stops
  exact not_stopsAt (clear turn member) stop stops

namespace Phases

variable {before after made last cleared : FileTree} {tally : Tally}

/-- Right after a run the tools of all artifacts are found to be accurate exactly if they can be read back from those
that an audit looks at. -/
theorem toolAccuracy_eq_nil_iff (phases : Phases root table before after turns tally made last cleared)
    (effect : Effect root before after table turns)
    (clear : ∀ turn ∈ turns, turn.draft.parts.declared ≠ none → turn.draft.parts.Clear)
    (looks : Looks root tree (table.withStubs tally.stubs) review) (holds : HoldsCompiled root tree turns) :
    review.finds .toolAccuracy = [] ↔ ∀ turn ∈ turns, turn.draft.parts.Audited →
      ∀ tool ∈ turn.toolsUnder turn.project.table, Readable tool := by
  rw [looks.toolAccuracy holds, List.flatMap_eq_nil_iff]
  refine forall₂_congr fun turn member => ?_
  have starts := phases.follows.starts_of_mem member
  have mapped : turn.toolsUnder review.project.table = turn.toolsUnder turn.project.table := by
    rw [looks.project_table, (effect.compiled turn member).2.2.2]
    exact (phases.areStubs.mapTools_withStubs _ _).1
  rw [review.toolFindings_turn_eq_nil_iff (clear turn member), mapped]
  refine forall_congr' fun audited => ?_
  obtain ⟨names, declared⟩ := audited.exists_declared
  exact starts.foundTools_iff audited (clear turn member (by simp [declared])).oneLine

end Phases

end Layout

open CommandLine Layout

namespace CommandLine

variable {current : Location} {arguments : List Text} {settings : Settings} {root : Location} {before after : World}

/-- Right after a call of the compiler that returns 0 the review finds no tools mismatch exactly if in every
artifact whose comment an audit reads each tool can be read back. -/
theorem toolAccuracy_after_compile_iff (calls : Calls current arguments settings root) (plain : before.tree.Plain)
    (zero : (compile current arguments).run before = (0, after))
    (clear : ∀ turn ∈ (ofPlace root).turnsIn before, turn.draft.parts.declared ≠ none → turn.draft.parts.Clear)
    (minimum : Int) :
    ∃ review last found, ((ofPlace root).review minimum).Gives after review last ∧ last.tree = after.tree ∧
      review.diagnostics = .ok found ∧
      ((∀ diagnostic ∈ found, diagnostic.check ≠ .toolAccuracy) ↔
        ∀ turn ∈ (ofPlace root).turnsIn before, turn.draft.parts.Audited →
          ∀ tool ∈ turn.toolsUnder turn.project.table, Readable tool) := by
  obtain ⟨table, tally, made, last, cleared, phases, effect, turned, complete, -⟩ :=
    phases_of_compile_zero calls plain zero
  obtain ⟨review, world, given, kept, looks, holds⟩ := phases.gives_review effect turned complete phases.plain_after
    (fun _ _ => rfl) (phases.loads_after effect.loaded) minimum
  have ended := Review.diagnostics_eq_ok_iff.mpr ⟨looks.auditable_of_clear holds clear, rfl⟩
  refine ⟨review, world, review.findings, given, kept, ended, ?_⟩
  rw [← Review.finds_eq_nil_iff, phases.toolAccuracy_eq_nil_iff effect clear looks holds]

/-- A project with one source that declares the tool of its table. -/
def singleProject (value body : Text) : World where
  tree :=
    ⟨[(scriptsPlace [], .directory),
      (tablePlace [], .file (singleTable value).fileText.utf8),
      ((commandsPlace []).tail, .directory),
      (commandsPlace [], .directory),
      (sampleName :: commandsPlace [], .file (Text.utf8 ("---\nallowed-tools: [Read]\n---\n".toList ++ body)))]⟩
  output := []
  complaints := []

private theorem singleProject_plain : (singleProject "readFile".toList []).tree.Plain := Plain.of_isPlain (by decide)

/-- The compiler succeeds on such a project, in which nothing but its comment looks like a comment about tools, and
keeps the table. -/
private theorem singleProject_compiled :
    let world := singleProject "readFile".toList []
    let after := ((compile [] []).run world).2
    ((compile [] []).run world).1 = 0 ∧ after.tree.isPlain = true ∧
      after.tree.get? (tablePlace []) = some (.file (singleTable "readFile".toList).fileText.utf8) ∧
      (∀ turn ∈ (ofPlace []).turnsIn world, turn.draft.parts.declared ≠ none → turn.draft.parts.Clear) ∧
      ∀ turn ∈ (ofPlace []).turnsIn world, ∀ tool ∈ turn.toolsUnder turn.project.table, Readable tool := by
  decide +kernel

theorem toolAccuracy_after_compile_iff_sample :
    (singleProject "readFile".toList []).tree.Plain ∧ ∃ after,
      (compile [] []).run (singleProject "readFile".toList []) = (0, after) ∧
        (∀ turn ∈ (ofPlace []).turnsIn (singleProject "readFile".toList []), turn.draft.parts.declared ≠ none →
          turn.draft.parts.Clear) ∧
        ∃ review last found, ((ofPlace []).review 1).Gives after review last ∧ last.tree = after.tree ∧
          review.diagnostics = .ok found ∧
          ((∀ diagnostic ∈ found, diagnostic.check ≠ .toolAccuracy) ↔
            ∀ turn ∈ (ofPlace []).turnsIn (singleProject "readFile".toList []), turn.draft.parts.Audited →
              ∀ tool ∈ turn.toolsUnder turn.project.table, Readable tool) := by
  obtain ⟨zero, -, -, clear, -⟩ := singleProject_compiled
  have ended := run_of_code zero
  exact ⟨singleProject_plain, _, ended, clear,
    toolAccuracy_after_compile_iff calls_sample singleProject_plain ended clear 1⟩

/-- A table may give a tool a name that ends in a quote; then the review right after the call reports a mismatch. -/
theorem toolAccuracy_quotedName : ∃ (world after : World) (review : Review) (last : World) (found : List Diagnostic),
    Calls [] [] [] [] ∧ world.tree.Plain ∧ (compile [] []).run world = (0, after) ∧
      ((ofPlace []).review 1).Gives after review last ∧ review.diagnostics = .ok found ∧
      ∃ diagnostic ∈ found, diagnostic.check = .toolAccuracy := by
  let world := singleProject "the \"reader\"".toList []
  have plain : world.tree.Plain := Plain.of_isPlain (by decide)
  obtain ⟨zero, clear, quoted⟩ : ((compile [] []).run world).1 = 0 ∧
      (∀ turn ∈ (ofPlace []).turnsIn world, turn.draft.parts.declared ≠ none → turn.draft.parts.Clear) ∧
      ∃ turn ∈ (ofPlace []).turnsIn world, turn.draft.parts.Audited ∧
        ∃ tool ∈ turn.toolsUnder turn.project.table, ¬ Readable tool := by decide +kernel
  obtain ⟨after, ended⟩ : ∃ after, (compile [] []).run world = (0, after) := ⟨_, run_of_code zero⟩
  obtain ⟨table, tally, made, last, cleared, phases, effect, turned, complete, -⟩ :=
    phases_of_compile_zero calls_sample plain ended
  obtain ⟨review, last, given, -, looks, holds⟩ := phases.gives_review effect turned complete phases.plain_after
    (fun _ _ => rfl) (phases.loads_after effect.loaded) 1
  have mismatch : review.finds .toolAccuracy ≠ [] := by
    rw [ne_eq, phases.toolAccuracy_eq_nil_iff effect clear looks holds]
    intro readable
    obtain ⟨turn, member, audited, tool, mapped, unreadable⟩ := quoted
    exact unreadable (readable turn member audited tool mapped)
  obtain ⟨diagnostic, member⟩ := List.exists_mem_of_ne_nil _ mismatch
  exact ⟨world, after, review, last, review.findings, calls_sample, plain, ended, given,
    Review.diagnostics_eq_ok_iff.mpr ⟨looks.auditable_of_clear holds clear, rfl⟩, diagnostic,
    Review.mem_finds_iff.mp member⟩

/-- A compiled project with one source, of which the comment is read, has its one artifact compared by every review,
also when another table has taken the place of the old one. -/
private theorem gives_review_singleWorld {table : ToolTable} {text : Text}
    (known : ∀ name ∈ Draft.toolNames text, table.fate name ≠ .unknown)
    (written : (singleTurn table text).draft.withheld = false) {names : Option (List Text)}
    (recorded : declaredTools? (singleTurn table text).draft.output = .ok names) :
    ∃ after, (compile [] []).run (singleWorld table text) = (0, after) ∧ after.tree.Plain ∧
      after.tree.get? (tablePlace []) = some (.file table.fileText.utf8) ∧
      (ofPlace []).turnsIn (singleWorld table text) = [singleTurn table text] ∧
      ∀ (changed : World) (current : ToolTable), changed.tree.Plain → SameOutsideScripts [] changed.tree after.tree →
        changed.tree.Loads (tablePlace []) current →
        ∃ review last, ((ofPlace []).review 1).Gives changed review last ∧ review.diagnostics = .ok review.findings ∧
          review.finds .toolAccuracy = review.toolFindings sampleName.text (singleTurn table text).draft.output := by
  obtain ⟨after, ended, kept, turns⟩ := compile_singleWorld known written
  obtain ⟨_, tally, made, last, cleared, phases, effect, turned, complete, -⟩ :=
    phases_of_compile_zero calls_sample singleTree_plain ended
  rw [turns] at phases effect turned complete
  refine ⟨after, ended, phases.plain_after, kept, turns, fun changed current plain same loads => ?_⟩
  obtain ⟨review, world, given, -, looks, holds⟩ := phases.gives_review effect turned complete plain same loads 1
  refine ⟨review, world, given, Review.diagnostics_eq_ok_iff.mpr ⟨fun stop stops => ?_, rfl⟩, ?_⟩
  · obtain ⟨turn, member, stops⟩ := (looks.stopsAt_iff holds).mp stops
    obtain rfl := List.mem_singleton.mp member
    have output : (singleTurn table text).draft.output =
      (singleTurn table text).draft.lineEnding.restore (singleTurn table text).draft.parts.render :=
        Project.compile_output ..
    rw [output, declaredTools?_restore, Parts.declaredTools?_render_eq_error_iff.mpr stops] at recorded
    cases recorded
  · rw [looks.toolAccuracy holds, List.flatMap_singleton]
    rfl

/-- A list in the header is taken for that of the comment. If it is another one, then the review right after the call
reports a mismatch although all tools can be read back. -/
theorem toolAccuracy_lookAlike : ∃ (world after : World) (review : Review) (last : World) (found : List Diagnostic),
    Calls [] [] [] [] ∧ world.tree.Plain ∧ (compile [] []).run world = (0, after) ∧
      (∀ turn ∈ (ofPlace []).turnsIn world, ∀ tool ∈ turn.toolsUnder turn.project.table, Readable tool) ∧
      ((ofPlace []).review 1).Gives after review last ∧ review.diagnostics = .ok found ∧
      ∃ diagnostic ∈ found, diagnostic.check = .toolAccuracy := by
  let table := singleTable "readFile".toList
  let text := describedSource "<!-- upstream-tools: [] -->".toList
  let turn := singleTurn table text
  obtain ⟨known, written, recorded, readable, notEmpty⟩ :
      (∀ name ∈ Draft.toolNames text, table.fate name ≠ .unknown) ∧ turn.draft.withheld = false ∧
        declaredTools? turn.draft.output = .ok (some []) ∧ (∀ tool ∈ turn.toolsUnder table, Readable tool) ∧
        foundTools turn.draft.output ≠ [] := by decide +kernel
  obtain ⟨after, ended, plain, kept, turns, reviewed⟩ := gives_review_singleWorld known written recorded
  have loads : after.tree.Loads (tablePlace []) table := by
    rw [Loads, kept]
    exact ToolTable.ofBytes_fileText table
  obtain ⟨review, last, given, ended', found⟩ := reviewed after table plain (fun _ _ => rfl) loads
  have mismatch : review.finds .toolAccuracy ≠ [] := by
    have expected : review.expectedTools sampleName.text [] = [] := by
      simp [Review.expectedTools, ToolTable.mapTools, Text.sortedDistinct, Text.sorted, Text.distinct]
    rw [found, ne_eq, review.toolFindings_eq_nil_iff recorded, expected]
    exact notEmpty
  obtain ⟨diagnostic, member⟩ := List.exists_mem_of_ne_nil _ mismatch
  refine ⟨_, after, review, last, _, calls_sample, singleTree_plain, ended, ?_, given, ended', diagnostic,
    Review.mem_finds_iff.mp member⟩
  intro turn member
  rw [turns, List.mem_singleton] at member
  exact member ▸ readable

/-- When another table is put in the place of the old one after a call of the compiler that returns 0, the review
reports the artifact of a source exactly if an audit reads its comment and the table maps its tools to others,
provided that the tools in the artifact can be read back. -/
theorem tableChange_reported_iff (calls : Calls current arguments settings root) (plain : before.tree.Plain)
    (zero : (compile current arguments).run before = (0, after)) {changed : World} {table : ToolTable}
    (plain' : changed.tree.Plain) (same : SameOutsideScripts root changed.tree after.tree)
    (loads : changed.tree.Loads (tablePlace root) table)
    (clear : ∀ turn ∈ (ofPlace root).turnsIn before, turn.draft.parts.declared ≠ none → turn.draft.parts.Clear)
    (readable : ∀ turn ∈ (ofPlace root).turnsIn before, ∀ tool ∈ turn.toolsUnder turn.project.table, Readable tool)
    (minimum : Int) :
    ∃ review last errors, ((ofPlace root).review minimum).Gives changed review last ∧ last.tree = changed.tree ∧
      review.errors = .ok errors ∧ ∀ turn ∈ (ofPlace root).turnsIn before,
        ((∃ diagnostic ∈ errors, diagnostic.check = .toolAccuracy ∧
          diagnostic.artifact = nameFor turn.source.text) ↔
          turn.draft.parts.Audited ∧ turn.toolsUnder table ≠ turn.toolsUnder turn.project.table) := by
  obtain ⟨old, tally, made, last, cleared, phases, effect, turned, complete, -⟩ :=
    phases_of_compile_zero calls plain zero
  obtain ⟨review, world, given, kept, looks, holds⟩ :=
    phases.gives_review effect turned complete plain' same loads minimum
  have ended := Review.errors_eq_ok_iff.mpr ⟨looks.auditable_of_clear holds clear, rfl⟩
  refine ⟨review, world, _, given, kept, ended, fun turn member => ?_⟩
  have apart := apart_of_sources effect.sources
  have label {other : Turn} {diagnostic : Diagnostic}
      (finding : diagnostic ∈ review.toolFindings other.source.text other.draft.output) :
      diagnostic.artifact = nameFor other.source.text := by
    have inside : diagnostic ∈ review.findsIn other.source.text other.text other.draft.output .toolAccuracy := finding
    obtain ⟨message, rfl⟩ := Review.exists_message_of_mem_findsIn inside
    rfl
  have reported : (∃ diagnostic ∈ review.finds .toolAccuracy, diagnostic.artifact = nameFor turn.source.text) ↔
      review.toolFindings turn.source.text turn.draft.output ≠ [] := by
    rw [looks.toolAccuracy holds]
    constructor
    · rintro ⟨diagnostic, listed, named⟩
      obtain ⟨other, member', finding⟩ := List.mem_flatMap.mp listed
      have sources : other.source = turn.source := by
        refine entryName_inj (apart.2 other member') (apart.2 turn member) (Name.ext ?_)
        exact (label finding).symm.trans named
      obtain rfl := List.inj_on_of_nodup_map apart.1 member' member sources
      exact List.ne_nil_of_mem finding
    · intro differs
      obtain ⟨diagnostic, finding⟩ := List.exists_mem_of_ne_nil _ differs
      exact ⟨diagnostic, List.mem_flatMap.mpr ⟨turn, member, finding⟩, label finding⟩
  rw [Review.exists_error_iff ended rfl, reported, ne_eq, review.toolFindings_turn_eq_nil_iff (clear turn member),
    Classical.not_imp, looks.project_table]
  refine and_congr_right fun audited => ?_
  obtain ⟨names, declared⟩ := audited.exists_declared
  have command := (clear turn member (by simp [declared])).oneLine
  rw [((phases.follows.starts_of_mem member).foundTools_iff audited command).mpr (readable turn member), eq_comm]

def withTable (world : World) (table : ToolTable) : World :=
  { world with tree := world.tree.set (tablePlace []) (.file table.fileText.utf8) }

private theorem withTable_same (world : World) (table : ToolTable) :
    SameOutsideScripts [] (withTable world table).tree world.tree := by
  intro place outside
  have other : place ≠ tablePlace [] := by
    rintro rfl
    exact outside ⟨[tableName], rfl⟩
  rw [withTable, get?_set, if_neg fun here => other here.1]

private theorem withTable_plain {world : World} (plain : world.tree.Plain) {content : ByteArray}
    (there : world.tree.get? (tablePlace []) = some (.file content)) (table : ToolTable) :
    (withTable world table).tree.Plain := by
  have allowed : ∀ name ∈ tablePlace [], Allowed name := by decide
  have scripts : world.tree.get? (scriptsPlace []) = some .directory :=
    plain.within tableName _ fun absent => by cases there.symm.trans absent
  exact plain.set_plain ((reaches_cons_iff _ _).mpr ⟨allowed, scripts⟩) (fun _ same => by cases same)
    fun directory => by cases there.symm.trans directory

private theorem withTable_loads (world : World) (table : ToolTable) :
    (withTable world table).tree.Loads (tablePlace []) table := by
  rw [Loads, withTable, get?_set, if_pos ⟨rfl, List.cons_ne_nil _ _⟩]
  exact ToolTable.ofBytes_fileText table

theorem tableChange_reported_iff_sample : (singleProject "readFile".toList []).tree.Plain ∧ ∃ after changed,
    (compile [] []).run (singleProject "readFile".toList []) = (0, after) ∧
      changed.tree.Plain ∧ SameOutsideScripts [] changed.tree after.tree ∧
      changed.tree.Loads (tablePlace []) (singleTable "openFile".toList) ∧
      (∀ turn ∈ (ofPlace []).turnsIn (singleProject "readFile".toList []), turn.draft.parts.declared ≠ none →
        turn.draft.parts.Clear) ∧
      (∀ turn ∈ (ofPlace []).turnsIn (singleProject "readFile".toList []),
        ∀ tool ∈ turn.toolsUnder turn.project.table, Readable tool) ∧
      ∃ review last errors, ((ofPlace []).review 1).Gives changed review last ∧ last.tree = changed.tree ∧
        review.errors = .ok errors ∧ ∀ turn ∈ (ofPlace []).turnsIn (singleProject "readFile".toList []),
          ((∃ diagnostic ∈ errors, diagnostic.check = .toolAccuracy ∧
            diagnostic.artifact = nameFor turn.source.text) ↔
            turn.draft.parts.Audited ∧
              turn.toolsUnder (singleTable "openFile".toList) ≠ turn.toolsUnder turn.project.table) := by
  let world := singleProject "readFile".toList []
  let after := ((compile [] []).run world).2
  let changed := withTable after (singleTable "openFile".toList)
  obtain ⟨zero, isPlain, kept, clear, readable⟩ := singleProject_compiled
  have ended := run_of_code zero
  have plain' := withTable_plain (Plain.of_isPlain isPlain) kept (singleTable "openFile".toList)
  have same := withTable_same after (singleTable "openFile".toList)
  have loads := withTable_loads after (singleTable "openFile".toList)
  exact ⟨singleProject_plain, after, changed, ended, plain', same, loads, clear, readable,
    tableChange_reported_iff calls_sample singleProject_plain ended plain' same loads clear readable 1⟩

/-- A text that looks like the comment of a source without tools. -/
def absentLookAlike : Text := "<!-- upstream-tools: null".toList

/-- A source with such a text in its body is not looked at, and so a change of the table is not reported. -/
theorem tableChange_missed : ∃ (world after changed : World) (table : ToolTable) (review : Review) (last : World)
    (found : List Diagnostic),
    Calls [] [] [] [] ∧ world.tree.Plain ∧ (compile [] []).run world = (0, after) ∧
      changed.tree.Plain ∧ SameOutsideScripts [] changed.tree after.tree ∧ changed.tree.Loads (tablePlace []) table ∧
      (∃ turn ∈ (ofPlace []).turnsIn world, turn.toolsUnder table ≠ turn.toolsUnder turn.project.table ∧
        (∀ entry ∈ turn.project.table.entries ++ table.entries, ∀ c ∈ entry.2, c ∉ [',', '\n', '\'', '"']) ∧
        ∀ name ∈ Draft.toolNames turn.text, ToolTable.isPassedOn name = false) ∧
      ((ofPlace []).review 1).Gives changed review last ∧ review.diagnostics = .ok found ∧
      ∀ diagnostic ∈ found, diagnostic.check ≠ .toolAccuracy := by
  let world := singleProject "readFile".toList absentLookAlike
  have plain : world.tree.Plain := Plain.of_isPlain (by decide)
  obtain ⟨zero, isPlain, changes, unread⟩ : ((compile [] []).run world).1 = 0 ∧
      (withTable ((compile [] []).run world).2 (singleTable "openFile".toList)).tree.isPlain = true ∧
      (∃ turn ∈ (ofPlace []).turnsIn world,
        turn.toolsUnder (singleTable "openFile".toList) ≠ turn.toolsUnder turn.project.table ∧
          (∀ entry ∈ turn.project.table.entries ++ (singleTable "openFile".toList).entries, ∀ c ∈ entry.2,
            c ∉ [',', '\n', '\'', '"']) ∧
          ∀ name ∈ Draft.toolNames turn.text, ToolTable.isPassedOn name = false) ∧
      ∀ turn ∈ (ofPlace []).turnsIn world, ¬ turn.draft.parts.Audited ∧
        (turn.draft.parts.declared ≠ none → turn.draft.parts.Clear) := by decide +kernel
  obtain ⟨after, ended, plain'⟩ : ∃ after, (compile [] []).run world = (0, after) ∧
      (withTable after (singleTable "openFile".toList)).tree.Plain := ⟨_, run_of_code zero, Plain.of_isPlain isPlain⟩
  obtain ⟨table, tally, made, last, cleared, phases, effect, turned, complete, -⟩ :=
    phases_of_compile_zero calls_sample plain ended
  obtain ⟨review, last, given, -, looks, holds⟩ := phases.gives_review effect turned complete plain'
    (withTable_same _ _) (withTable_loads _ _) 1
  have missed : review.finds .toolAccuracy = [] := by
    rw [looks.toolAccuracy holds, List.flatMap_eq_nil_iff]
    intro turn member
    obtain ⟨notAudited, clear⟩ := unread turn member
    exact (review.toolFindings_turn_eq_nil_iff clear).mpr fun audited => absurd audited notAudited
  have auditable := looks.auditable_of_clear holds fun turn member => (unread turn member).2
  exact ⟨world, after, _, _, review, last, review.findings, calls_sample, plain, ended, plain', withTable_same _ _,
    withTable_loads _ _, changes, given, Review.diagnostics_eq_ok_iff.mpr ⟨auditable, rfl⟩,
    Review.finds_eq_nil_iff.mp missed⟩

/-- If the list in the header is no JSON, then the artifact is not looked at, and a change of the table is not
reported although the comment on declared tools can be read. -/
theorem tableChange_lookAlike : ∃ (world after changed : World) (table : ToolTable) (review : Review) (last : World)
    (found : List Diagnostic),
    Calls [] [] [] [] ∧ world.tree.Plain ∧ (compile [] []).run world = (0, after) ∧
      changed.tree.Plain ∧ SameOutsideScripts [] changed.tree after.tree ∧ changed.tree.Loads (tablePlace []) table ∧
      (∃ turn ∈ (ofPlace []).turnsIn world, turn.draft.parts.Audited ∧
        turn.toolsUnder table ≠ turn.toolsUnder turn.project.table ∧
        ∀ tool ∈ turn.toolsUnder turn.project.table, Readable tool) ∧
      ((ofPlace []).review 1).Gives changed review last ∧ review.diagnostics = .ok found ∧
      ∀ diagnostic ∈ found, diagnostic.check ≠ .toolAccuracy := by
  let table := singleTable "readFile".toList
  let text := describedSource "<!-- upstream-tools: [x] -->".toList
  let turn := singleTurn table text
  obtain ⟨known, written, recorded, audited, changes, readable⟩ :
      (∀ name ∈ Draft.toolNames text, table.fate name ≠ .unknown) ∧ turn.draft.withheld = false ∧
        declaredTools? turn.draft.output = .ok none ∧ turn.draft.parts.Audited ∧
        turn.toolsUnder (singleTable "openFile".toList) ≠ turn.toolsUnder table ∧
        ∀ tool ∈ turn.toolsUnder table, Readable tool := by decide +kernel
  obtain ⟨after, ended, plain, kept, turns, reviewed⟩ := gives_review_singleWorld known written recorded
  have plain' := withTable_plain plain kept (singleTable "openFile".toList)
  obtain ⟨review, last, given, ended', found⟩ := reviewed _ _ plain' (withTable_same _ _) (withTable_loads _ _)
  have missed : review.finds .toolAccuracy = [] := by
    rw [found, Review.toolFindings, recorded]
    rfl
  have inTurn : turn ∈ (ofPlace []).turnsIn (singleWorld table text) := turns ▸ List.mem_singleton_self _
  exact ⟨_, after, _, _, review, last, _, calls_sample, singleTree_plain, ended, plain', withTable_same _ _,
    withTable_loads _ _, ⟨turn, inTurn, audited, changes, readable⟩, given, ended', Review.finds_eq_nil_iff.mp missed⟩

end CommandLine

end PromptCompiler
