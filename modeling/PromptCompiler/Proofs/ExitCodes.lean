import PromptCompiler.Proofs.Commands
import PromptCompiler.Proofs.CompileEffect
import PromptCompiler.Proofs.Tallies

/-! # The code of a run

The command that compiles decides on its code by two sums: how many documents were withheld, and how many tools
were omitted. Every turn adds to them what its own draft holds, and nothing takes away from them. So both stay at
nothing exactly if no draft is withheld and none omits a tool; and a draft omits a tool exactly if the tool is
not passed on and the table has no entry for it other than that it is unmapped. None of this depends on how the
tree is laid out, also not on its links.
-/

namespace PromptCompiler

open FileTree

/-! ## Entries for tools -/

namespace ToolTable

variable {table : ToolTable} {name : Text} {entry : Text × Text}

/-- The entry that a table has for a name: that of the name itself, else the first one whose key is equal to the
name ignoring case. -/
inductive Selects (table : ToolTable) (name : Text) : Text × Text → Prop
  | exact {value : Text} (entry : (name, value) ∈ table.entries) : Selects table name (name, value)
  | alike {before after : List (Text × Text)} {entry : Text × Text} (absent : name ∉ table.keys)
      (split : table.entries = before ++ entry :: after) (same : Text.lower entry.1 = Text.lower name)
      (first : ∀ other ∈ before, Text.lower other.1 ≠ Text.lower name) : Selects table name entry

theorem selects_iff : table.Selects name entry ↔ table.lookup? name = some entry := by
  rw [lookup?]
  cases known : table.get? name with
  | some value =>
    constructor
    · rintro (listed | ⟨absent, -⟩)
      · rw [Option.some.inj (known.symm.trans (OrderedMap.get?_of_mem listed))]
      · exact absurd (OrderedMap.mem_keys_of_get? known) absent
    · rintro ⟨⟩
      exact .exact (OrderedMap.mem_of_get? known)
  | none =>
    have absent := OrderedMap.get?_eq_none_iff.mp known
    simp only [List.find?_eq_some_iff_append, decide_eq_true_eq, Bool.not_eq_true', decide_eq_false_iff_not]
    constructor
    · rintro (listed | ⟨-, split, same, first⟩)
      · exact absurd (List.mem_map_of_mem listed) absent
      · exact ⟨same, _, _, split, first⟩
    · rintro ⟨same, before, after, split, first⟩
      exact .alike absent split same first

/-- Whether a tool has a name in prompts: it is passed on, or has an entry other than that it is unmapped. -/
def Knows (table : ToolTable) (name : Text) : Prop :=
  isPassedOn name = true ∨ ∃ entry, table.Selects name entry ∧ entry.2 ≠ unmapped

theorem knows_iff : table.Knows name ↔ table.omits name = false := by
  simp only [Knows, selects_iff, omits, target?, fate]
  cases isPassedOn name with
  | true => simp
  | false =>
    cases table.lookup? name with
    | none => simp
    | some entry => by_cases declined : entry.2 = unmapped <;> simp [declined]

end ToolTable

/-! ## What one turn adds -/

namespace Turn

variable {layout : Layout} {table : ToolTable} {tree : FileTree} {tally : Tally} {turn : Turn}

/-- A turn reads its source in a tree, with a table and the sums so far. -/
structure Reads (layout : Layout) (table : ToolTable) (tree : FileTree) (tally : Tally) (turn : Turn) : Prop where
  project : turn.project = ⟨tree, layout.root, table⟩
  path : turn.path = layout.commands.child turn.source
  tally : turn.tally = tally
  read : tree.read turn.path = .ok turn.text.utf8

/-- Compiling a source in any tree is taking a turn. -/
theorem reads_of_gives {before after : World} {source : Name} {next : Tally}
    (given : (layout.compileSource table tally source).Gives before next after) :
    ∃ turn : Turn, turn.source = source ∧ turn.Reads layout table before.tree tally ∧ next = turn.next := by
  simp only [Layout.compileSource, Run.gives_bind, Run.gives_readText, Run.gives_currentTree] at given
  obtain ⟨text, _, ⟨read, rfl⟩, _, _, ⟨rfl, rfl⟩, _, _, -, _, _, -, rest⟩ := given
  refine ⟨⟨source, ⟨before.tree, layout.root, table⟩, layout.commands.child source, text, tally⟩, rfl,
    ⟨rfl, rfl, rfl, read⟩, ?_⟩
  split at rest
  · rename_i withheld
    exact (Run.gives_pure.mp rest).1.symm.trans (if_pos withheld).symm
  · rename_i written
    obtain ⟨_, _, -, done⟩ := Run.gives_bind.mp rest
    exact (Run.gives_pure.mp done).1.symm.trans (if_neg written).symm

/-- A turn counts itself if it is withheld, and with all of its omitted tools. -/
theorem next_counts (turn : Turn) :
    turn.next.withheldCount = turn.tally.withheldCount + (if turn.draft.withheld then 1 else 0) ∧
      turn.next.omittedCount = turn.tally.omittedCount + turn.draft.omitted.length := by
  have sums := Project.compile_tally turn.project turn.path turn.text turn.tally
  have omitted := Project.compile_omitted turn.project turn.path turn.text turn.tally
  rw [next, draft, sums, omitted]
  split <;> exact ⟨rfl, rfl⟩

/-- A turn omits nothing exactly if its table knows all tools that its source declares. -/
theorem omitted_eq_nil_iff (turn : Turn) :
    turn.draft.omitted = [] ↔ ∀ name ∈ (ToolDeclaration.ofText turn.text).names.getD [],
      turn.project.table.Knows (Text.lower name) := by
  have names : Draft.toolNames turn.text = ((ToolDeclaration.ofText turn.text).names.getD []).map Text.lower := by
    rw [Draft.toolNames, ToolDeclaration.lowered]
    cases (ToolDeclaration.ofText turn.text).names <;> rfl
  have distinct (texts : List Text) : Text.distinct texts = [] ↔ texts = [] := by
    cases texts with
    | nil => exact iff_of_true rfl rfl
    | cons text rest => simp [Text.distinct, List.eraseDups_cons]
  simp only [draft, Project.compile_omitted, distinct, names, List.filter_eq_nil_iff, List.forall_mem_map,
    ToolTable.knows_iff, Bool.not_eq_true]

end Turn

/-! ## What a run adds up -/

/-- Turns that a run takes one after the other, from a world and the sums so far to a world and the sums then. -/
inductive Takes (layout : Layout) (table : ToolTable) : World → Tally → List Turn → World → Tally → Prop
  | nil {world : World} {tally : Tally} : Takes layout table world tally [] world tally
  | cons {before middle after : World} {tally sums : Tally} {turn : Turn} {rest : List Turn}
      (reads : turn.Reads layout table before.tree tally)
      (given : (layout.compileSource table tally turn.source).Gives before turn.next middle)
      (later : Takes layout table middle turn.next rest after sums) :
      Takes layout table before tally (turn :: rest) after sums

namespace Takes

variable {layout : Layout} {table : ToolTable} {before after : World} {tally sums : Tally} {turns : List Turn}

/-- Compiling sources is taking turns. -/
theorem of_gives {sources : List Name}
    (given : (sources.foldlM (layout.compileSource table) tally).Gives before sums after) :
    ∃ turns : List Turn, turns.map Turn.source = sources ∧ Takes layout table before tally turns after sums := by
  induction sources generalizing before tally with
  | nil =>
    rw [List.foldlM_nil, Run.gives_pure] at given
    obtain ⟨rfl, rfl⟩ := given
    exact ⟨[], rfl, .nil⟩
  | cons source rest ih =>
    rw [List.foldlM_cons, Run.gives_bind] at given
    obtain ⟨next, middle, first, later⟩ := given
    obtain ⟨turn, rfl, reads, rfl⟩ := Turn.reads_of_gives first
    obtain ⟨turns, rfl, takes⟩ := ih later
    exact ⟨turn :: turns, rfl, .cons reads first takes⟩

/-- The turns are those that are recorded. -/
theorem recorded (takes : Takes layout table before tally turns after sums) :
    (layout.recordTurns table tally (turns.map Turn.source)).Gives before turns after := by
  induction takes with
  | nil => exact Run.gives_pure.mpr ⟨rfl, rfl⟩
  | @cons before middle after tally sums turn rest reads given later ih =>
    have spelled : (⟨turn.source, ⟨before.tree, layout.root, table⟩, layout.commands.child turn.source, turn.text,
        tally⟩ : Turn) = turn := by
      rw [← reads.project, ← reads.path, ← reads.tally]
    simp only [List.map_cons, Layout.recordTurns, Run.gives_bind, Run.gives_readText, Run.gives_currentTree]
    refine ⟨turn.text, _, ⟨reads.path ▸ reads.read, rfl⟩, _, _, ⟨rfl, rfl⟩, _, middle, given, rest, after, ih, ?_⟩
    exact Run.gives_pure.mpr ⟨congrArg (· :: rest) spelled, rfl⟩

private theorem reads_of_mem (takes : Takes layout table before tally turns after sums) {turn : Turn}
    (member : turn ∈ turns) :
    turn.Reads layout table turn.project.tree turn.tally := by
  induction takes with
  | nil => cases member
  | cons reads _ _ ih =>
    rcases List.mem_cons.mp member with rfl | later
    · rw [reads.project, reads.tally]
      exact reads
    · exact ih later

/-- The sums grow by what the drafts of the turns hold. -/
theorem counts (takes : Takes layout table before tally turns after sums) :
    sums.withheldCount = tally.withheldCount + turns.countP (·.draft.withheld) ∧
      sums.omittedCount = tally.omittedCount + (turns.map (·.draft.omitted.length)).sum := by
  induction takes with
  | nil => exact ⟨rfl, rfl⟩
  | @cons before middle after tally sums turn rest reads given later ih =>
    obtain ⟨withheld, omitted⟩ := turn.next_counts
    rw [ih.1, ih.2, withheld, omitted, reads.tally, List.countP_cons, List.map_cons, List.sum_cons]
    constructor
    · omega
    · omega

/-- No turn was withheld exactly if none was counted. -/
theorem withheldCount_eq_zero_iff (takes : Takes layout table before .empty turns after sums) :
    sums.withheldCount = 0 ↔ ∀ turn ∈ turns, turn.draft.withheld = false := by
  rw [takes.counts.1, show Tally.empty.withheldCount = 0 from rfl, Nat.zero_add, List.countP_eq_zero]
  simp only [Bool.not_eq_true]

/-- No tool was omitted exactly if none was counted. -/
theorem omittedCount_eq_zero_iff (takes : Takes layout table before .empty turns after sums) :
    sums.omittedCount = 0 ↔ ∀ turn ∈ turns, ∀ name ∈ (ToolDeclaration.ofText turn.text).names.getD [],
      table.Knows (Text.lower name) := by
  rw [takes.counts.2, show Tally.empty.omittedCount = 0 from rfl, Nat.zero_add, List.sum_eq_zero_iff_forall_eq_nat,
    List.forall_mem_map]
  refine forall₂_congr fun turn member => ?_
  have tables : turn.project.table = table := by rw [(takes.reads_of_mem member).project]
  rw [List.length_eq_zero_iff, turn.omitted_eq_nil_iff, tables]

end Takes

namespace Layout

/-- A run that compiles some sources loads a table, lists the sources and takes one turn for each. -/
theorem takes_of_gives {layout : Layout} {found middle : World} {tally : Tally} {count : Nat}
    (compiled : layout.compile.Gives found (tally, count) middle) (counted : count ≠ 0) :
    ∃ table loaded made turned, (ToolTable.load layout.table).Gives found table loaded ∧
      loaded.tree.sources layout.commands = .ok ((layout.turnsIn found).map Turn.source) ∧
      count = (layout.turnsIn found).length ∧ Takes layout table made .empty (layout.turnsIn found) turned tally := by
  rw [Layout.compile, Run.gives_bind] at compiled
  obtain ⟨table, loaded, loading, rest⟩ := compiled
  rw [Run.gives_bind] at rest
  obtain ⟨sources, listed, listing, rest⟩ := rest
  obtain ⟨known, rfl⟩ := Run.gives_ask.mp listing
  split at rest
  · obtain ⟨result, -⟩ := Run.gives_pure.mp rest
    exact absurd (Prod.mk.inj result).2.symm counted
  · rename_i others
    obtain ⟨_, made, making, rest⟩ := Run.gives_bind.mp rest
    obtain ⟨sums, turned, turning, rest⟩ := Run.gives_bind.mp rest
    obtain ⟨_, _, -, rest⟩ := Run.gives_bind.mp rest
    obtain ⟨_, _, -, rest⟩ := Run.gives_bind.mp rest
    obtain ⟨_, _, -, rest⟩ := Run.gives_bind.mp rest
    obtain ⟨result, -⟩ := Run.gives_pure.mp rest
    obtain ⟨rfl, rfl⟩ := Prod.mk.inj result
    obtain ⟨turns, rfl, takes⟩ := Takes.of_gives turning
    have recorded : layout.recorded.Gives found turns turned := by
      refine Run.gives_bind.mpr ⟨table, loaded, loading, Run.gives_bind.mpr ⟨_, loaded, listing, ?_⟩⟩
      rw [if_neg others]
      exact Run.gives_bind.mpr ⟨_, made, making, takes.recorded⟩
    rw [turnsIn_eq recorded]
    exact ⟨table, loaded, made, turned, loading, known, List.length_map .., takes⟩

end Layout

namespace CommandLine

variable {current : Location} {arguments : List Text} {settings : Settings} {layout : Layout}
  {before found middle : World} {tally : Tally} {count : Nat}

/-- The turns of a run after which the command succeeds. -/
structure Passes (table : ToolTable) (strict : Bool) (turns : List Turn) : Prop where
  written : ∀ turn ∈ turns, turn.draft.withheld = false
  /-- In a strict run the table knows every declared tool of every source by its name in lower case. -/
  known : strict = true → ∀ turn ∈ turns, ∀ name ∈ (ToolDeclaration.ofText turn.text).names.getD [],
    table.Knows (Text.lower name)

private theorem reportCode_of_takes {table : ToolTable} {turns : List Turn} {made turned : World}
    (takes : Takes layout table made .empty turns turned tally) (counted : count ≠ 0) (strict : Bool) :
    (reportCode strict tally count = 0 ↔ Passes table strict turns) ∧
      (reportCode strict tally count = codeOfFailure ↔ ¬ Passes table strict turns) := by
  have zero : reportCode strict tally count = 0 ↔ Passes table strict turns := by
    rw [reportCode_eq_zero_iff, takes.withheldCount_eq_zero_iff, not_and', Decidable.not_not,
      takes.omittedCount_eq_zero_iff]
    exact ⟨fun all => ⟨all.2.1, all.2.2⟩, fun passes => ⟨counted, passes.written, passes.known⟩⟩
  refine ⟨zero, ?_⟩
  rw [← zero, reportCode, if_neg counted]
  split <;> simp [codeOfFailure]

/-- A run that is brought to an end returns what it gives. -/
theorem conclude_of_gives {run : Run Nat} {code : Nat} {after : World} (given : run.Gives before code after) :
    (conclude run).run before = (code, after) := by
  rw [conclude_run, show run.outcome before = (.ok code, after) from given]

/-- A call that finds its layout and compiles some sources returns 0 exactly if no artifact is withheld and, in a
strict run, the table that it has loaded knows every declared tool of every source; else it returns 1. -/
theorem compile_code_iff (understood : readOptions compileSpecs arguments = .ok settings)
    (finding : (layoutOf current settings).Gives before layout found)
    (compiled : layout.compile.Gives found (tally, count) middle) (counted : count ≠ 0) :
    ∃ table loaded, (ToolTable.load layout.table).Gives found table loaded ∧
      loaded.tree.sources layout.commands = .ok ((layout.turnsIn found).map Turn.source) ∧
      (∀ turn ∈ layout.turnsIn found, turn.Reads layout table turn.project.tree turn.tally) ∧
      ∃ code after, (compile current arguments).run before = (code, after) ∧
        (code = 0 ↔ Passes table (settings.get? strictOption).isSome (layout.turnsIn found)) ∧
        (code = 1 ↔ ¬ Passes table (settings.get? strictOption).isSome (layout.turnsIn found)) := by
  obtain ⟨table, loaded, made, turned, loading, listing, -, takes⟩ := Layout.takes_of_gives compiled counted
  obtain ⟨after, reported, -⟩ :=
    speaks_reportCompile layout (settings.get? strictOption).isSome tally count middle
  obtain ⟨zero, one⟩ := reportCode_of_takes takes counted (settings.get? strictOption).isSome
  refine ⟨table, loaded, loading, listing, fun turn member => takes.reads_of_mem member, _, after, ?_, zero, one⟩
  rw [compile, withOptions, understood]
  exact conclude_of_gives
    (Run.gives_bind.mpr ⟨layout, found, finding, Run.gives_bind.mpr ⟨(tally, count), middle, compiled, reported⟩⟩)

/-- The settings of a strict run with the defaults. -/
def strictSettings : Settings := [(⟨strictOption, .flag⟩, [])]

/-- The sample project declares a tool that is not in its table, and does not pass a strict run. -/
theorem compile_code_iff_sample :
    readOptions compileSpecs [strictOption] = .ok strictSettings ∧
    ∃ layout tally count middle, (layoutOf [] strictSettings).Gives Layout.sampleWorld layout Layout.sampleWorld ∧
      layout.compile.Gives Layout.sampleWorld (tally, count) middle ∧ count ≠ 0 ∧
    ∃ table loaded, (ToolTable.load layout.table).Gives Layout.sampleWorld table loaded ∧
      loaded.tree.sources layout.commands = .ok ((layout.turnsIn Layout.sampleWorld).map Turn.source) ∧
      (∀ turn ∈ layout.turnsIn Layout.sampleWorld, turn.Reads layout table turn.project.tree turn.tally) ∧
      ∃ code after, (compile [] [strictOption]).run Layout.sampleWorld = (code, after) ∧
        (code = 0 ↔ Passes table (strictSettings.get? strictOption).isSome (layout.turnsIn Layout.sampleWorld)) ∧
        (code = 1 ↔ ¬ Passes table (strictSettings.get? strictOption).isSome (layout.turnsIn Layout.sampleWorld)) ∧
        code = 1 := by
  have understood : readOptions compileSpecs [strictOption] = .ok strictSettings := by rfl
  have default : DefaultLayout strictSettings := by
    intro option member
    revert option member
    decide
  have root : (rootPath [] strictSettings).location = [] ∧
      (rootPath [] strictSettings).steps.any Step.holdsNul = false := by decide
  have plain : Layout.sampleWorld.tree.Plain := Plain.of_isPlain (by decide)
  have finding : (layoutOf [] strictSettings).Gives Layout.sampleWorld (.ofPlace []) Layout.sampleWorld :=
    (gives_layoutOf_iff default plain).mpr ⟨root.2, by rw [root.1]; rfl, by rw [root.1], rfl⟩
  obtain ⟨ended, returned⟩ : (match ((Layout.ofPlace []).compile.outcome Layout.sampleWorld).1 with
      | .ok (_, count) => count != 0
      | .error _ => false) = true ∧ ((compile [] [strictOption]).run Layout.sampleWorld).1 = 1 := by decide +kernel
  rcases outcome : (Layout.ofPlace []).compile.outcome Layout.sampleWorld with ⟨⟨fault⟩ | ⟨tally, count⟩, middle⟩
  · rw [outcome] at ended
    cases ended
  · rw [outcome] at ended
    have counted : count ≠ 0 := by simpa using ended
    obtain ⟨table, loaded, loading, listing, reads, code, after, run, zero, one⟩ :=
      compile_code_iff understood finding outcome counted
    rw [run] at returned
    exact ⟨understood, _, tally, count, middle, finding, outcome, counted, table, loaded, loading, listing, reads, code,
      after, run, zero, one, returned⟩

end CommandLine

end PromptCompiler
