import PromptCompiler.Proofs.Drafts
import PromptCompiler.Proofs.PlainEffects

/-! # The turns of a run

A run takes one turn for each source. A turn reads the source, compiles it against the tree as it is
then, and puts the artifact in its place unless it is withheld. Turns follow one another: each starts
from the tree and the sums that the one before it leaves. What a turn writes no other turn writes, so
that a whole run of turns is known from its single turns.
-/

namespace PromptCompiler

open FileTree Layout Artifact

/-- The compilation of one source in a run. -/
structure Turn where
  source : Name
  project : Project
  path : Path
  text : Text
  tally : Tally

namespace Turn

def draft (turn : Turn) : Draft := turn.project.compile turn.path turn.text turn.tally

/-- The sums of the run after the turn. -/
def next (turn : Turn) : Tally :=
  let counted :=
    { turn.draft.tally with artifacts := turn.draft.tally.artifacts ++ [nameFor turn.source.text] }
  if turn.draft.withheld then { counted with withheldCount := counted.withheldCount + 1 } else counted

/-- The tree after the turn, in the project at a place. -/
def after (root : Location) (turn : Turn) : FileTree :=
  if turn.draft.withheld then turn.project.tree
  else turn.project.tree.replaced (promptsPlace root) (draftName turn.source) (entryName turn.source)
    turn.draft.output.utf8

/-- Whether a turn may write to a place. -/
def Owns (root : Location) (turn : Turn) (place : Location) : Prop :=
  place = artifactPlace root turn.source ∨ place = draftPlace root turn.source

/-- Whether a turn writes to a place. -/
def Writes (root : Location) (turn : Turn) (place : Location) : Prop :=
  turn.draft.withheld = false ∧ turn.Owns root place

/-- A turn that can be taken in a tree, with a table and the sums so far. -/
structure Starts (root : Location) (table : ToolTable) (tree : FileTree) (tally : Tally) (turn : Turn) : Prop where
  project : turn.project = ⟨tree, .ofLocation root, table⟩
  path : turn.path = .ofLocation (turn.source :: commandsPlace root)
  tally : turn.tally = tally
  read : tree.get? (turn.source :: commandsPlace root) = some (.file turn.text.utf8)
  /-- The artifact can be written unless it is withheld. -/
  ready : turn.draft.withheld = false →
    tree.Replaceable (promptsPlace root) (draftName turn.source) (entryName turn.source)

variable {root : Location} {table : ToolTable} {tally : Tally} {turn : Turn}

theorem artifact_path (root : Location) (source : Name) :
    (ofPlace root).prompts.join (nameFor source.text) = .ofLocation (artifactPlace root source) := by
  rw [ofPlace_prompts]
  exact Path.join_name (promptsPlace root) (entryName source)

/-- The messages of a document. -/
theorem speaks_messages (label : Text) (messages : List Text) :
    Run.Speaks (forIn messages PUnit.unit fun message _ => do
      Run.complain (label ++ message); pure (ForInStep.yield PUnit.unit)) () :=
  Run.speaks_forIn messages fun _ => Run.speaks_complain _

/-- Compiling a source is taking a turn. -/
theorem starts_of_gives {before after : World} (plain : before.tree.Plain) {source : Name} {next : Tally}
    (given : ((ofPlace root).compileSource table tally source).Gives before next after) :
    ∃ turn : Turn, turn.source = source ∧ turn.Starts root table before.tree tally ∧ next = turn.next ∧
      after.tree = turn.after root := by
  simp only [compileSource, ofPlace_commands, Path.child_ofLocation, ofPlace_root, artifact_path, Run.gives_bind,
    Run.gives_readText, Run.gives_currentTree, plain.read_eq_ok_iff] at given
  obtain ⟨text, _, ⟨read, rfl⟩, _, _, ⟨rfl, rfl⟩, _, warned, warning, _, failed, failing, rest⟩ := given
  have same : failed.tree = before.tree :=
    ((speaks_messages _ _).eq failing).2.trans ((speaks_messages _ _).eq warning).2
  refine ⟨⟨source, ⟨before.tree, .ofLocation root, table⟩, .ofLocation (source :: commandsPlace root), text, tally⟩,
    rfl, ?_⟩
  split at rest
  · rename_i withheld
    obtain ⟨rfl, rfl⟩ := Run.gives_pure.mp rest
    refine ⟨⟨rfl, rfl, rfl, read, fun open' => ?_⟩, ?_, ?_⟩
    · exact absurd (withheld.symm.trans open') (by simp)
    · exact (if_pos withheld).symm
    · exact same.trans (if_pos withheld).symm
  · rename_i written
    obtain ⟨_, _, replacing, done⟩ := Run.gives_bind.mp rest
    obtain ⟨rfl, rfl⟩ := Run.gives_pure.mp done
    obtain ⟨ready, rfl⟩ := (Run.gives_replaceText (same ▸ plain) (by decide) (by decide)).mp replacing
    rw [same] at ready
    refine ⟨⟨rfl, rfl, rfl, read, fun _ => ready⟩, ?_, ?_⟩
    · exact (if_neg written).symm
    · exact (congrArg (fun tree => replaced tree _ _ _ _) same).trans (if_neg written).symm

/-- Every turn that can be taken is taken when its source is compiled. -/
theorem Starts.gives {before : World} (plain : before.tree.Plain)
    (starts : turn.Starts root table before.tree tally) :
    ∃ after, ((ofPlace root).compileSource table tally turn.source).Gives before turn.next after ∧
      after.tree = turn.after root := by
  obtain ⟨source, project, path, text, sums⟩ := turn
  obtain ⟨against, named, before', read, ready⟩ := starts
  simp only at against named before' read ready
  subst against named before'
  let turn : Turn := ⟨source, ⟨before.tree, .ofLocation root, table⟩, .ofLocation (source :: commandsPlace root), text,
    sums⟩
  obtain ⟨warned, warning, same⟩ := speaks_messages "WARN: ".toList turn.draft.warnings before
  obtain ⟨failed, failing, same'⟩ := speaks_messages "ERROR: ".toList turn.draft.errors warned
  have unchanged : failed.tree = before.tree := same'.trans same
  simp only [compileSource, ofPlace_commands, Path.child_ofLocation, ofPlace_root, artifact_path, Run.gives_bind,
    Run.gives_readText, Run.gives_currentTree, plain.read_eq_ok_iff]
  refine ⟨{ failed with tree := turn.after root },
    ⟨text, _, ⟨read, rfl⟩, _, _, ⟨rfl, rfl⟩, _, warned, warning, _, failed, failing, ?_⟩, rfl⟩
  split
  · rename_i withheld
    refine Run.gives_pure.mpr ⟨(if_pos withheld).symm, ?_⟩
    rw [World.mk.injEq]
    exact ⟨unchanged.trans (if_pos withheld).symm, rfl, rfl⟩
  · rename_i written
    have ready : failed.tree.Replaceable (promptsPlace root) (draftName source) (entryName source) := by
      rw [unchanged]
      exact ready (Bool.eq_false_iff.mpr written)
    refine Run.gives_bind.mpr ⟨(), _,
      (Run.gives_replaceText (unchanged ▸ plain) (by decide) (by decide)).mpr ⟨ready, rfl⟩, Run.gives_pure.mpr ⟨(if_neg written).symm, ?_⟩⟩
    rw [World.mk.injEq]
    exact ⟨(congrArg (fun tree => replaced tree _ _ _ _) unchanged).trans (if_neg written).symm, rfl, rfl⟩

/-! ## What a turn adds to the sums -/

theorem Starts.draft_tally {tree : FileTree} (starts : turn.Starts root table tree tally) :
    turn.draft.tally =
      { tally with stubs := table.stubAll tally.stubs (Draft.toolNames turn.text) }.recordOmitted
        (table.mapTools turn.source.text (Draft.toolNames turn.text)).omitted := by
  rw [draft, Project.compile_tally, starts.project, starts.path, starts.tally, Path.name_ofLocation]

theorem Starts.next_eq {tree : FileTree} (starts : turn.Starts root table tree tally) :
    turn.next.stubs = table.stubAll tally.stubs (Draft.toolNames turn.text) ∧
      turn.next.artifacts = tally.artifacts ++ [nameFor turn.source.text] ∧
      turn.next.withheldCount = tally.withheldCount + (if turn.draft.withheld then 1 else 0) ∧
      turn.next.omittedCount = tally.omittedCount +
        (table.mapTools turn.source.text (Draft.toolNames turn.text)).omitted.length := by
  rw [next, starts.draft_tally]
  split <;> exact ⟨rfl, rfl, rfl, rfl⟩

/-! ## What a turn writes -/

theorem Starts.get?_after {tree : FileTree} (starts : turn.Starts root table tree tally) (place : Location) :
    (turn.after root).get? place =
      if turn.draft.withheld then tree.get? place
      else if place = artifactPlace root turn.source then some (.file turn.draft.output.utf8)
      else if place = draftPlace root turn.source then none
      else tree.get? place := by
  rw [after, starts.project]
  split
  · rfl
  · exact get?_replaced tree _ _ _ _ place

theorem Starts.get?_after_of_not_writes {tree : FileTree} (starts : turn.Starts root table tree tally)
    {place : Location} (kept : ¬ turn.Writes root place) : (turn.after root).get? place = tree.get? place := by
  rw [starts.get?_after]
  split
  · rfl
  · rename_i written
    rw [if_neg fun here => kept ⟨by simpa using written, .inl here⟩,
      if_neg fun here => kept ⟨by simpa using written, .inr here⟩]

theorem Starts.plain_after {tree : FileTree} (plain : tree.Plain) (starts : turn.Starts root table tree tally) :
    (turn.after root).Plain := by
  rw [after, starts.project]
  split
  · exact plain
  · rename_i written
    exact (starts.ready (by simpa using written)).plain_replaced plain _

/-- Different sources are written to different places. -/
theorem source_eq_of_owns {first second : Turn} {place : Location} (isFirst : isSource first.source.text = true)
    (isSecond : isSource second.source.text = true) (owns : first.Owns root place)
    (owns' : second.Owns root place) : first.source = second.source := by
  rcases owns with rfl | rfl <;> rcases owns' with same | same
  · exact entryName_inj isFirst isSecond (List.cons.inj same).1
  · exact absurd (List.cons.inj same).1.symm (draftName_ne_entryName _ _)
  · exact absurd (List.cons.inj same).1 (draftName_ne_entryName _ _)
  · exact draftName_inj isFirst isSecond (List.cons.inj same).1

end Turn

/-! ## Turns that follow one another -/

/-- Turns that are taken one after the other, from a tree and the sums so far to a tree and the sums then. -/
inductive Follows (root : Location) (table : ToolTable) : FileTree → Tally → List Turn → FileTree → Tally → Prop
  | nil {tree : FileTree} {tally : Tally} : Follows root table tree tally [] tree tally
  | cons {tree last : FileTree} {tally sums : Tally} {turn : Turn} {rest : List Turn}
      (starts : turn.Starts root table tree tally)
      (follows : Follows root table (turn.after root) turn.next rest last sums) :
      Follows root table tree tally (turn :: rest) last sums

namespace Follows

variable {root : Location} {table : ToolTable} {tree last : FileTree} {tally sums : Tally} {turns : List Turn}

/-- Compiling the sources of a run is taking turns. -/
theorem of_gives {before after : World} (plain : before.tree.Plain) {sources : List Name} {sums : Tally}
    (given : (sources.foldlM ((ofPlace root).compileSource table) tally).Gives before sums after) :
    ∃ turns : List Turn, turns.map Turn.source = sources ∧
      Follows root table before.tree tally turns after.tree sums := by
  induction sources generalizing before tally with
  | nil =>
    rw [List.foldlM_nil, Run.gives_pure] at given
    obtain ⟨rfl, rfl⟩ := given
    exact ⟨[], rfl, .nil⟩
  | cons source rest ih =>
    rw [List.foldlM_cons, Run.gives_bind] at given
    obtain ⟨next, middle, first, later⟩ := given
    obtain ⟨turn, rfl, starts, rfl, left⟩ := Turn.starts_of_gives plain first
    obtain ⟨turns, rfl, follows⟩ := ih (left ▸ starts.plain_after plain) later
    rw [left] at follows
    exact ⟨turn :: turns, rfl, .cons starts follows⟩

/-- Turns that follow one another are taken when their sources are compiled. -/
theorem gives {before : World} (plain : before.tree.Plain)
    (follows : Follows root table before.tree tally turns last sums) :
    ∃ after, ((turns.map Turn.source).foldlM ((ofPlace root).compileSource table) tally).Gives before sums after ∧
      after.tree = last := by
  induction turns generalizing before tally with
  | nil =>
    cases follows
    exact ⟨before, by rw [List.map_nil, List.foldlM_nil]; exact Run.gives_pure.mpr ⟨rfl, rfl⟩, rfl⟩
  | cons turn rest ih =>
    cases follows with
    | cons starts follows =>
      obtain ⟨middle, first, left⟩ := starts.gives plain
      obtain ⟨after, later, same⟩ := ih (left ▸ starts.plain_after plain) (left ▸ follows)
      refine ⟨after, ?_, same⟩
      rw [List.map_cons, List.foldlM_cons]
      exact Run.gives_bind.mpr ⟨_, middle, first, later⟩

theorem plain_last (follows : Follows root table tree tally turns last sums) (plain : tree.Plain) : last.Plain := by
  induction follows with
  | nil => exact plain
  | cons starts _ ih => exact ih (starts.plain_after plain)

theorem plain_of_mem (follows : Follows root table tree tally turns last sums) (plain : tree.Plain) {turn : Turn}
    (member : turn ∈ turns) : turn.project.tree.Plain := by
  induction follows with
  | nil => cases member
  | cons starts _ ih =>
    rcases List.mem_cons.mp member with rfl | later
    · rw [starts.project]
      exact plain
    · exact ih (starts.plain_after plain) later

/-- What no turn writes stays. -/
theorem get?_last_of_not_writes (follows : Follows root table tree tally turns last sums) {place : Location}
    (kept : ∀ turn ∈ turns, ¬ turn.Writes root place) : last.get? place = tree.get? place := by
  induction follows with
  | nil => rfl
  | cons starts _ ih =>
    rw [ih fun turn member => kept turn (List.mem_cons_of_mem _ member)]
    exact starts.get?_after_of_not_writes (kept _ List.mem_cons_self)

/-- Distinct sources. -/
def Apart (turns : List Turn) : Prop :=
  (turns.map Turn.source).Nodup ∧ ∀ turn ∈ turns, isSource turn.source.text = true

theorem Apart.tail {turn : Turn} {rest : List Turn} (apart : Apart (turn :: rest)) : Apart rest :=
  ⟨(List.nodup_cons.mp apart.1).2, fun other member => apart.2 other (List.mem_cons_of_mem turn member)⟩

/-- The places of a turn are not those of a later one. -/
theorem Apart.not_owns {turn other : Turn} {rest : List Turn} {place : Location} (apart : Apart (turn :: rest))
    (owns : turn.Owns root place) (member : other ∈ rest) : ¬ other.Owns root place := by
  intro owns'
  have same := Turn.source_eq_of_owns (apart.2 turn List.mem_cons_self)
    (apart.2 other (List.mem_cons_of_mem turn member)) owns owns'
  exact (List.nodup_cons.mp apart.1).1 (same ▸ List.mem_map_of_mem member)

/-- The places of a turn are as at first when it is taken, and stay as it leaves them. -/
theorem get?_of_owns (follows : Follows root table tree tally turns last sums) (apart : Apart turns)
    {turn : Turn} (member : turn ∈ turns) {place : Location} (owns : turn.Owns root place) :
    turn.project.tree.get? place = tree.get? place ∧ last.get? place = (turn.after root).get? place := by
  induction follows with
  | nil => cases member
  | @cons tree last tally sums first rest starts follows ih =>
    rcases List.mem_cons.mp member with rfl | later
    · refine ⟨by rw [starts.project], ?_⟩
      exact follows.get?_last_of_not_writes fun other member writes => apart.not_owns owns member writes.2
    · obtain ⟨atFirst, inTheEnd⟩ := ih apart.tail later
      refine ⟨atFirst.trans (starts.get?_after_of_not_writes fun writes => ?_), inTheEnd⟩
      exact apart.not_owns writes.2 later owns

/-- In every turn a place is as at first or as in the end. -/
theorem get?_between (follows : Follows root table tree tally turns last sums) (apart : Apart turns)
    {turn : Turn} (member : turn ∈ turns) (place : Location) :
    turn.project.tree.get? place = tree.get? place ∨ turn.project.tree.get? place = last.get? place := by
  induction follows with
  | nil => cases member
  | @cons tree last tally sums first rest starts follows ih =>
    rcases List.mem_cons.mp member with rfl | later
    · exact .inl (by rw [starts.project])
    · rcases ih apart.tail later with same | same
      · by_cases writes : first.Writes root place
        · have final := follows.get?_last_of_not_writes fun other member writes' =>
            apart.not_owns writes.2 member writes'.2
          exact .inr (same.trans final.symm)
        · exact .inl (same.trans (starts.get?_after_of_not_writes writes))
      · exact .inr same

/-- Every turn is taken in the tree that it is compiled against. -/
theorem starts_of_mem (follows : Follows root table tree tally turns last sums) {turn : Turn}
    (member : turn ∈ turns) : turn.Starts root table turn.project.tree turn.tally := by
  induction follows with
  | nil => cases member
  | cons starts _ ih =>
    rcases List.mem_cons.mp member with rfl | later
    · rw [starts.project, starts.tally]
      exact starts
    · exact ih later

/-- No turn writes where the sources are. -/
theorem not_writes_source (turn : Turn) (source : Name) : ¬ turn.Writes root (source :: commandsPlace root) := by
  rintro ⟨-, same | same⟩
  · exact promptsPlace_ne_commandsPlace root (List.cons.inj same).2.symm
  · exact promptsPlace_ne_commandsPlace root (List.cons.inj same).2.symm

/-- The sources are read as they are at first. -/
theorem read_first (follows : Follows root table tree tally turns last sums) {turn : Turn} (member : turn ∈ turns) :
    tree.get? (turn.source :: commandsPlace root) = some (.file turn.text.utf8) := by
  induction follows with
  | nil => cases member
  | cons starts _ ih =>
    rcases List.mem_cons.mp member with rfl | later
    · exact starts.read
    · rw [← ih later]
      exact (starts.get?_after_of_not_writes (not_writes_source _ _)).symm

/-- What the turns add to the sums. -/
theorem sums_eq (follows : Follows root table tree tally turns last sums) :
    sums.stubs = table.stubAll tally.stubs (turns.flatMap fun turn => Draft.toolNames turn.text) ∧
      sums.artifacts = tally.artifacts ++ turns.map (fun turn => nameFor turn.source.text) ∧
      sums.withheldCount = tally.withheldCount + turns.countP (·.draft.withheld) ∧
      sums.omittedCount = tally.omittedCount + (turns.flatMap fun turn =>
        (table.mapTools turn.source.text (Draft.toolNames turn.text)).omitted).length := by
  induction follows with
  | nil => simp [ToolTable.stubAll]
  | cons starts _ ih =>
    obtain ⟨stubs, artifacts, withheld, omitted⟩ := starts.next_eq
    refine ⟨?_, ?_, ?_, ?_⟩
    · rw [ih.1, stubs, List.flatMap_cons, ToolTable.stubAll, ToolTable.stubAll, ToolTable.stubAll, List.foldl_append]
    · rw [ih.2.1, artifacts, List.map_cons, List.append_assoc, List.singleton_append]
    · rw [ih.2.2.1, withheld, List.countP_cons, Nat.add_assoc, Nat.add_comm (ite _ _ _)]
    · rw [ih.2.2.2, omitted, List.flatMap_cons, List.length_append, Nat.add_assoc]

end Follows

end PromptCompiler
