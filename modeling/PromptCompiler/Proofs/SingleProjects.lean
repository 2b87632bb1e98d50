import PromptCompiler.Proofs.Commands
import PromptCompiler.Proofs.CompileEffect

/-! # Projects with one source

A project with one source and a table that knows the tools of the source is compiled in one turn, whatever else the
source says, unless the artifact is withheld.
-/

namespace PromptCompiler

open FileTree Artifact

namespace Layout

variable {table : ToolTable} {text : Text}

/-- A project with a table, one source and a directory for the artifacts. -/
def singleTree (table : ToolTable) (text : Text) : FileTree where
  entries :=
    [(scriptsPlace [], .directory),
     (tablePlace [], .file table.fileText.utf8),
     ((promptsPlace []).tail, .directory),
     (promptsPlace [], .directory),
     ((commandsPlace []).tail, .directory),
     (commandsPlace [], .directory),
     (sampleName :: commandsPlace [], .file text.utf8)]

def singleWorld (table : ToolTable) (text : Text) : World := ⟨singleTree table text, [], []⟩

/-- The turn in which the source is compiled. -/
def singleTurn (table : ToolTable) (text : Text) : Turn where
  source := sampleName
  project := ⟨singleTree table text, .ofLocation [], table⟩
  path := .ofLocation (sampleName :: commandsPlace [])
  text := text
  tally := .empty

theorem singleTree_plain : (singleTree table text).Plain := Plain.of_isPlain rfl

private theorem singleTree_names (table : ToolTable) (text : Text) :
    (singleTree table text).names (commandsPlace []) = [sampleName] ∧
      (singleTree table text).names (promptsPlace []) = [] := by
  constructor
  · change ([sampleName] : List Name).mergeSort _ = _
    exact List.mergeSort_singleton _
  · change ([] : List Name).mergeSort _ = _
    exact List.mergeSort_nil

private theorem sourceNames_singleTree (table : ToolTable) (text : Text) :
    sourceNames [] (singleTree table text) = [sampleName] := by
  rw [sourceNames, fileNames, (singleTree_names table text).1]
  rfl

private theorem singleTree_loads (table : ToolTable) (text : Text) :
    (singleTree table text).Loads (tablePlace []) table := by
  have there : (singleTree table text).get? (tablePlace []) = some (.file table.fileText.utf8) := rfl
  rw [Loads, there]
  exact ToolTable.ofBytes_fileText table

private theorem singleTurn_starts (table : ToolTable) (text : Text) :
    (singleTurn table text).Starts [] table (singleTree table text) .empty := by
  refine ⟨rfl, rfl, rfl, rfl, fun _ => ?_⟩
  have directory : (singleTree table text).get? (promptsPlace []) = some .directory := rfl
  have draft : (singleTree table text).get? (draftPlace [] sampleName) = none := rfl
  have artifact : (singleTree table text).get? (artifactPlace [] sampleName) = none := rfl
  have allowed : (∀ name ∈ draftPlace [] sampleName, Allowed name) ∧ ∀ name ∈ artifactPlace [] sampleName, Allowed name := by
    decide
  constructor
  · exact (reaches_cons_iff _ _).mpr ⟨allowed.1, directory⟩
  · exact fun there => by cases draft.symm.trans there
  · exact (reaches_cons_iff _ _).mpr ⟨allowed.2, directory⟩
  · exact fun there => by cases artifact.symm.trans there

private theorem singleTurn_follows (table : ToolTable) (text : Text) :
    Follows [] table (singleTree table text) .empty [singleTurn table text] ((singleTurn table text).after [])
      (singleTurn table text).next := .cons (singleTurn_starts table text) .nil

/-- The turn writes nothing but the artifact of the source. -/
private theorem get?_after_singleTurn {place : Location}
    (outside : ¬ (place = artifactPlace [] sampleName ∨ place = draftPlace [] sampleName)) :
    ((singleTurn table text).after []).get? place = (singleTree table text).get? place :=
  (singleTurn_starts table text).get?_after_of_not_writes fun writes => outside writes.2

/-- No other artifact is there after the turn. -/
private theorem orphans_singleTurn (table : ToolTable) (text : Text) :
    orphans ((singleTurn table text).after []) (promptsPlace []) [nameFor sampleName.text] = [] := by
  refine List.eq_nil_iff_forall_not_mem.mpr fun name orphan => ?_
  obtain ⟨⟨content, there⟩, -, unexpected⟩ := mem_orphans_iff.mp orphan
  have apart : name ≠ entryName sampleName := fun same => unexpected (same ▸ List.mem_singleton_self _)
  have absent : (singleTree table text).get? (name :: promptsPlace []) = none := by
    have unlisted : name ∉ (singleTree table text).names (promptsPlace []) := by
      rw [(singleTree_names table text).2]
      exact List.not_mem_nil
    rwa [mem_names_iff, Decidable.not_not] at unlisted
  rw [(singleTurn_starts table text).get?_after, absent] at there
  have elsewhere : name :: promptsPlace [] ≠ artifactPlace [] (singleTurn table text).source :=
    fun here => apart (List.cons.inj here).1
  rw [if_neg elsewhere, ite_self, ite_self] at there
  cases there

private theorem gives_load_singleWorld (table : ToolTable) (text : Text) : ∃ output complaints,
    (ToolTable.load (ofPlace []).table).Gives (singleWorld table text) table
      ⟨singleTree table text, output, complaints⟩ := by
  have plain : (singleWorld table text).tree.Plain := singleTree_plain
  obtain ⟨⟨tree, output, complaints⟩, loading, same⟩ :=
    ToolTable.gives_load plain (by decide) (singleTree_loads table text)
  obtain rfl : tree = singleTree table text := same
  rw [ofPlace_table]
  exact ⟨output, complaints, loading⟩

/-- The turn is the only one. -/
theorem turnsIn_singleWorld (table : ToolTable) (text : Text) :
    (ofPlace []).turnsIn (singleWorld table text) = [singleTurn table text] := by
  obtain ⟨output, complaints, loading⟩ := gives_load_singleWorld table text
  let loaded : World := ⟨singleTree table text, output, complaints⟩
  have plain : loaded.tree.Plain := singleTree_plain
  have making : (Run.ensureDirectory (ofPlace []).prompts).Gives loaded () loaded := by
    rw [ofPlace_prompts]
    exact Run.gives_ensureDirectory.mpr ⟨_, plain.ensureDirectory_eq_self rfl, rfl⟩
  obtain ⟨last, recorded⟩ := recordTurns_gives plain (singleTurn_follows table text)
  have steps : (ofPlace []).recorded.Gives (singleWorld table text) [singleTurn table text] last := by
    refine Run.gives_bind.mpr ⟨table, loaded, loading, ?_⟩
    refine Run.gives_bind.mpr ⟨_, loaded, Run.gives_ask.mpr ⟨sources_eq plain rfl, rfl⟩, ?_⟩
    rw [sourceNames_singleTree, if_neg (by simp)]
    exact Run.gives_bind.mpr ⟨(), loaded, making, recorded⟩
  exact turnsIn_eq steps

/-- A project whose table knows the tools of its only source is compiled in one turn, and the table stays. -/
theorem gives_compile_singleWorld (known : ∀ name ∈ Draft.toolNames text, table.fate name ≠ .unknown)
    (written : (singleTurn table text).draft.withheld = false) :
    ∃ tally middle, (ofPlace []).compile.Gives (singleWorld table text) (tally, 1) middle ∧
      tally.withheldCount = 0 ∧ middle.tree.get? (tablePlace []) = some (.file table.fileText.utf8) := by
  obtain ⟨output, complaints, loading⟩ := gives_load_singleWorld table text
  let loaded : World := ⟨singleTree table text, output, complaints⟩
  have plain : loaded.tree.Plain := singleTree_plain
  have follows := singleTurn_follows table text
  have sources : sourceNames [] loaded.tree = [sampleName] := sourceNames_singleTree table text
  obtain ⟨stubs, artifacts, withheld, -⟩ := (singleTurn_starts table text).next_eq
  obtain ⟨ending, folded, ended⟩ := follows.gives plain
  refine ⟨(singleTurn table text).next, ending, ?_, ?_, ?_⟩
  · have noStubs : (singleTurn table text).next.stubs.entries = [] := by
      rw [stubs]
      exact congrArg OrderedMap.entries (ToolTable.stubAll_of_known .empty known)
    have spare : orphans ending.tree (promptsPlace []) (singleTurn table text).next.artifacts = [] := by
      rw [ended, artifacts]
      exact orphans_singleTurn table text
    have prompts : ending.tree.get? (promptsPlace []) = some .directory := by
      rw [ended, get?_after_singleTurn (by decide)]
      rfl
    have plain' : ending.tree.Plain := by
      rw [ended]
      exact follows.plain_last plain
    have each : ((sourceNames [] loaded.tree).foldlM ((ofPlace []).compileSource table) .empty).Gives loaded
        (singleTurn table text).next ending := by
      rw [sources]
      exact folded
    have one : (sourceNames [] loaded.tree).length = 1 := by rw [sources, List.length_singleton]
    rw [← one]
    exact gives_compile loading plain rfl rfl (by simp [sources]) each plain' prompts spare noStubs
  · rw [withheld, written]
    rfl
  · rw [ended, get?_after_singleTurn (by decide)]
    rfl

end Layout

open Layout

namespace CommandLine

variable {table : ToolTable} {text : Text}

theorem compile_singleWorld (known : ∀ name ∈ Draft.toolNames text, table.fate name ≠ .unknown)
    (written : (singleTurn table text).draft.withheld = false) :
    ∃ after, (compile [] []).run (singleWorld table text) = (0, after) ∧
      after.tree.get? (tablePlace []) = some (.file table.fileText.utf8) ∧
      (ofPlace []).turnsIn (singleWorld table text) = [singleTurn table text] := by
  obtain ⟨tally, middle, compiled, complete, kept⟩ := gives_compile_singleWorld known written
  have code : reportCode false tally 1 = 0 := reportCode_eq_zero_iff.mpr ⟨by decide, complete, by simp⟩
  obtain ⟨after, ended, same⟩ := compile_zero_of_gives calls_sample singleTree_plain rfl rfl compiled code
  exact ⟨after, ended, by rw [same, kept], turnsIn_singleWorld table text⟩

/-- A table with one tool. -/
def singleTable (value : Text) : ToolTable := .ofList [("Read".toList, value)]

/-- A source with a description that declares the tool of such a table. -/
def describedSource (description : Text) : Text :=
  "---\ndescription: ".toList ++ description ++ "\nallowed-tools: [Read]\n---\n".toList

end CommandLine

end PromptCompiler
