import Mathlib.Algebra.GroupWithZero.Nat
import PromptCompiler.Proofs.Drafts
import PromptCompiler.Proofs.LowerCase
import PromptCompiler.Proofs.ToolTables

/-! # Documents with shared sums

Documents that are compiled one after the other share the sums of the run. Nothing but the sums depends on the
sums, so that a document has the draft that it has on its own. In the end the sums are those of the drafts:
the omitted tools, how often tools were omitted, and one stub for each omitted tool that no key of the table
is alike. The three collections leave out repetitions at different times and by different tests. As the tools
of documents are in lower case, names that are alike are equal, and all three come to the same.
-/

namespace PromptCompiler

/-! ## Leaving out repetitions -/

theorem filter_eraseDups (keeps : Text → Bool) (texts : List Text) :
    (texts.filter keeps).eraseDups = texts.eraseDups.filter keeps := by
  match texts with
  | [] => rfl
  | text :: rest =>
    have ih := filter_eraseDups keeps (rest.filter fun other => !other == text)
    rw [List.filter_filter] at ih
    rw [List.eraseDups_cons]
    by_cases kept : keeps text = true
    · rw [List.filter_cons_of_pos kept, List.filter_cons_of_pos kept, List.eraseDups_cons, ← ih, List.filter_filter]
      simp only [Bool.and_comm]
    · -- A text that is dropped takes no other text with it.
      rw [List.filter_cons_of_neg kept, List.filter_cons_of_neg kept, ← ih]
      refine congrArg List.eraseDups (List.filter_congr fun other _ => ?_)
      by_cases same : other = text
      · simp [same, kept]
      · simp [same]
  termination_by texts.length
  decreasing_by exact Nat.lt_succ_of_le (List.length_filter_le _ _)

private theorem eraseDups_eraseDups (texts : List Text) : texts.eraseDups.eraseDups = texts.eraseDups := by
  match texts with
  | [] => rfl
  | text :: rest =>
    have ih := eraseDups_eraseDups (rest.filter fun other => !other == text)
    rw [List.eraseDups_cons, List.eraseDups_cons, ← filter_eraseDups, List.filter_filter]
    simp only [Bool.and_self, ih]
  termination_by texts.length
  decreasing_by exact Nat.lt_succ_of_le (List.length_filter_le _ _)

/-- A test that finds the members of a list alike only if they are equal leaves out the repetitions. -/
theorem eraseDupsBy_eq_eraseDups {alike : Text → Text → Bool} {texts : List Text}
    (exact : ∀ first ∈ texts, ∀ second ∈ texts, alike first second = (first == second)) :
    texts.eraseDupsBy alike = texts.eraseDups := by
  match texts with
  | [] => rfl
  | text :: rest =>
    have others : rest.filter (fun other => decide (alike other text = false)) =
        rest.filter fun other => !other == text := by
      refine List.filter_congr fun other member => ?_
      rw [exact other (List.mem_cons_of_mem _ member) text List.mem_cons_self]
      cases other == text <;> rfl
    rw [List.eraseDupsBy_cons, List.eraseDups_cons, others]
    refine congrArg (text :: ·) (eraseDupsBy_eq_eraseDups fun first member second member' => ?_)
    exact exact first (List.mem_cons_of_mem _ (List.mem_filter.mp member).1)
      second (List.mem_cons_of_mem _ (List.mem_filter.mp member').1)
  termination_by texts.length
  decreasing_by exact Nat.lt_succ_of_le (List.length_filter_le _ _)

namespace Text

private theorem distinct_distinct_append (first second : List Text) :
    distinct (distinct first ++ second) = distinct (first ++ second) := by
  have members : second.removeAll first.eraseDups = second.removeAll first := by
    refine List.filter_congr fun text _ => congrArg (!·) ?_
    rw [Bool.eq_iff_iff, List.elem_iff, List.elem_iff, List.mem_eraseDups]
  simp only [distinct, List.eraseDups_append, eraseDups_eraseDups, members]

private theorem distinct_append_distinct (first second : List Text) :
    distinct (first ++ distinct second) = distinct (first ++ second) := by
  simp only [distinct, List.eraseDups_append, List.removeAll, filter_eraseDups, eraseDups_eraseDups]

end Text

/-! ## What a document takes from the sums -/

namespace Draft

/-- The draft without the sums of the run. -/
def withoutTally (draft : Draft) : Draft := { draft with tally := .empty }

private theorem checkFences_omitted (draft : Draft) : draft.checkFences.omitted = draft.omitted := by
  rw [checkFences]
  split <;> rfl

private theorem withoutTally_checkFences (draft : Draft) :
    draft.checkFences.withoutTally = draft.withoutTally.checkFences := by
  have same : draft.withoutTally.output = draft.output := rfl
  rw [checkFences, checkFences, same]
  cases (Fence.scan draft.output).openLine with
  | none => rfl
  | some line => rfl

/-- The tools of a source are in lower case. -/
theorem lower_of_mem_toolNames {source name : Text} (member : name ∈ toolNames source) : Text.lower name = name := by
  rw [toolNames, ToolDeclaration.lowered] at member
  cases written : (ToolDeclaration.ofText source).names with
  | none =>
    rw [written] at member
    cases member
  | some names =>
    rw [written] at member
    obtain ⟨name, -, rfl⟩ := List.mem_map.mp member
    exact Text.lower_lower name

end Draft

namespace Project

/-- What becomes of a document does not depend on the documents before it. -/
theorem compile_withoutTally (project : Project) (path : Path) (source : Text) (tally tally' : Tally) :
    (project.compile path source tally).withoutTally = (project.compile path source tally').withoutTally := by
  simp only [compile_eq, Draft.complete, Draft.withoutTally_checkFences]
  rfl

theorem compile_omitted (project : Project) (path : Path) (source : Text) (tally : Tally) :
    (project.compile path source tally).omitted =
      Text.distinct ((Draft.toolNames source).filter project.table.omits) := by
  rw [compile_eq, Draft.complete, Draft.checkFences_omitted]
  rfl

/-- Documents compiled one after the other, each with the sums that the one before it leaves: the drafts, and
the sums in the end. -/
def compileInOrder (project : Project) (tally : Tally) : List (Path × Text) → List Draft × Tally
  | [] => ([], tally)
  | (path, source) :: rest =>
    let draft := project.compile path source tally
    let (drafts, sums) := compileInOrder project draft.tally rest
    (draft :: drafts, sums)

end Project

/-- A tool is unknown exactly if it is omitted and no key of the table is alike. -/
theorem ToolTable.fate_eq_unknown_iff_omits {table : ToolTable} {name : Text} :
    table.fate name = .unknown ↔
      table.omits name = true ∧ ∀ key ∈ table.keys, Text.lower key ≠ Text.lower name := by
  have absent : (∀ key ∈ table.keys, Text.lower key ≠ Text.lower name) ↔ table.lookup? name = none := by
    simp [lookup?_eq_none_iff, alike]
  rw [absent, omits, target?]
  cases decided : table.fate name with
  | unknown => simp [(fate_eq_unknown_iff.mp decided).2]
  | passedOn => simp
  | mapped target => simp
  | declined =>
    refine iff_of_false (by simp) fun missing => ?_
    unfold fate at decided
    rw [missing.2] at decided
    split at decided <;> cases decided

/-! ## What the sums hold -/

/-- What the sums are when documents that declare some tools have been compiled. -/
structure Tally.AddsUp (table : ToolTable) (names : List Text) (drafts : List Draft) (sums : Tally) : Prop where
  /-- The stubs are those that the tools leave, taken one by one. -/
  stubs : sums.stubs = table.stubAll .empty names
  /-- The omitted tools are those of the drafts, each at its first occurrence. -/
  omittedNames : sums.omittedNames = Text.distinct (drafts.flatMap (·.omitted))
  /-- Each draft counts with all of its omitted tools. -/
  omittedCount : sums.omittedCount = (drafts.map (·.omitted.length)).sum
  /-- The drafts omit those of the tools that have no name in prompts. -/
  omitted : Text.distinct (drafts.flatMap (·.omitted)) = Text.distinct (names.filter table.omits)

namespace Tally.AddsUp

variable {project : Project} {table : ToolTable} {names : List Text} {drafts : List Draft} {tally sums : Tally}

theorem empty (table : ToolTable) : AddsUp table [] [] .empty where
  stubs := rfl
  omittedNames := rfl
  omittedCount := rfl
  omitted := rfl

/-- One more document adds its tools and its draft. -/
theorem compile (sum : AddsUp project.table names drafts tally) (path : Path) (source : Text) :
    AddsUp project.table (names ++ Draft.toolNames source) (drafts ++ [project.compile path source tally])
      (project.compile path source tally).tally where
  stubs := by
    have collected : (project.compile path source tally).tally.stubs =
        project.table.stubAll tally.stubs (Draft.toolNames source) := by
      rw [Project.compile_tally]
      rfl
    rw [collected, sum.stubs, ToolTable.stubAll, ToolTable.stubAll, ToolTable.stubAll, List.foldl_append]
  omittedNames := by
    have recorded : (project.compile path source tally).tally.omittedNames =
        Text.distinct (tally.omittedNames ++ (project.compile path source tally).omitted) := by
      rw [Project.compile_tally, Project.compile_omitted]
      rfl
    rw [recorded, sum.omittedNames, Text.distinct_distinct_append, List.flatMap_append, List.flatMap_singleton]
  omittedCount := by
    have counted : (project.compile path source tally).tally.omittedCount =
        tally.omittedCount + (project.compile path source tally).omitted.length := by
      rw [Project.compile_tally, Project.compile_omitted]
      rfl
    rw [counted, sum.omittedCount, List.map_append, List.sum_append, List.map_singleton, List.sum_singleton]
  omitted := by
    rw [List.flatMap_append, List.flatMap_singleton, Project.compile_omitted, List.filter_append,
      Text.distinct_append_distinct, ← Text.distinct_distinct_append, sum.omitted, Text.distinct_distinct_append]

/-- A run adds the tools and the drafts of all documents. -/
theorem compileInOrder (sum : AddsUp project.table names drafts tally) (documents : List (Path × Text)) :
    AddsUp project.table (names ++ documents.flatMap fun document => Draft.toolNames document.2)
      (drafts ++ (project.compileInOrder tally documents).1) (project.compileInOrder tally documents).2 := by
  induction documents generalizing names drafts tally with
  | nil => simpa [Project.compileInOrder] using sum
  | cons document rest ih =>
    obtain ⟨path, source⟩ := document
    simpa only [Project.compileInOrder, List.flatMap_cons, List.append_assoc, List.singleton_append] using
      ih (sum.compile path source)

/-- If the tools are in lower case, the stubs are the omitted tools that no key of the table is alike. -/
theorem stubs_entries (sum : AddsUp table names drafts sums) (lowered : ∀ name ∈ names, Text.lower name = name) :
    sums.stubs.entries = (sums.omittedNames.filter fun name =>
      ∀ key ∈ table.keys, Text.lower key ≠ Text.lower name).map (·, ToolTable.unmapped) := by
  have pending : (names.filter fun name => table.fate name = .unknown ∧ ToolTable.lookup? .empty name = none) =
      names.filter fun name => decide (∀ key ∈ table.keys, Text.lower key ≠ Text.lower name) && table.omits name := by
    refine List.filter_congr fun name _ => ?_
    have free : ToolTable.lookup? .empty name = none := rfl
    rw [Bool.eq_iff_iff, decide_eq_true_iff, Bool.and_eq_true, decide_eq_true_iff, ToolTable.fate_eq_unknown_iff_omits]
    exact ⟨fun missing => missing.1.symm, fun missing => ⟨missing.symm, free⟩⟩
  have noStubs : (OrderedMap.empty : ToolTable).entries = [] := rfl
  rw [sum.stubs, ToolTable.stubAll_entries, sum.omittedNames, sum.omitted, Text.distinct, ← filter_eraseDups,
    List.filter_filter, pending, eraseDupsBy_eq_eraseDups, noStubs, List.nil_append]
  intro first member second member'
  rw [ToolTable.alike, lowered first (List.mem_filter.mp member).1, lowered second (List.mem_filter.mp member').1]
  rw [Bool.eq_iff_iff, decide_eq_true_iff, beq_iff_eq]

end Tally.AddsUp

/-! ## Documents on their own, and sums that are theirs -/

namespace Project

private theorem withoutTally_compileInOrder (project : Project) (tally : Tally) (documents : List (Path × Text)) :
    (project.compileInOrder tally documents).1.map Draft.withoutTally =
      documents.map fun document => (project.compile document.1 document.2 .empty).withoutTally := by
  induction documents generalizing tally with
  | nil => rfl
  | cons document rest ih =>
    obtain ⟨path, source⟩ := document
    simp only [compileInOrder, List.map_cons, ih, compile_withoutTally project path source tally .empty]

/-- Whatever documents are compiled one after the other, each has the draft that it has on its own but for the
sums; the sums in the end hold the omitted tools at their first occurrences, how many the drafts omit, and one
stub without a counterpart for each omitted tool that no key of the table equals in lower case, in the order of
the omitted tools. -/
theorem compileInOrder_independent (project : Project) (documents : List (Path × Text)) :
    let (drafts, sums) := project.compileInOrder .empty documents
    drafts.map Draft.withoutTally =
        documents.map (fun document => (project.compile document.1 document.2 .empty).withoutTally) ∧
      sums.omittedNames = Text.distinct (drafts.flatMap (·.omitted)) ∧
      sums.omittedCount = (drafts.map (·.omitted.length)).sum ∧
      sums.stubs.entries = (sums.omittedNames.filter fun name =>
        ∀ key ∈ project.table.keys, Text.lower key ≠ Text.lower name).map (·, ToolTable.unmapped) := by
  have sum := (Tally.AddsUp.empty project.table).compileInOrder documents
  rw [List.nil_append, List.nil_append] at sum
  refine ⟨withoutTally_compileInOrder project .empty documents, sum.omittedNames, sum.omittedCount, ?_⟩
  refine sum.stubs_entries fun name member => ?_
  obtain ⟨document, -, declared⟩ := List.mem_flatMap.mp member
  exact Draft.lower_of_mem_toolNames declared

end Project

end PromptCompiler
