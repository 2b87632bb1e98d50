import Mathlib.Data.List.Basic
import PromptCompiler.Proofs.CompileEffect
import PromptCompiler.Proofs.Findings
import PromptCompiler.Proofs.Tallies
import PromptCompiler.Proofs.ToolComments

/-! # Findings about single sources

Apart from the threshold, a check goes through the sources and looks at each of them together with the artifact
of its name. What it finds about a source carries that name. So two reviews that differ in one source and its
artifact have the same findings about all other artifacts, unless one of them ends without any, at a comment that
the reader of JSON gives up. The sources share the sums of a run while the staleness check compiles them, and
nothing that it compares depends on these sums.
-/

namespace PromptCompiler

/-- What is read off the entries of a map is read off its keys and their values. -/
theorem OrderedMap.flatMap_entries {α β : Type} (map : OrderedMap α) (read : Text → α → List β) :
    map.entries.flatMap (fun entry => read entry.1 entry.2) =
      map.keys.flatMap fun key => ((map.get? key).map (read key)).getD [] := by
  rw [keys, List.flatMap_map]
  refine List.flatMap_congr fun entry member => ?_
  have known : map.get? entry.1 = some entry.2 := get?_of_mem member
  rw [known, Option.map_some, Option.getD_some]

namespace Review

open Artifact

variable {review other : Review} {check : Check}

/-! ## One source at a time -/

/-- What a check finds about a source carries the name of its artifact. -/
theorem artifact_of_mem_findsAbout {source text : Text} {diagnostic : Diagnostic}
    (member : diagnostic ∈ review.findsAbout source text check) : diagnostic.artifact = nameFor source := by
  obtain ⟨message, rfl⟩ := exists_message_of_mem_findsAbout member
  rfl

/-- A check looks at no artifact but that of the source. -/
theorem findsAbout_congr (project : review.project = other.project) (commands : review.commands = other.commands)
    {source : Text} (artifact : review.artifacts.get? (nameFor source) = other.artifacts.get? (nameFor source))
    (text : Text) (check : Check) : review.findsAbout source text check = other.findsAbout source text check := by
  by_cases covers : check = .coverage
  · subst covers
    rw [findsAbout, findsAbout, checkCoverage, checkCoverage, OrderedMap.contains, OrderedMap.contains, artifact]
  · have alike (content : Text) : review.findsIn source text content check = other.findsIn source text content check := by
      cases check with
      | threshold | coverage | integrity => rfl
      | toolAccuracy =>
        have compared (declared : Option (List Text)) :
            review.compareTools source content declared = other.compareTools source content declared := by
          cases declared with
          | none => rfl
          | some names => rw [compareTools, compareTools, expectedTools, expectedTools, project]
        simp only [findsIn, toolFindings, compared]
      | staleness => rw [findsIn, findsIn, checkStaleness, checkStaleness, draft, draft, project, commands]
    rw [findsAbout_eq review source text covers, findsAbout_eq other source text covers, artifact]
    simp only [alike]

/-! ## Reviews that differ in one source -/

/-- Two reviews look at the same project and at sources of the same names, and all texts are the same in both
but for those of one source and of the artifact of its name, which need not be there in both. -/
structure AgreeBut (source : Text) (review other : Review) : Prop where
  project : review.project = other.project
  commands : review.commands = other.commands
  minimum : review.minimum = other.minimum
  keys : review.sources.keys = other.sources.keys
  texts : ∀ name, name ≠ source → review.sources.get? name = other.sources.get? name
  artifacts : ∀ name, name ≠ nameFor source → review.artifacts.get? name = other.artifacts.get? name

/-- The findings that are not about the artifact of a source. -/
def elsewhere (source : Text) (found : List Diagnostic) : List Diagnostic :=
  found.filter fun diagnostic => diagnostic.artifact ≠ nameFor source

namespace AgreeBut

variable {source : Text}

theorem checkThreshold (agree : AgreeBut source review other) : review.checkThreshold = other.checkThreshold := by
  have count : review.sources.entries.length = other.sources.entries.length := by
    simpa only [OrderedMap.keys, List.length_map] using congrArg List.length agree.keys
  rw [Review.checkThreshold, Review.checkThreshold, count, agree.minimum]

/-- What is found about any source, that one included, is the same but for the findings about the one artifact. -/
theorem elsewhere_findsAbout (agree : AgreeBut source review other) (check : Check) (name : Text) :
    elsewhere source (((review.sources.get? name).map (review.findsAbout name · check)).getD []) =
      elsewhere source (((other.sources.get? name).map (other.findsAbout name · check)).getD []) := by
  by_cases same : nameFor name = nameFor source
  · -- A source whose artifact has that name has no other findings.
    have nothing (text? : Option Text) (review : Review) :
        elsewhere source ((text?.map (review.findsAbout name · check)).getD []) = [] := by
      cases text? with
      | none => rfl
      | some text =>
        refine List.filter_eq_nil_iff.mpr fun diagnostic member => ?_
        rw [artifact_of_mem_findsAbout member, same]
        simp
    rw [nothing, nothing]
  · have apart : name ≠ source := fun equal => same (congrArg nameFor equal)
    have alike : (review.findsAbout name · check) = (other.findsAbout name · check) := by
      funext text
      exact findsAbout_congr agree.project agree.commands (agree.artifacts _ same) text check
    rw [agree.texts name apart, alike]

private theorem elsewhere_finds (agree : AgreeBut source review other) (check : Check) :
    elsewhere source (review.finds check) = elsewhere source (other.finds check) := by
  by_cases single : check = .threshold
  · rw [single]
    exact congrArg (elsewhere source) agree.checkThreshold
  · rw [finds_eq_flatMap review single, finds_eq_flatMap other single,
      review.sources.flatMap_entries fun name text => review.findsAbout name text check,
      other.sources.flatMap_entries fun name text => other.findsAbout name text check, elsewhere, elsewhere,
      List.filter_flatMap, List.filter_flatMap, agree.keys]
    exact List.flatMap_congr fun name _ => agree.elsewhere_findsAbout check name

private theorem elsewhere_findings (agree : AgreeBut source review other) :
    elsewhere source review.findings = elsewhere source other.findings := by
  rw [findings, findings, elsewhere, elsewhere, List.filter_flatMap, List.filter_flatMap]
  exact List.flatMap_congr fun check _ => agree.elsewhere_finds check

end AgreeBut

/-! ## Sources that share the sums of a run -/

/-- What the staleness check finds about sources that are compiled one after the other, each with the sums that
the one before it leaves. A source without an artifact is not compiled. -/
def staleInOrder (review : Review) (tally : Tally) : List (Text × Text) → List Diagnostic
  | [] => []
  | (source, text) :: rest =>
    match review.artifacts.get? (nameFor source) with
    | none => review.staleInOrder tally rest
    | some content =>
      let draft := review.project.compile (review.commands.join source) text tally
      checkDraft draft source content ++ review.staleInOrder draft.tally rest

/-- What is compared does not depend on the sums. -/
theorem checkDraft_compile (review : Review) (source text content : Text) (tally : Tally) :
    checkDraft (review.project.compile (review.commands.join source) text tally) source content =
      review.checkStaleness source text content := by
  have alike := review.project.compile_withoutTally (review.commands.join source) text tally .empty
  have same := congrArg (fun draft => checkDraft draft source content) alike
  exact same

/-- The staleness check finds the same with any sums. -/
theorem run_staleness_eq (review : Review) (tally : Tally) :
    review.run .staleness = .ok (review.staleInOrder tally review.sources.entries) := by
  rw [run_eq_ok (by decide), finds_eq_flatMap review (by decide)]
  refine congrArg Except.ok ?_
  generalize review.sources.entries = entries
  induction entries generalizing tally with
  | nil => rfl
  | cons entry rest ih =>
    obtain ⟨source, text⟩ := entry
    rw [staleInOrder, List.flatMap_cons, findsAbout_eq review source text (by decide)]
    cases there : review.artifacts.get? (nameFor source) with
    | none => exact ih tally
    | some content =>
      dsimp only
      rw [checkDraft_compile, ← ih]
      rfl

/-! ## Findings about the other artifacts -/

/-- Whether two reviews end and find the same about all artifacts but that of a source, in the same order. -/
def SameElsewhere (source : Text) (first second : Except Json.Stop (List Diagnostic)) : Prop :=
  ∃ found found', first = .ok found ∧ second = .ok found' ∧ elsewhere source found = elsewhere source found'

private theorem elsewhere_filter (source : Text) (counts : Diagnostic → Bool) (found : List Diagnostic) :
    elsewhere source (found.filter counts) = (elsewhere source found).filter counts := by
  rw [elsewhere, elsewhere, List.filter_filter, List.filter_filter]
  exact List.filter_congr fun diagnostic _ => Bool.and_comm _ _

/-- Reviews that differ in one source and its artifact end with the same errors and the same warnings about all other
artifacts, in the same order, exactly if neither of them comes upon a comment whose list is nested too deep for the
reader of JSON. This holds provided that neither comes upon one with half a pair of code units. In both the staleness
check finds what it finds when the sources are compiled one after the other with the sums of one run, whatever these
are at first. -/
theorem findings_elsewhere_iff {source : Text} (agree : AgreeBut source review other)
    (whole : ¬ review.StopsAt .halfPair ∧ ¬ other.StopsAt .halfPair) :
    (SameElsewhere source review.errors other.errors ∧ SameElsewhere source review.warnings other.warnings ↔
      ∀ container, ¬ review.StopsAt (.tooDeep container) ∧ ¬ other.StopsAt (.tooDeep container)) ∧
    ∀ tally, review.run .staleness = .ok (review.staleInOrder tally review.sources.entries) ∧
      other.run .staleness = .ok (other.staleInOrder tally other.sources.entries) := by
  refine ⟨⟨?_, fun shallow => ?_⟩, fun tally => ⟨review.run_staleness_eq tally, other.run_staleness_eq tally⟩⟩
  · rintro ⟨⟨errors, errors', ended, ended', -⟩, -⟩ container
    exact ⟨(errors_eq_ok_iff.mp ended).1 _, (errors_eq_ok_iff.mp ended').1 _⟩
  · have auditable : review.Auditable := by
      rintro (container | _)
      · exact (shallow container).1
      · exact whole.1
    have auditable' : other.Auditable := by
      rintro (container | _)
      · exact (shallow container).2
      · exact whole.2
    refine ⟨⟨_, _, errors_eq_ok_iff.mpr ⟨auditable, rfl⟩, errors_eq_ok_iff.mpr ⟨auditable', rfl⟩, ?_⟩,
      ⟨_, _, warnings_eq_ok_iff.mpr ⟨auditable, rfl⟩, warnings_eq_ok_iff.mpr ⟨auditable', rfl⟩, ?_⟩⟩
    · rw [elsewhere_filter, elsewhere_filter, agree.elsewhere_findings]
    · rw [elsewhere_filter, elsewhere_filter, agree.elsewhere_findings]

/-- A review in which a source has another text, and another artifact. -/
def withSource (review : Review) (source text content : Text) : Review :=
  { review with
    sources := review.sources.insert source text
    artifacts := review.artifacts.insert (nameFor source) content }

private theorem agreeBut_withSource {source : Text} (listed : source ∈ review.sources.keys) (text content : Text) :
    AgreeBut source review (review.withSource source text content) where
  project := rfl
  commands := rfl
  minimum := rfl
  keys := (OrderedMap.map_fst_insertEntry source text _ |>.trans (if_pos listed)).symm
  texts name apart := by rw [withSource, OrderedMap.get?_insert, if_neg apart]
  artifacts name apart := by rw [withSource, OrderedMap.get?_insert, if_neg apart]

/-- A review of three sources of which one has an artifact. -/
def sampleReview : Review where
  project := ⟨Layout.sampleTree, .ofLocation [], .empty⟩
  commands := .ofLocation (Layout.commandsPlace [])
  sources := .ofList [("a.md".toList, "A".toList), ("b.md".toList, contextMark), ("c.md".toList, "C".toList)]
  artifacts := .ofList [("gsd.b.prompt.md".toList, [])]
  minimum := 1

private theorem sampleReview_auditable : sampleReview.Auditable := by
  have accurate : sampleReview.run .toolAccuracy = .ok [] := by decide
  exact (run_toolAccuracy_eq_ok_iff.mp accurate).1

/-- The artifact that one of the reviews lacks makes a difference, and not to the findings about the others. -/
theorem findings_elsewhere_iff_sample : ∃ review other, AgreeBut "a.md".toList review other ∧
    (¬ review.StopsAt .halfPair ∧ ¬ other.StopsAt .halfPair) ∧
    (SameElsewhere "a.md".toList review.errors other.errors ∧
        SameElsewhere "a.md".toList review.warnings other.warnings ↔
      ∀ container, ¬ review.StopsAt (.tooDeep container) ∧ ¬ other.StopsAt (.tooDeep container)) ∧
    (∀ tally, review.run .staleness = .ok (review.staleInOrder tally review.sources.entries) ∧
      other.run .staleness = .ok (other.staleInOrder tally other.sources.entries)) ∧
    (∀ container, ¬ review.StopsAt (.tooDeep container) ∧ ¬ other.StopsAt (.tooDeep container)) ∧
    review.run .coverage ≠ other.run .coverage ∧
    (elsewhere "a.md".toList (review.finds .coverage)).length = 1 ∧
    (elsewhere "a.md".toList (review.finds .integrity)).length = 1 := by
  have agree : AgreeBut "a.md".toList sampleReview (sampleReview.withSource "a.md".toList "B".toList []) :=
    agreeBut_withSource (by decide) _ _
  have accurate : (sampleReview.withSource "a.md".toList "B".toList []).run .toolAccuracy = .ok [] := by decide
  have auditable := (run_toolAccuracy_eq_ok_iff.mp accurate).1
  have whole := And.intro (sampleReview_auditable .halfPair) (auditable .halfPair)
  obtain ⟨same, shared⟩ := findings_elsewhere_iff agree whole
  exact ⟨_, _, agree, whole, same, shared, fun container => ⟨sampleReview_auditable _, auditable _⟩, by decide,
    by decide, by decide⟩

/-- With an artifact whose comment is nested too deep a review ends without findings, also about other artifacts. -/
theorem findings_elsewhere_lost : ∃ (source : Text) (review other : Review) (errors : List Diagnostic),
    AgreeBut source review other ∧ review.errors = .ok errors ∧ (elsewhere source errors).length = 2 ∧
      other.StopsAt (.tooDeep .array) ∧ ∀ found, other.errors ≠ .ok found := by
  let deep := nestedComment Json.callLimit
  let other := sampleReview.withSource "a.md".toList "A".toList deep
  have agree : AgreeBut "a.md".toList sampleReview other := agreeBut_withSource (by decide) _ _
  have there : other.artifacts.get? (nameFor "a.md".toList) = some deep :=
    (OrderedMap.get?_insert _ _ _ _).trans (if_pos rfl)
  have stops : other.StopsAt (.tooDeep .array) :=
    ⟨"a.md".toList, agree.keys ▸ by decide, deep, there, declaredTools?_nestedComment (by decide)⟩
  have ended := errors_eq_ok_iff.mpr ⟨sampleReview_auditable, rfl⟩
  exact ⟨_, _, other, _, agree, ended, by decide +kernel, stops, fun found lost => (errors_eq_ok_iff.mp lost).1 _ stops⟩

end Review

end PromptCompiler
