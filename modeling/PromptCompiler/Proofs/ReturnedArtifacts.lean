import PromptCompiler.Proofs.AuditedArtifacts
import PromptCompiler.Proofs.SingleSources

/-! # Reviewing artifacts under another line ending

A review does not look at the line endings of artifacts. It reads an artifact in five ways: whether it is there,
the tools of its header, the comment on declared tools, whether some mark occurs in it, and its text with line
feeds only. None of them changes when a carriage return is put before every line feed, whatever else the artifact
holds; for the last one it must have had no line feed behind a carriage return before.
-/

namespace PromptCompiler

namespace OrderedMap

variable {α β : Type}

/-- The map with all values changed, each in its place. -/
def mapValues (change : Text → α → β) (map : OrderedMap α) : OrderedMap β where
  entries := map.entries.map fun entry => (entry.1, change entry.1 entry.2)
  distinct := by
    rw [List.map_map]
    exact map.distinct

private theorem get?_mapValues (change : Text → α → β) (map : OrderedMap α) (key : Text) :
    (map.mapValues change).get? key = (map.get? key).map (change key) := by
  simp only [get?, mapValues, List.find?_map, Option.map_map]
  cases found : map.entries.find? fun entry => entry.1 = key with
  | none => simp [Function.comp_def, found]
  | some entry =>
    have same : entry.1 = key := by simpa using List.find?_some found
    simp [Function.comp_def, found, same]

end OrderedMap

namespace Review

open Artifact

variable {review : Review} {endings : Text → LineEnding}

/-! ## Reading one artifact -/

theorem checkTools_restore (review : Review) (source content : Text) (ending : LineEnding) :
    review.checkTools source (ending.restore content) = review.checkTools source content := by
  have alike : review.compareTools source (ending.restore content) = review.compareTools source content := by
    funext declared
    cases declared with
    | none => rfl
    | some names => rw [compareTools, compareTools, Parts.tools?_restore]
  rw [checkTools, checkTools, declaredTools?_restore, alike]

private theorem checkIntegrity_restore (source text content : Text) (ending : LineEnding) :
    checkIntegrity source text (ending.restore content) = checkIntegrity source text content := by
  have context : Text.occursIn contextMark (ending.restore content) = Text.occursIn contextMark content :=
    occursIn_restore (by decide) (by decide) (by decide) ending content
  have reference : Text.occursIn questionReference (ending.restore content) = Text.occursIn questionReference content :=
    occursIn_restore (by decide) (by decide) (by decide) ending content
  rw [checkIntegrity, checkIntegrity, context, reference, Parts.tools?_restore]

private theorem checkStaleness_restore (review : Review) (source text : Text) {content : Text} {ending : LineEnding}
    (plain : ending = .crlf → ¬ ['\r', '\n'] <:+: content) :
    review.checkStaleness source text (ending.restore content) = review.checkStaleness source text content := by
  cases ending with
  | lf => rfl
  | crlf =>
    have same : LineEnding.toLineFeeds (LineEnding.restore .crlf content) = LineEnding.toLineFeeds content := by
      rw [LineEnding.toLineFeeds_restore, LineEnding.toLineFeeds_of_not_infix (plain rfl)]
    rw [checkStaleness, checkStaleness, checkDraft, checkDraft, same]

/-! ## Reviewing all of them -/

/-- The review in which every artifact has been given a line ending. -/
def withEndings (review : Review) (endings : Text → LineEnding) : Review :=
  { review with artifacts := review.artifacts.mapValues fun name content => (endings name).restore content }

/-- A comparison that finds in every artifact what it found before finds the same, or stops alike. -/
theorem compared_withEndings {find : Text → Text → Text → Except Json.Stop (List Diagnostic)}
    (same : ∀ source text content, review.artifacts.get? (nameFor source) = some content →
      find source text ((endings (nameFor source)).restore content) = find source text content) :
    (review.withEndings endings).compared find = review.compared find := by
  have looked (name : Text) : (review.withEndings endings).artifacts.get? name =
      (review.artifacts.get? name).map fun content => (endings name).restore content :=
    OrderedMap.get?_mapValues _ _ _
  have steps : (fun entry : Text × Text => ((review.withEndings endings).artifacts.get? (nameFor entry.1)).elim
      (.ok []) (find entry.1 entry.2)) =
        fun entry => (review.artifacts.get? (nameFor entry.1)).elim (.ok []) (find entry.1 entry.2) := by
    funext entry
    rw [looked]
    cases there : review.artifacts.get? (nameFor entry.1) with
    | none => rfl
    | some content => exact same entry.1 entry.2 content there
  exact congrArg (fun step => Except.map List.flatten (review.sources.entries.mapM step)) steps

private theorem run_withEndings
    (plain : ∀ name content, endings name = .crlf → review.artifacts.get? name = some content →
      ¬ ['\r', '\n'] <:+: content) (check : Check) :
    (review.withEndings endings).run check = review.run check := by
  cases check with
  | threshold => rfl
  | coverage =>
    have covered : (review.withEndings endings).checkCoverage = review.checkCoverage := by
      funext source
      rw [checkCoverage, checkCoverage, OrderedMap.contains, OrderedMap.contains, withEndings,
        OrderedMap.get?_mapValues, Option.isSome_map]
    rw [run, run, covered]
    rfl
  | toolAccuracy =>
    exact compared_withEndings fun source _ content _ => checkTools_restore review source content _
  | integrity =>
    rw [run, run]
    exact compared_withEndings fun source text content _ =>
      congrArg Except.ok (checkIntegrity_restore source text content _)
  | staleness =>
    rw [run, run]
    exact compared_withEndings fun source text content there =>
      congrArg Except.ok (checkStaleness_restore review source text fun crlf => plain _ content crlf there)

/-- Putting a carriage return before every line feed of some artifacts, none of which has one there, changes
nothing in the errors and the warnings of a review. -/
theorem findings_withEndings
    (plain : ∀ name content, endings name = .crlf → review.artifacts.get? name = some content →
      ¬ ['\r', '\n'] <:+: content) :
    (review.withEndings endings).errors = review.errors ∧ (review.withEndings endings).warnings = review.warnings := by
  have same : (review.withEndings endings).run = review.run := funext fun check => run_withEndings plain check
  simp only [errors, warnings, diagnostics, same, and_self]

/-- An artifact with a lone carriage return, and with a tool in its header that the tool of its comment does not
map to. -/
def mixedArtifact : Text := "---\ntools: ['read']\n---\n<!-- upstream-tools: [\"Read\"] -->\rx\n".toList

theorem findings_withEndings_sample : ∃ (review : Review) (endings : Text → LineEnding),
    (∀ name content, endings name = .crlf → review.artifacts.get? name = some content →
      ¬ ['\r', '\n'] <:+: content) ∧
    (review.withEndings endings).errors = review.errors ∧ (review.withEndings endings).warnings = review.warnings ∧
      (review.withEndings endings).artifacts ≠ review.artifacts ∧ review.Auditable ∧
      (review.finds .toolAccuracy).length = 1 ∧ (review.finds .integrity).length = 1 := by
  let review := sampleReview.withSource "b.md".toList contextMark mixedArtifact
  let endings (name : Text) : LineEnding := if name = nameFor "b.md".toList then .crlf else .lf
  have plain : ∀ name content, endings name = .crlf → review.artifacts.get? name = some content →
      ¬ ['\r', '\n'] <:+: content := by
    intro name content crlf there
    obtain rfl : name = nameFor "b.md".toList := by
      by_contra other
      rw [show endings name = .lf from if_neg other] at crlf
      cases crlf
    have known : review.artifacts.get? (nameFor "b.md".toList) = some mixedArtifact :=
      (OrderedMap.get?_insert _ _ _ _).trans (if_pos rfl)
    obtain rfl : mixedArtifact = content := Option.some.inj (known.symm.trans there)
    rw [← Text.occursIn_iff]
    decide
  obtain ⟨errors, warnings⟩ := findings_withEndings plain
  obtain ⟨compared, differs, inaccurate, incomplete⟩ :
      review.run .toolAccuracy = .ok (review.finds .toolAccuracy) ∧
        (review.withEndings endings).artifacts ≠ review.artifacts ∧ (review.finds .toolAccuracy).length = 1 ∧
        (review.finds .integrity).length = 1 := by decide +kernel
  have auditable := (run_toolAccuracy_eq_ok_iff.mp compared).1
  exact ⟨review, endings, plain, errors, warnings, differs, auditable, inaccurate, incomplete⟩

end Review

end PromptCompiler
