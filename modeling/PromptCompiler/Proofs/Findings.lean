import Mathlib.Data.List.Basic
import PromptCompiler.Review.Checks

/-! # Findings of a review

A review ends without findings if the reader of JSON stops at the comment of an artifact, and only then. Otherwise
a check finds what it finds about each source, one after the other. Every diagnostic carries the name of the check
that made it and, but for the threshold, that of the artifact it is about.
-/

namespace PromptCompiler

/-! ## Steps that may end with a fault -/

section Steps

variable {ε α β : Type} {step : α → Except ε β} {items : List α}

private theorem mapM_eq_ok {result : α → β} (each : ∀ item ∈ items, step item = .ok (result item)) :
    items.mapM step = .ok (items.map result) := by
  induction items with
  | nil => rfl
  | cons item rest ih =>
    rw [List.mapM_cons, each item List.mem_cons_self, ih fun other member => each other (List.mem_cons_of_mem _ member)]
    rfl

/-- Every step of a sequence that ends well has ended well. -/
theorem exists_of_mapM_eq_ok {results : List β} (ended : items.mapM step = .ok results) :
    ∀ item ∈ items, ∃ result, step item = .ok result := by
  induction items generalizing results with
  | nil => simp
  | cons item rest ih =>
    rw [List.mapM_cons] at ended
    cases first : step item with
    | error fault =>
      rw [first] at ended
      cases ended
    | ok result =>
      cases others : rest.mapM step with
      | error fault =>
        rw [first, others] at ended
        cases ended
      | ok more => exact List.forall_mem_cons.mpr ⟨⟨result, first⟩, ih others⟩

theorem map_eq_ok_iff {change : α → β} {outcome : Except ε α} {result : β} :
    outcome.map change = .ok result ↔ ∃ value, outcome = .ok value ∧ change value = result := by
  cases outcome with
  | error fault => exact iff_of_false nofun nofun
  | ok value => simp [Except.map]

end Steps

namespace Review

open Artifact

variable {review : Review} {check : Check} {diagnostic : Diagnostic}

/-! ## Where a review stops -/

/-- Whether the reader of JSON stops at the comment of an artifact that a review looks at. -/
def StopsAt (review : Review) (stop : Json.Stop) : Prop :=
  ∃ source ∈ review.sources.keys, ∃ content, review.artifacts.get? (nameFor source) = some content ∧
    declaredTools? content = .error stop

def Auditable (review : Review) : Prop := ∀ stop, ¬ review.StopsAt stop

theorem Auditable.exists_declared (auditable : review.Auditable) {source content : Text}
    (listed : source ∈ review.sources.keys) (there : review.artifacts.get? (nameFor source) = some content) :
    ∃ declared, declaredTools? content = .ok declared := by
  cases read : declaredTools? content with
  | error stop => exact absurd ⟨source, listed, content, there, read⟩ (auditable stop)
  | ok declared => exact ⟨declared, rfl⟩

/-! ## One source at a time -/

/-- What the comparison of tools finds in an artifact, nothing if its comment cannot be read. -/
def toolFindings (review : Review) (source content : Text) : List Diagnostic :=
  match declaredTools? content with
  | .ok declared => review.compareTools source content declared
  | .error _ => []

theorem toolFindings_eq_of_ok {source content : Text} {found : List Diagnostic}
    (checked : review.checkTools source content = .ok found) : review.toolFindings source content = found := by
  obtain ⟨declared, read, rfl⟩ := map_eq_ok_iff.mp checked
  rw [toolFindings, read]

/-- What a check finds in the artifact of a source. -/
def findsIn (review : Review) (source text content : Text) : Check → List Diagnostic
  | .threshold | .coverage => []
  | .toolAccuracy => review.toolFindings source content
  | .integrity => checkIntegrity source text content
  | .staleness => review.checkStaleness source text content

/-- What a check finds about a source; the threshold is about none. -/
def findsAbout (review : Review) (source text : Text) : Check → List Diagnostic
  | .coverage => review.checkCoverage source
  | check => ((review.artifacts.get? (nameFor source)).map (review.findsIn source text · check)).getD []

def finds (review : Review) : Check → List Diagnostic
  | .threshold => review.checkThreshold
  | check => review.sources.entries.flatMap fun entry => review.findsAbout entry.1 entry.2 check

def findings (review : Review) : List Diagnostic := Check.all.flatMap review.finds

theorem finds_eq_flatMap (review : Review) (single : check ≠ .threshold) :
    review.finds check = review.sources.entries.flatMap fun entry => review.findsAbout entry.1 entry.2 check := by
  cases check with
  | threshold => contradiction
  | _ => rfl

theorem findsAbout_eq (review : Review) (source text : Text) (compares : check ≠ .coverage) :
    review.findsAbout source text check =
      ((review.artifacts.get? (nameFor source)).map (review.findsIn source text · check)).getD [] := by
  cases check with
  | coverage => contradiction
  | _ => rfl

/-- A comparison finds what it finds about each source with an artifact, if it ends well about all of them. -/
private theorem compared_eq_ok (check : Check) (compares : check ≠ .coverage)
    {find : Text → Text → Text → Except Json.Stop (List Diagnostic)}
    (each : ∀ source text content, source ∈ review.sources.keys → review.artifacts.get? (nameFor source) = some content →
      find source text content = .ok (review.findsIn source text content check)) :
    review.compared find = .ok (review.sources.entries.flatMap fun entry => review.findsAbout entry.1 entry.2 check) := by
  let found (entry : Text × Text) : List Diagnostic := review.findsAbout entry.1 entry.2 check
  have steps : (review.sources.entries.mapM fun entry =>
      (review.artifacts.get? (nameFor entry.1)).elim (.ok []) (find entry.1 entry.2)) =
        .ok (review.sources.entries.map found) := by
    refine mapM_eq_ok fun entry member => ?_
    rw [show found entry = _ from review.findsAbout_eq entry.1 entry.2 compares]
    cases there : review.artifacts.get? (nameFor entry.1) with
    | none => rfl
    | some content => exact each entry.1 entry.2 content (List.mem_map_of_mem member) there
  exact congrArg (Except.map List.flatten) steps

/-- Only the check of tools may stop. -/
theorem run_eq_ok (other : check ≠ .toolAccuracy) : review.run check = .ok (review.finds check) := by
  cases check with
  | threshold => rfl
  | coverage => exact congrArg Except.ok (List.flatMap_map Prod.fst review.checkCoverage review.sources.entries)
  | toolAccuracy => contradiction
  | integrity => exact compared_eq_ok .integrity (by decide) fun _ _ _ _ _ => rfl
  | staleness => exact compared_eq_ok .staleness (by decide) fun _ _ _ _ _ => rfl

/-- The check of tools ends well exactly if no comment makes the reader stop. -/
theorem run_toolAccuracy_eq_ok_iff {found : List Diagnostic} :
    review.run .toolAccuracy = .ok found ↔ review.Auditable ∧ found = review.finds .toolAccuracy := by
  have finds (auditable : review.Auditable) : review.run .toolAccuracy = .ok (review.finds .toolAccuracy) := by
    have each (source text content : Text) (listed : source ∈ review.sources.keys)
        (there : review.artifacts.get? (nameFor source) = some content) :
        review.checkTools source content = .ok (review.findsIn source text content .toolAccuracy) := by
      obtain ⟨declared, read⟩ := auditable.exists_declared listed there
      have checked : review.checkTools source content = .ok (review.compareTools source content declared) := by
        rw [checkTools, read]
        rfl
      rw [checked, findsIn, toolFindings_eq_of_ok checked]
    exact compared_eq_ok .toolAccuracy (by decide) each
  constructor
  · intro ended
    have auditable : review.Auditable := by
      rintro stop ⟨source, listed, content, there, read⟩
      obtain ⟨entry, member, rfl⟩ := List.mem_map.mp listed
      obtain ⟨flat, steps, -⟩ := map_eq_ok_iff.mp (show (Except.map List.flatten _) = _ from ended)
      obtain ⟨result, step⟩ := exists_of_mapM_eq_ok steps entry member
      rw [there] at step
      change review.checkTools entry.1 content = _ at step
      rw [checkTools, read] at step
      cases step
    exact ⟨auditable, Except.ok.inj (ended.symm.trans (finds auditable))⟩
  · rintro ⟨auditable, rfl⟩
    exact finds auditable

/-! ## All checks -/

/-- A review ends with what its checks find, unless a comment makes the reader stop. -/
theorem diagnostics_eq_ok_iff {found : List Diagnostic} :
    review.diagnostics = .ok found ↔ review.Auditable ∧ found = review.findings := by
  have finds (auditable : review.Auditable) : review.diagnostics = .ok review.findings := by
    have each (check : Check) : review.run check = .ok (review.finds check) := by
      by_cases tools : check = .toolAccuracy
      · rw [tools, run_toolAccuracy_eq_ok_iff]
        exact ⟨auditable, rfl⟩
      · exact run_eq_ok tools
    rw [diagnostics, mapM_eq_ok fun check _ => each check, findings, List.flatMap_def]
    rfl
  constructor
  · intro ended
    obtain ⟨results, steps, -⟩ := map_eq_ok_iff.mp (show (Except.map List.flatten _) = _ from ended)
    obtain ⟨tools, run⟩ := exists_of_mapM_eq_ok steps .toolAccuracy (by decide)
    have auditable := (run_toolAccuracy_eq_ok_iff.mp run).1
    exact ⟨auditable, Except.ok.inj (ended.symm.trans (finds auditable))⟩
  · rintro ⟨auditable, rfl⟩
    exact finds auditable

private theorem map_diagnostics_eq_ok_iff {choose : List Diagnostic → List Diagnostic} {found : List Diagnostic} :
    review.diagnostics.map choose = .ok found ↔ review.Auditable ∧ found = choose review.findings := by
  rw [map_eq_ok_iff]
  constructor
  · rintro ⟨all, ended, rfl⟩
    obtain ⟨auditable, rfl⟩ := diagnostics_eq_ok_iff.mp ended
    exact ⟨auditable, rfl⟩
  · rintro ⟨auditable, rfl⟩
    exact ⟨_, diagnostics_eq_ok_iff.mpr ⟨auditable, rfl⟩, rfl⟩

theorem errors_eq_ok_iff {found : List Diagnostic} :
    review.errors = .ok found ↔ review.Auditable ∧ found = review.findings.filter (!·.check.warns) :=
  map_diagnostics_eq_ok_iff

theorem warnings_eq_ok_iff {found : List Diagnostic} :
    review.warnings = .ok found ↔ review.Auditable ∧ found = review.findings.filter (·.check.warns) :=
  map_diagnostics_eq_ok_iff

/-! ## Labels -/

private theorem eq_of_mem_unless {passed : Prop} [Decidable passed] {found : Diagnostic}
    (member : diagnostic ∈ if passed then [] else [found]) : diagnostic = found := by
  split at member
  · cases member
  · exact List.mem_singleton.mp member

/-- What a check finds about a source carries its own name and that of the artifact. -/
theorem exists_message_of_mem_findsIn {source text content : Text}
    (member : diagnostic ∈ review.findsIn source text content check) : ∃ message, diagnostic = about check source message := by
  cases check with
  | threshold => cases member
  | coverage => cases member
  | toolAccuracy =>
    rw [findsIn, toolFindings] at member
    split at member
    · rename_i declared read
      cases declared with
      | none => cases member
      | some names => exact ⟨_, eq_of_mem_unless member⟩
    · cases member
  | integrity =>
    rw [findsIn, checkIntegrity, ← ite_not, ← ite_not (_ ∧ _)] at member
    rcases List.mem_append.mp member with found | found
    · exact ⟨_, eq_of_mem_unless found⟩
    · exact ⟨_, eq_of_mem_unless found⟩
  | staleness =>
    rw [findsIn, checkStaleness, checkDraft] at member
    split at member
    · cases member
    · exact ⟨_, eq_of_mem_unless member⟩

theorem exists_message_of_mem_findsAbout {source text : Text} (member : diagnostic ∈ review.findsAbout source text check) :
    ∃ message, diagnostic = about check source message := by
  by_cases covers : check = .coverage
  · subst covers
    exact ⟨_, eq_of_mem_unless member⟩
  · rw [findsAbout_eq review source text covers] at member
    cases there : review.artifacts.get? (nameFor source) with
    | none => simp [there] at member
    | some content =>
      rw [there] at member
      exact exists_message_of_mem_findsIn member

/-- What a check finds carries its name. -/
theorem check_of_mem_finds (member : diagnostic ∈ review.finds check) : diagnostic.check = check := by
  by_cases single : check = .threshold
  · subst single
    rw [eq_of_mem_unless member]
  · rw [finds_eq_flatMap review single] at member
    obtain ⟨entry, -, found⟩ := List.mem_flatMap.mp member
    obtain ⟨message, rfl⟩ := exists_message_of_mem_findsAbout found
    rfl

/-- The findings of a check are what it finds. -/
theorem mem_finds_iff : diagnostic ∈ review.finds check ↔ diagnostic ∈ review.findings ∧ diagnostic.check = check := by
  constructor
  · intro member
    have listed : check ∈ Check.all := by cases check <;> decide
    exact ⟨List.mem_flatMap.mpr ⟨check, listed, member⟩, check_of_mem_finds member⟩
  · rintro ⟨member, rfl⟩
    obtain ⟨other, -, found⟩ := List.mem_flatMap.mp member
    exact check_of_mem_finds found ▸ found

theorem finds_eq_nil_iff : review.finds check = [] ↔ ∀ diagnostic ∈ review.findings, diagnostic.check ≠ check := by
  simp only [List.eq_nil_iff_forall_not_mem, mem_finds_iff, not_and]

/-- An error of a check about an artifact is found exactly if the check finds something about it. -/
theorem exists_error_iff {found : List Diagnostic} (errors : review.errors = .ok found) (fails : check.warns = false)
    (artifact : Text) :
    (∃ diagnostic ∈ found, diagnostic.check = check ∧ diagnostic.artifact = artifact) ↔
      ∃ diagnostic ∈ review.finds check, diagnostic.artifact = artifact := by
  obtain ⟨-, rfl⟩ := errors_eq_ok_iff.mp errors
  constructor
  · rintro ⟨diagnostic, member, same, about⟩
    exact ⟨diagnostic, mem_finds_iff.mpr ⟨(List.mem_filter.mp member).1, same⟩, about⟩
  · rintro ⟨diagnostic, found, about⟩
    obtain ⟨member, same⟩ := mem_finds_iff.mp found
    exact ⟨diagnostic, List.mem_filter.mpr ⟨member, by rw [same, fails]; rfl⟩, same, about⟩

/-- There are no errors exactly if the review ends and the checks that do not only warn find nothing. -/
theorem errors_eq_nil_iff :
    review.errors = .ok [] ↔ review.Auditable ∧ ∀ check : Check, check.warns = false → review.finds check = [] := by
  rw [errors_eq_ok_iff]
  refine and_congr_right fun _ => ?_
  rw [eq_comm]
  simp only [finds_eq_nil_iff, List.filter_eq_nil_iff, Bool.not_eq_true, Bool.not_eq_false']
  constructor
  · rintro warn check fails diagnostic member rfl
    rw [warn diagnostic member] at fails
    cases fails
  · intro without diagnostic member
    exact Bool.of_not_eq_false fun fails => without diagnostic.check fails diagnostic member rfl

/-- Without its warnings a check that only warns finds nothing. -/
theorem finds_eq_nil_of_warnings {found : List Diagnostic} (warnings : review.warnings = .ok found)
    (without : ∀ diagnostic ∈ found, diagnostic.check ≠ check) (warns : check.warns = true) : review.finds check = [] := by
  obtain ⟨-, rfl⟩ := warnings_eq_ok_iff.mp warnings
  refine finds_eq_nil_iff.mpr fun diagnostic member same => ?_
  exact without diagnostic (List.mem_filter.mpr ⟨member, by rw [same, warns]⟩) same

end Review

end PromptCompiler
