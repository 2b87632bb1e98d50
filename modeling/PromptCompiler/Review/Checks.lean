import PromptCompiler.Digest.Sha256
import PromptCompiler.Document.Draft
import PromptCompiler.Review.Diagnostic

/-! # Checks on artifacts

A review compares the artifacts of a project with its sources and its tool table. Apart from the
threshold, every check looks at one source and the artifact of its name at a time; where the artifact
is missing, only the coverage check says so. A review ends without findings where the reader of JSON
gives up the comment of an artifact.
-/

namespace PromptCompiler

/-- What a review looks at. -/
structure Review where
  project : Project
  /-- The directory of the sources. -/
  commands : Path
  /-- The texts of the sources by name, in the order of their listing. -/
  sources : OrderedMap Text
  /-- The texts of the artifacts by name. -/
  artifacts : OrderedMap Text
  /-- The least number of sources that is not suspicious. -/
  minimum : Int

namespace Review

/-- The text that shows that a source has an execution context. -/
def contextMark : Text := "<execution_context>".toList

/-- A diagnostic of a check about the artifact of a source. -/
def about (check : Check) (source message : Text) : Diagnostic :=
  ⟨check, Artifact.nameFor source, message⟩

def checkThreshold (review : Review) : List Diagnostic :=
  let count := review.sources.entries.length
  if review.minimum ≤ count then []
  else [⟨.threshold, [],
    "only ".toList ++ Text.ofNat count ++ " upstream commands found (minimum: ".toList ++
      Text.ofInt review.minimum ++ "); possible silent upstream refactor".toList⟩]

def checkCoverage (review : Review) (source : Text) : List Diagnostic :=
  if review.artifacts.contains (Artifact.nameFor source) then []
  else [about .coverage source "missing; no generated prompt for this upstream command".toList]

/-- The tools that an artifact should have, by the tools that it records. -/
def expectedTools (review : Review) (source : Text) (declared : List Text) : List Text :=
  (review.project.table.mapTools (Artifact.nameFor source) (declared.map Text.lower)).tools

/-- Whether an artifact that records declared tools has other tools than they map to now. -/
def compareTools (review : Review) (source content : Text) : Option (List Text) → List Diagnostic
  | none => []
  | some declared =>
    let expected := review.expectedTools source declared
    let found := Text.sorted ((Artifact.tools? content).getD [])
    if found = expected then []
    else [about .toolAccuracy source
      ("tools mismatch; expected [".toList ++ Text.listed expected ++ "] but found [".toList ++
        Text.listed found ++ "]".toList)]

/-- The comparison of tools, where the comment of the artifact is read. -/
def checkTools (review : Review) (source content : Text) : Except Json.Stop (List Diagnostic) :=
  (Artifact.declaredTools? content).map (review.compareTools source content)

/-- Whether an artifact lost the execution context of its source, or asks the user without a note. -/
def checkIntegrity (source text content : Text) : List Diagnostic :=
  (if Text.occursIn contextMark text && !Text.occursIn contextMark content then
    [about .integrity source ("missing ".toList ++ contextMark ++ " block".toList)]
  else []) ++
  if Artifact.questionTool ∈ (Artifact.tools? content).getD [] ∧
      Text.occursIn Artifact.questionReference content = false then
    [about .integrity source
      ("missing adapter shim (".toList ++ Artifact.questionReference ++ "); required because ".toList ++
        Artifact.questionTool ++ " is in tools list".toList)]
  else []

/-- The draft of a source, compiled on its own. -/
def draft (review : Review) (source text : Text) : Draft :=
  review.project.compile (review.commands.join source) text .empty

/-- Whether the draft of a source is another text than its artifact, line endings apart. -/
def checkDraft (draft : Draft) (source content : Text) : List Diagnostic :=
  if draft.withheld then []
  else if Digest.ofText (LineEnding.toLineFeeds draft.output) =
      Digest.ofText (LineEnding.toLineFeeds content) then []
  else [about .staleness source
    ("stale; content differs from what the compiler would produce today ".toList ++
      "(re-run the compiler)".toList)]

/-- Whether compiling a source gives another text than its artifact. -/
def checkStaleness (review : Review) (source text content : Text) : List Diagnostic :=
  checkDraft (review.draft source text) source content

/-- What a check finds about each source that has an artifact. -/
def compared (review : Review) (find : Text → Text → Text → Except Json.Stop (List Diagnostic)) :
    Except Json.Stop (List Diagnostic) := do
  let found ← review.sources.entries.mapM fun entry =>
    (review.artifacts.get? (Artifact.nameFor entry.1)).elim (return []) (find entry.1 entry.2)
  return found.flatten

/-- What a check finds. -/
def run (review : Review) : Check → Except Json.Stop (List Diagnostic)
  | .threshold => return review.checkThreshold
  | .coverage => return review.sources.keys.flatMap review.checkCoverage
  | .toolAccuracy => review.compared fun source _ content => review.checkTools source content
  | .integrity => review.compared fun source text content => return checkIntegrity source text content
  | .staleness => review.compared fun source text content => return review.checkStaleness source text content

/-- What all checks find, in their order. -/
def diagnostics (review : Review) : Except Json.Stop (List Diagnostic) :=
  return (← Check.all.mapM review.run).flatten

def errors (review : Review) : Except Json.Stop (List Diagnostic) :=
  return (← review.diagnostics).filter (!·.check.warns)

def warnings (review : Review) : Except Json.Stop (List Diagnostic) :=
  return (← review.diagnostics).filter (·.check.warns)

end Review

end PromptCompiler
