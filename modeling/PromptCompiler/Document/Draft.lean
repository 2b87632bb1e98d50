import PromptCompiler.Artifact.Layout
import PromptCompiler.Body.Includes
import PromptCompiler.Body.References
import PromptCompiler.Body.RuntimePaths
import PromptCompiler.Document.Tally
import PromptCompiler.Fence
import PromptCompiler.Text.LineEnding
import PromptCompiler.ToolTable.Mapping

/-! # Compiling a document

A document becomes an artifact in a fixed order of stages. A draft holds what the stages have found
so far; each stage fills in its part and reads only what earlier stages have filled in. The sums of
the run go through the draft, so that compiling several documents is compiling one after the other.
-/

namespace PromptCompiler

/-- What documents are compiled against. -/
structure Project where
  tree : FileTree
  root : Path
  table : ToolTable

/-- A document and what the stages have found about it. -/
structure Draft where
  path : Path
  source : Text
  fields : OrderedMap Text
  body : Text
  /-- How the document ends its lines. -/
  lineEnding : LineEnding
  /-- The tools that the document declares, as written. -/
  declared : Option (List Text)
  /-- The tools that the document declares, in lower case. -/
  lowered : Option (List Text)
  tools : List Text
  omitted : List Text
  command : Text
  /-- The artifact. -/
  output : Text
  /-- Whether the artifact must not be written. -/
  withheld : Bool
  warnings : List Text
  errors : List Text
  tally : Tally

namespace Draft

def start (path : Path) (source : Text) (tally : Tally) : Draft where
  path := path
  source := source
  fields := .empty
  body := []
  lineEnding := .lf
  declared := none
  lowered := none
  tools := []
  omitted := []
  command := []
  output := []
  withheld := false
  warnings := []
  errors := []
  tally := tally

/-- The name of the document in messages. -/
def label (draft : Draft) : Text := draft.path.name

/-- The header is split into fields, and the body is what follows it. -/
def readHeader (draft : Draft) : Draft :=
  let parts := Header.parts draft.source
  { draft with fields := parts.fields, body := parts.body }

/-- The line ending is found, and the body gets line feeds only. -/
def unifyLineEnding (draft : Draft) : Draft :=
  { draft with
    lineEnding := .detect draft.source
    body := LineEnding.toLineFeeds draft.body }

/-- The declared tools are read; each anomaly gives a warning. -/
def readTools (draft : Draft) : Draft :=
  let declaration := ToolDeclaration.ofText draft.source
  { draft with
    declared := declaration.names
    lowered := declaration.lowered
    warnings := draft.warnings ++ declaration.anomalies.map (·.render draft.label) }

/-- The tools are mapped; unknown ones leave stubs, and omitted ones are counted. -/
def mapTools (table : ToolTable) (draft : Draft) : Draft :=
  let names := draft.lowered.getD []
  let mapping := table.mapTools draft.label names
  let stubs := table.stubAll draft.tally.stubs names
  { draft with
    tools := mapping.tools
    omitted := mapping.omitted
    warnings := draft.warnings ++ mapping.warnings
    tally := { draft.tally with stubs := stubs }.recordOmitted mapping.omitted }

/-- The include lines of the body become instructions. -/
def convertIncludes (draft : Draft) : Draft := { draft with body := Includes.convert draft.body }

/-- The runtime directories in the body become paths from the workspace. -/
def normalizeRuntimePaths (draft : Draft) : Draft :=
  { draft with body := RuntimePaths.normalize draft.body }

/-- The references in the body become paths from the root. -/
def rewriteReferences (project : Project) (draft : Draft) : Draft :=
  let rewritten := References.rewrite ⟨project.tree, project.root, draft.path⟩ draft.body
  { draft with body := rewritten.1, warnings := draft.warnings ++ rewritten.2 }

/-- The value of a field; empty if the header does not have it. -/
def field (draft : Draft) (key : Text) : Text := (draft.fields.get? key).getD []

/-- The name of the command: that of the header, else one made from the name of the document. -/
def commandName (draft : Draft) : Text :=
  let name := draft.field "name".toList
  if name = [] then Artifact.artifactBeginning ++ Artifact.base draft.label
  else Artifact.commandName name

/-- What the command does: what the header says, else a mention of its name. -/
def description (draft : Draft) : Text :=
  let value := draft.field "description".toList
  if value = [] then "GSD command ".toList ++ draft.commandName else value

def parts (draft : Draft) : Artifact.Parts where
  command := draft.commandName
  description := draft.description
  argumentHint := draft.field "argument-hint".toList
  declared := draft.declared
  tools := draft.tools
  omitted := draft.omitted
  body := draft.body

/-- The artifact is put together. -/
def assemble (draft : Draft) : Draft :=
  { draft with command := draft.commandName, output := draft.parts.render }

/-- The artifact gets the line ending of the document. -/
def restoreLineEnding (draft : Draft) : Draft :=
  { draft with output := draft.lineEnding.restore draft.output }

/-- The error for an artifact in which a block is left open. -/
def openFenceError (label : Text) (line : Nat) : Text :=
  label ++ ": unbalanced fenced code block in output (opened at line ".toList ++ Text.ofNat line ++
    "); file NOT written".toList

/-- An artifact in which a block is left open is withheld. -/
def checkFences (draft : Draft) : Draft :=
  match (Fence.scan draft.output).openLine with
  | none => draft
  | some line =>
    { draft with withheld := true, errors := draft.errors ++ [openFenceError draft.label line] }

end Draft

/-- The stages by which a document is compiled. -/
inductive Stage where
  | readHeader
  | unifyLineEnding
  | readTools
  | mapTools
  | convertIncludes
  | normalizeRuntimePaths
  | rewriteReferences
  | assemble
  | restoreLineEnding
  | checkFences
deriving DecidableEq, Repr

namespace Stage

def all : List Stage :=
  [.readHeader, .unifyLineEnding, .readTools, .mapTools, .convertIncludes, .normalizeRuntimePaths,
   .rewriteReferences, .assemble, .restoreLineEnding, .checkFences]

def apply (project : Project) (draft : Draft) : Stage → Draft
  | .readHeader => draft.readHeader
  | .unifyLineEnding => draft.unifyLineEnding
  | .readTools => draft.readTools
  | .mapTools => draft.mapTools project.table
  | .convertIncludes => draft.convertIncludes
  | .normalizeRuntimePaths => draft.normalizeRuntimePaths
  | .rewriteReferences => draft.rewriteReferences project
  | .assemble => draft.assemble
  | .restoreLineEnding => draft.restoreLineEnding
  | .checkFences => draft.checkFences

def trace (project : Project) (draft : Draft) : List Stage → List (Stage × Draft)
  | [] => []
  | stage :: rest => (stage, stage.apply project draft) :: trace project (stage.apply project draft) rest

end Stage

namespace Project

/-- A document compiled against a project, in a run with the given sums so far. -/
def compile (project : Project) (path : Path) (source : Text) (tally : Tally) : Draft :=
  Stage.all.foldl (Stage.apply project) (Draft.start path source tally)

end Project

end PromptCompiler
