import PromptCompiler.Document.Draft

/-! # Compiling a document in three parts

The stages fall into three parts. The first reads the source and the tool table, the second asks the
directory tree which references lead to something, and the third puts the artifact together. Only the
second part looks at the tree, only the mapping of tools looks at the table, and nothing that goes into
the artifact looks at the sums of the run. Of the source the first part takes the body, the line ending,
the declared tools and the fields, and only three fields are looked at later.
-/

namespace PromptCompiler

namespace Draft

/-- The draft after the stages that look at the source. -/
def read (draft : Draft) : Draft := draft.readHeader.unifyLineEnding.readTools

/-- The draft after the stages before references are rewritten. -/
def prepare (table : ToolTable) (draft : Draft) : Draft :=
  (draft.read.mapTools table).convertIncludes.normalizeRuntimePaths

/-- The draft after the stages that follow the rewriting of references. -/
def complete (draft : Draft) : Draft := draft.assemble.restoreLineEnding.checkFences

/-- The body of a source as it is when references are rewritten. -/
def referringBody (source : Text) : Text :=
  RuntimePaths.normalize (Includes.convert (LineEnding.toLineFeeds (Header.parts source).body))

/-- The tools that a source declares, in lower case. -/
def toolNames (source : Text) : List Text := (ToolDeclaration.ofText source).lowered.getD []

theorem checkFences_output (draft : Draft) : draft.checkFences.output = draft.output := by
  rw [checkFences]
  split <;> rfl

theorem checkFences_tally (draft : Draft) : draft.checkFences.tally = draft.tally := by
  rw [checkFences]
  split <;> rfl

theorem checkFences_withheld (draft : Draft) :
    draft.checkFences.withheld = (draft.withheld || (Fence.scan draft.output).openLine.isSome) := by
  rw [checkFences]
  split
  · rename_i closed
    simp [closed]
  · rename_i opened
    simp [opened]

/-- The parts of an artifact come from some of what a draft holds. -/
theorem parts_congr {first second : Draft} (path : first.path = second.path) (fields : first.fields = second.fields)
    (declared : first.declared = second.declared) (tools : first.tools = second.tools)
    (omitted : first.omitted = second.omitted) (body : first.body = second.body) : first.parts = second.parts := by
  cases first
  cases second
  subst path fields declared tools omitted body
  rfl

theorem complete_output (draft : Draft) : draft.complete.output = draft.lineEnding.restore draft.parts.render :=
  checkFences_output _

theorem complete_parts (draft : Draft) : draft.complete.parts = draft.parts := by
  rw [complete, checkFences]
  split <;> rfl

theorem complete_lineEnding (draft : Draft) : draft.complete.lineEnding = draft.lineEnding := by
  rw [complete, checkFences]
  split <;> rfl

/-! ## Other fields -/

def withHeader (draft : Draft) (source : Text) (fields : OrderedMap Text) : Draft :=
  { draft with source := source, fields := fields }

/-- The keys of the fields that go into an artifact. -/
def fieldKeys : List Text := ["name".toList, "description".toList, "argument-hint".toList]

private theorem assemble_withHeader {draft : Draft} {fields : OrderedMap Text}
    (same : ∀ key ∈ fieldKeys, fields.get? key = draft.fields.get? key) (source : Text) :
    (draft.withHeader source fields).assemble = draft.assemble.withHeader source fields := by
  have field : ∀ key ∈ fieldKeys, (draft.withHeader source fields).field key = draft.field key := fun key member =>
    congrArg (Option.getD · []) (same key member)
  have command : (draft.withHeader source fields).commandName = draft.commandName := by
    rw [commandName, field _ (by decide)]
    rfl
  have parts : (draft.withHeader source fields).parts = draft.parts := by
    rw [Draft.parts, description, command, field _ (by decide), field _ (by decide)]
    rfl
  rw [assemble, command, parts]
  rfl

private theorem checkFences_withHeader (draft : Draft) (source : Text) (fields : OrderedMap Text) :
    (draft.withHeader source fields).checkFences = draft.checkFences.withHeader source fields := by
  have scanned : Fence.scan (draft.withHeader source fields).output = Fence.scan draft.output := rfl
  rw [checkFences, checkFences, scanned]
  cases (Fence.scan draft.output).openLine <;> rfl

/-! ## Other warnings -/

def withWarnings (draft : Draft) (warnings : List Text) : Draft := { draft with warnings := warnings }

private theorem rewriteReferences_of_text {project other : Project} (draft : Draft)
    (same : (References.rewrite ⟨project.tree, project.root, draft.path⟩ draft.body).1 =
      (References.rewrite ⟨other.tree, other.root, draft.path⟩ draft.body).1) :
    draft.rewriteReferences other =
      (draft.rewriteReferences project).withWarnings (draft.rewriteReferences other).warnings := by
  simp only [rewriteReferences, withWarnings, same]

private theorem complete_withWarnings (draft : Draft) (warnings : List Text) :
    (draft.withWarnings warnings).complete = draft.complete.withWarnings warnings := by
  have scanned : Fence.scan (draft.withWarnings warnings).assemble.restoreLineEnding.output =
      Fence.scan draft.assemble.restoreLineEnding.output := rfl
  rw [complete, complete, checkFences, checkFences, scanned]
  cases (Fence.scan draft.assemble.restoreLineEnding.output).openLine <;> rfl

end Draft

namespace Project

theorem compile_eq (project : Project) (path : Path) (source : Text) (tally : Tally) :
    project.compile path source tally =
      (((Draft.start path source tally).prepare project.table).rewriteReferences project).complete := rfl

theorem compile_output (project : Project) (path : Path) (source : Text) (tally : Tally) :
    (project.compile path source tally).output =
      (project.compile path source tally).lineEnding.restore (project.compile path source tally).parts.render := by
  rw [compile_eq, Draft.complete_output, Draft.complete_parts, Draft.complete_lineEnding]

/-- What goes into the artifact of a document: the tools and the references are found out in the project,
all else in the source. -/
theorem compile_output_congr {project other : Project} {path : Path} {source : Text} {tally tally' : Tally}
    (tools : (project.table.mapTools path.name (Draft.toolNames source)).tools =
      (other.table.mapTools path.name (Draft.toolNames source)).tools)
    (omitted : (project.table.mapTools path.name (Draft.toolNames source)).omitted =
      (other.table.mapTools path.name (Draft.toolNames source)).omitted)
    (body : (References.rewrite ⟨project.tree, project.root, path⟩ (Draft.referringBody source)).1 =
      (References.rewrite ⟨other.tree, other.root, path⟩ (Draft.referringBody source)).1) :
    (project.compile path source tally).output = (other.compile path source tally').output := by
  rw [compile_eq, compile_eq, Draft.complete_output, Draft.complete_output]
  have parts : (((Draft.start path source tally).prepare project.table).rewriteReferences project).parts =
      (((Draft.start path source tally').prepare other.table).rewriteReferences other).parts :=
    Draft.parts_congr rfl rfl rfl tools omitted body
  rw [parts]
  rfl

/-- Against the same table, and where references are rewritten alike, a document compiles alike but for its warnings. -/
theorem compile_eq_of_text {project other : Project} {path : Path} {source : Text} {tally : Tally}
    (table : project.table = other.table)
    (same : (References.rewrite ⟨project.tree, project.root, path⟩ (Draft.referringBody source)).1 =
      (References.rewrite ⟨other.tree, other.root, path⟩ (Draft.referringBody source)).1) :
    ∃ warnings, other.compile path source tally = (project.compile path source tally).withWarnings warnings := by
  have prepared : ((Draft.start path source tally).prepare other.table).rewriteReferences other = _ :=
    Draft.rewriteReferences_of_text ((Draft.start path source tally).prepare other.table) same
  rw [compile_eq, compile_eq, prepared, Draft.complete_withWarnings, table]
  exact ⟨_, rfl⟩

/-- A document is withheld exactly if a block is left open in its artifact. -/
theorem compile_withheld (project : Project) (path : Path) (source : Text) (tally : Tally) :
    (project.compile path source tally).withheld =
      (Fence.scan (project.compile path source tally).output).openLine.isSome := by
  rw [compile_eq, Draft.complete, Draft.checkFences_withheld, Draft.checkFences_output]
  rfl

/-- What a document adds to the sums of a run. -/
theorem compile_tally (project : Project) (path : Path) (source : Text) (tally : Tally) :
    (project.compile path source tally).tally =
      { tally with stubs := project.table.stubAll tally.stubs (Draft.toolNames source) }.recordOmitted
        (project.table.mapTools path.name (Draft.toolNames source)).omitted := by
  rw [compile_eq, Draft.complete, Draft.checkFences_tally]
  rfl

/-- Two sources with the same body, line ending and tools, and the same fields as far as they go into the artifact,
compile alike. -/
theorem compile_withHeader (project : Project) (path : Path) (tally : Tally) {source source' : Text}
    (body : (Header.parts source').body = (Header.parts source).body)
    (ending : LineEnding.detect source' = LineEnding.detect source)
    (declaration : ToolDeclaration.ofText source' = ToolDeclaration.ofText source)
    (fields : ∀ key ∈ Draft.fieldKeys, (Header.parts source').fields.get? key = (Header.parts source).fields.get? key) :
    project.compile path source' tally =
      (project.compile path source tally).withHeader source' (Header.parts source').fields := by
  have read : (Draft.start path source' tally).read =
      (Draft.start path source tally).read.withHeader source' (Header.parts source').fields := by
    simp only [Draft.read, Draft.readHeader, Draft.unifyLineEnding, Draft.readTools, Draft.withHeader, Draft.start,
      Draft.label, body, ending, declaration]
  have prepared : ((Draft.start path source' tally).prepare project.table).rewriteReferences project =
      (((Draft.start path source tally).prepare project.table).rewriteReferences project).withHeader source'
        (Header.parts source').fields := by
    rw [Draft.prepare, read]
    rfl
  rw [compile_eq, compile_eq, prepared, Draft.complete, Draft.complete, Draft.assemble_withHeader fields,
    ← Draft.checkFences_withHeader]
  rfl

end Project

end PromptCompiler
