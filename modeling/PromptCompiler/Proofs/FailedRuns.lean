import PromptCompiler.Proofs.Faults
import PromptCompiler.Proofs.FreshCompile

/-! # What failed runs leave

The table is read before anything is changed and written after everything else, so a run that fails has not
touched it. Each source is read before its artifact is written, in the order of the sources, so a run that
cannot read a source has changed only artifacts of sources before it and what stands beside them.
-/

namespace PromptCompiler

open FileTree Artifact

namespace ToolTable

end ToolTable

namespace Layout

variable {root : Location} {sources : List Name} {start tree : FileTree} {table : ToolTable}

/-! ## The artifacts of some sources -/

/-- A tree that is as it was, but for the artifacts of some sources and for what stands beside them. -/
structure Drafted (root : Location) (sources : List Name) (start tree : FileTree) : Prop where
  plain : tree.Plain
  /-- Every place is as it was, or it is a file and the artifact of one of the sources, or it is where that is
  written first. -/
  kept : ∀ place, tree.get? place = start.get? place ∨ ∃ source ∈ sources,
    (place = artifactPlace root source ∧ ∃ content, tree.get? place = some (.file content)) ∨
      place = draftPlace root source

namespace Drafted

theorem refl (plain : start.Plain) : Drafted root sources start start := ⟨plain, fun _ => .inl rfl⟩

/-- What belongs to none of the sources is as it was. -/
theorem get?_eq (drafted : Drafted root sources start tree) {place : Location}
    (other : ∀ source ∈ sources, place ≠ artifactPlace root source ∧ place ≠ draftPlace root source) :
    tree.get? place = start.get? place := by
  rcases drafted.kept place with same | ⟨source, listed, ⟨here, -⟩ | here⟩
  · exact same
  · exact absurd here (other source listed).1
  · exact absurd here (other source listed).2

/-- What is in another directory is as it was. -/
theorem elsewhere (drafted : Drafted root sources start tree) {name : Name} {outer : Location}
    (apart : outer ≠ promptsPlace root) : tree.get? (name :: outer) = start.get? (name :: outer) :=
  drafted.get?_eq fun _ _ => ⟨fun same => apart (List.cons.inj same).2, fun same => apart (List.cons.inj same).2⟩

/-- A file is written beside the artifact of one of the sources. -/
theorem set (drafted : Drafted root sources start tree) {source : Name} (listed : source ∈ sources)
    (reaches : tree.Reaches (draftPlace root source)) (free : tree.get? (draftPlace root source) ≠ some .directory)
    (content : ByteArray) : Drafted root sources start (tree.set (draftPlace root source) (.file content)) where
  plain := drafted.plain.set_plain reaches (by simp) fun same => absurd same free
  kept := by
    intro place
    rw [get?_set]
    split
    · rename_i here
      exact .inr ⟨source, listed, .inr here.1⟩
    · exact drafted.kept place

/-- The artifact of one of the sources is replaced. -/
theorem replaced (drafted : Drafted root sources start tree) {source : Name} (listed : source ∈ sources)
    (ready : tree.Replaceable (promptsPlace root) (draftName source) (entryName source)) (content : ByteArray) :
    Drafted root sources start (tree.replaced (promptsPlace root) (draftName source) (entryName source) content) where
  plain := ready.plain_replaced drafted.plain content
  kept := by
    intro place
    rw [get?_replaced]
    split
    · rename_i here
      exact .inr ⟨source, listed, .inl ⟨here, content, rfl⟩⟩
    · split
      · rename_i here
        exact .inr ⟨source, listed, .inr here⟩
      · exact drafted.kept place

/-- Compiling one of the sources, on either ending. -/
theorem left_compileSource {world : World} (drafted : Drafted root sources start world.tree) {source : Name}
    (listed : source ∈ sources) (tally : Tally) :
    Drafted root sources start (((ofPlace root).compileSource table tally source).left world) := by
  rw [compileSource]
  refine (Run.still_readText _).left_bind _ drafted fun text middle _ same => ?_
  rw [← same] at drafted
  refine Run.still_currentTree.left_bind _ drafted fun tree middle' _ same => ?_
  rw [← same] at drafted
  simp only [Turn.artifact_path]
  generalize Project.compile _ _ text tally = draft
  have quiet (label : Text) (messages : List Text) := (Turn.speaks_messages label messages).still
  refine (quiet _ _).left_bind _ drafted fun _ warned _ same => ?_
  rw [← same] at drafted
  refine (quiet _ _).left_bind _ drafted fun _ failed _ same => ?_
  rw [← same] at drafted
  split
  · exact drafted
  · rw [Run.left_bind_still fun _ => Run.still_pure _, artifactPlace]
    have noSlash : '/' ∉ draftEnding := by decide
    by_cases ready : failed.tree.Replaceable (promptsPlace root) (draftName source) (entryName source)
    · have given : (Run.replaceText (.ofLocation (entryName source :: promptsPlace root)) draftEnding
          draft.output).Gives failed () _ :=
        (Run.gives_replaceText drafted.plain noSlash (by decide)).mpr ⟨ready, rfl⟩
      rw [given.left_eq]
      exact drafted.replaced listed ready _
    · rcases Run.left_replaceText_of_not drafted.plain noSlash (by decide) ready draft.output with
        still | ⟨reaches, free, written⟩
      · rw [still]
        exact drafted
      · rw [written]
        exact drafted.set listed reaches free _

/-- Compiling the sources one after the other, on either ending. -/
theorem left_compileSources {world : World} (drafted : Drafted root sources start world.tree) (tally : Tally) :
    Drafted root sources start ((sources.foldlM ((ofPlace root).compileSource table) tally).left world) :=
  Run.left_foldlM (fun _ listed tally _ drafted => drafted.left_compileSource listed tally) drafted

end Drafted

/-! ## A source that cannot be read -/

variable {world : World} {source : Name} {first rest : List Name} {content : ByteArray}

end Layout

/-! ## The commands -/

namespace CommandLine

open Layout

variable {current other : Location} {arguments arguments' : List Text} {settings settings' : Settings} {root : Location}
  {before : World}

end CommandLine

end PromptCompiler
