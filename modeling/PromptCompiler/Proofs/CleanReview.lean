import PromptCompiler.Proofs.PartialRuns
import PromptCompiler.Proofs.ReviewedTrees

/-! # Compiling after a clean review

When a review finds neither an error nor a stale artifact, the next run has nothing to do. It may end with a
fault at any step, and so each step is followed through on both endings: a source is compiled to what its artifact
says already, since the answers about references stay the same, and only artifacts without a source are removed.
-/

namespace PromptCompiler

open FileTree Artifact

namespace Layout

variable {root : Location} {before : FileTree} {table : ToolTable}

/-- Whether no name under which an artifact is written before it takes its place is left over from an earlier run. -/
def NoDrafts (root : Location) (tree : FileTree) : Prop :=
  ∀ name content, draftEnding <:+ name.text → tree.get? (name :: promptsPlace root) ≠ some (.file content)

/-- Whether a place holds the same text in two trees, line endings apart. -/
def Alike (tree other : FileTree) (place : Location) : Prop :=
  ∃ old new, tree.get? place = some (.file (Text.utf8 old)) ∧ other.get? place = some (.file (Text.utf8 new)) ∧
    LineEnding.toLineFeeds new = LineEnding.toLineFeeds old

/-- A tree that holds the same as another, but for the line endings of the artifacts of sources. -/
structure Refreshed (root : Location) (before tree : FileTree) : Prop where
  plain : tree.Plain
  /-- Every place is as before, or it is the artifact of a source and says the same. -/
  kept : ∀ place, tree.get? place = before.get? place ∨
    ∃ source ∈ sourceNames root before, place = artifactPlace root source ∧ Alike before tree place

namespace Refreshed

variable {tree : FileTree}

theorem refl (plain : before.Plain) : Refreshed root before before := ⟨plain, fun _ => .inl rfl⟩

/-- Nothing has come and nothing has gone. -/
theorem isSome_eq (refreshed : Refreshed root before tree) (place : Location) :
    (tree.get? place).isSome = (before.get? place).isSome := by
  rcases refreshed.kept place with same | ⟨source, -, rfl, old, new, there, now, -⟩
  · rw [same]
  · rw [there, now]
    rfl

/-- What is the artifact of no source is as before. -/
theorem get?_eq (refreshed : Refreshed root before tree) {place : Location}
    (other : ∀ source ∈ sourceNames root before, place ≠ artifactPlace root source) :
    tree.get? place = before.get? place := by
  refine (refreshed.kept place).resolve_right ?_
  rintro ⟨source, listed, same, -⟩
  exact other source listed same

theorem source_eq (refreshed : Refreshed root before tree) (name : Name) :
    tree.get? (name :: commandsPlace root) = before.get? (name :: commandsPlace root) :=
  refreshed.get?_eq fun _ _ same => promptsPlace_ne_commandsPlace root (List.cons.inj same).2.symm

/-- An artifact that says the same as before is as it was or has another text. -/
theorem alike (refreshed : Refreshed root before tree) {source : Name} {old : Text}
    (there : before.get? (artifactPlace root source) = some (.file old.utf8)) :
    Alike before tree (artifactPlace root source) := by
  rcases refreshed.kept (artifactPlace root source) with same | ⟨-, -, -, alike⟩
  · exact ⟨old, old, there, same.trans there, rfl⟩
  · exact alike

/-- A source compiles as before: the paths that its references ask about lead to something if they did before. -/
theorem output_eq (refreshed : Refreshed root before tree) (plain : before.Plain) (table : ToolTable) (source : Name)
    (text : Text) (tally : Tally) :
    ((⟨tree, .ofLocation root, table⟩ : Project).compile (.ofLocation (source :: commandsPlace root)) text tally).output =
      ((⟨before, .ofLocation root, table⟩ : Project).compile (.ofLocation (source :: commandsPlace root)) text
        .empty).output := by
  refine Project.compile_output_congr rfl rfl (congrArg Prod.fst (References.rewrite_congr fun path asked => ?_))
  obtain ⟨anchor, place, rfl⟩ := References.spells_of_mem_asked asked
  rw [refreshed.plain.present_eq, plain.present_eq, refreshed.isSome_eq]

/-- Where the artifact of a source is written first there was neither a file nor a link; so nothing was there if there
is no directory now. -/
theorem draft_free (refreshed : Refreshed root before tree) (drafts : NoDrafts root before) {source : Name}
    (notDirectory : tree.get? (draftPlace root source) ≠ some .directory) :
    before.get? (draftPlace root source) = none := by
  have same : tree.get? (draftPlace root source) = before.get? (draftPlace root source) :=
    refreshed.get?_eq fun other _ same => draftName_ne_entryName source other (List.cons.inj same).1
  cases found : before.get? (draftPlace root source) with
  | none => rfl
  | some entry =>
    rw [found] at same
    cases entry with
    | file content => exact absurd found (drafts _ content (List.suffix_append _ _))
    | directory => exact absurd same notDirectory
    | link target => exact absurd same (refreshed.plain.noLink _ _)

/-- The artifact of a source may be written again with a text that says the same. -/
theorem replaced (refreshed : Refreshed root before tree) (drafts : NoDrafts root before) {source : Name}
    (listed : source ∈ sourceNames root before) {old new : Text}
    (there : before.get? (artifactPlace root source) = some (.file old.utf8))
    (same : LineEnding.toLineFeeds new = LineEnding.toLineFeeds old)
    (ready : tree.Replaceable (promptsPlace root) (draftName source) (entryName source)) :
    Refreshed root before (tree.replaced (promptsPlace root) (draftName source) (entryName source) new.utf8) := by
  refine ⟨ready.plain_replaced refreshed.plain _, fun place => ?_⟩
  have stored : (tree.replaced (promptsPlace root) (draftName source) (entryName source) new.utf8).get? place =
      if place = artifactPlace root source then some (.file new.utf8)
      else if place = draftPlace root source then none else tree.get? place := get?_replaced ..
  by_cases artifact : place = artifactPlace root source
  · rw [if_pos artifact] at stored
    exact .inr ⟨source, listed, artifact, old, new, artifact ▸ there, stored, same⟩
  rw [if_neg artifact] at stored
  by_cases draft : place = draftPlace root source
  · rw [if_pos draft] at stored
    rw [stored, draft, refreshed.draft_free drafts ready.besideFree]
    exact .inl rfl
  rw [if_neg draft] at stored
  rcases refreshed.kept place with kept | ⟨other, listed', here, old', new', was, now, same'⟩
  · exact .inl (stored.trans kept)
  · exact .inr ⟨other, listed', here, old', new', was, stored.trans now, same'⟩

/-- Compiling a source whose artifact is in order, on either ending. -/
theorem left_compileSource (plain : before.Plain) (drafts : NoDrafts root before) {source : Name}
    (listed : source ∈ sourceNames root before) (inOrder : InOrder root before table source) {tally : Tally}
    {world : World} (refreshed : Refreshed root before world.tree) :
    Refreshed root before (((ofPlace root).compileSource table tally source).left world) := by
  obtain ⟨text, old, read, there, current⟩ := inOrder
  rw [compileSource, ofPlace_commands, Path.child_ofLocation]
  refine (Run.still_readText _).left_bind _ refreshed fun text' middle given _ => ?_
  -- The text that is read is the one that the review has read.
  obtain ⟨reading, rfl⟩ := Run.gives_readText.mp given
  rw [refreshed.plain.read_eq_ok_iff, refreshed.source_eq, read, Option.some.injEq, Entry.file.injEq] at reading
  obtain rfl := Text.utf8_inj reading
  refine Run.still_currentTree.left_bind _ refreshed fun tree middle given _ => ?_
  obtain ⟨rfl, rfl⟩ := Run.gives_currentTree.mp given
  simp only [ofPlace_root, Turn.artifact_path]
  have output := refreshed.output_eq plain table source text tally
  have withheld := Project.compile_withheld ⟨world.tree, .ofLocation root, table⟩
    (.ofLocation (source :: commandsPlace root)) text tally
  rw [output, ← Project.compile_withheld] at withheld
  generalize (⟨world.tree, .ofLocation root, table⟩ : Project).compile (.ofLocation (source :: commandsPlace root)) text
    tally = draft at output withheld ⊢
  have quiet (label : Text) (messages : List Text) := (Turn.speaks_messages label messages).still
  refine (quiet _ _).left_bind _ refreshed fun _ warned _ same => ?_
  rw [← same] at refreshed
  refine (quiet _ _).left_bind _ refreshed fun _ failed _ same => ?_
  rw [← same] at refreshed
  split
  · exact refreshed
  · rename_i written
    rw [Bool.not_eq_true, withheld] at written
    rw [Run.left_bind_still fun _ => Run.still_pure _]
    have stored : failed.tree.get? (artifactPlace root source) ≠ some .directory := by
      obtain ⟨-, new, -, now, -⟩ := refreshed.alike there
      rw [now]
      simp
    have allowed : Allowed (entryName source) := by
      refine plain.named _ (promptsPlace root) ?_
      rw [show before.get? (entryName source :: promptsPlace root) = _ from there]
      simp
    have noSlash : '/' ∉ draftEnding := by decide
    have notEmpty : draftEnding ≠ [] := by decide
    rcases Run.left_replaceText refreshed.plain noSlash notEmpty allowed stored draft.output with
      still | ⟨ready, made⟩
    · rw [artifactPlace, still]
      exact refreshed
    · rw [artifactPlace, made]
      exact refreshed.replaced drafts listed there (output ▸ current written) ready

/-- Compiling the sources, whose artifacts are in order, on either ending. -/
theorem left_compileSources (plain : before.Plain) (drafts : NoDrafts root before)
    (inOrder : ∀ source ∈ sourceNames root before, InOrder root before table source) {world : World}
    (refreshed : Refreshed root before world.tree) : Refreshed root before
      (((sourceNames root before).foldlM ((ofPlace root).compileSource table) .empty).left world) :=
  Run.left_foldlM (fun source listed _ _ refreshed =>
    refreshed.left_compileSource plain drafts listed (inOrder source listed)) refreshed

end Refreshed

/-! ## What the rest of the run removes and enters -/

/-- An artifact that belongs to no source. -/
def IsOrphan (root : Location) (tree : FileTree) (place : Location) : Prop :=
  ∃ name content, place = name :: promptsPlace root ∧ isArtifact name.text = true ∧
    tree.get? place = some (.file content) ∧ ∀ source ∈ sourceNames root tree, name ≠ entryName source

/-- A tree that holds the same as another, but for the line endings of the artifacts of sources and for artifacts of
no source that are gone. -/
structure Trimmed (root : Location) (before tree : FileTree) : Prop where
  plain : tree.Plain
  /-- Every place is as before, or it is the artifact of a source and says the same, or it was the artifact of no
  source and is gone. -/
  kept : ∀ place, tree.get? place = before.get? place ∨
    (∃ source ∈ sourceNames root before, place = artifactPlace root source ∧ Alike before tree place) ∨
    (tree.get? place = none ∧ IsOrphan root before place)

/-- Whether new stubs have been entered at the end of the tool table. -/
def EntersStubs (root : Location) (before after : FileTree) : Prop :=
  ∃ table stubs, before.Loads (tablePlace root) table ∧ ToolTable.AreStubs table stubs ∧ stubs.entries ≠ [] ∧
    after.get? (tablePlace root) = some (.file (table.withStubs stubs).fileText.utf8)

/-- What a run that has nothing to do does nevertheless. -/
structure NothingToDo (root : Location) (before after : FileTree) : Prop where
  created : ∀ name content, isArtifact name.text = true →
    after.get? (name :: promptsPlace root) = some (.file content) →
      ∃ old, before.get? (name :: promptsPlace root) = some (.file old)
  /-- What is gone is an artifact that belongs to no source, or what was left over where the tool table is written
  first, and then it has been moved over the table with new stubs. -/
  deleted : ∀ place, before.get? place ≠ none → after.get? place = none →
    IsOrphan root before place ∨ (place = tableDraftPlace root ∧ EntersStubs root before after)
  kept : ∀ source ∈ sourceNames root before, Alike before after (artifactPlace root source)

namespace Refreshed

variable {tree : FileTree}

theorem trimmed (refreshed : Refreshed root before tree) : Trimmed root before tree :=
  ⟨refreshed.plain, fun place => (refreshed.kept place).imp_right .inl⟩

/-- The artifacts that are not expected are removed, on either ending. -/
theorem left_removeOrphans {world : World} (refreshed : Refreshed root before world.tree) {expected : List Text}
    (sources : expected = (sourceNames root before).map fun source => nameFor source.text) :
    Trimmed root before ((removeOrphans (.ofLocation (promptsPlace root)) expected).left world) := by
  have removed := Layout.left_removeOrphans refreshed.plain (promptsPlace root) expected
  refine ⟨removed.1, fun place => ?_⟩
  rcases removed.2 place with same | ⟨gone, name, orphan, rfl⟩
  · rcases refreshed.kept place with kept | ⟨source, listed, here, old, new, there, now, alike⟩
    · exact .inl (same.trans kept)
    · exact .inr (.inl ⟨source, listed, here, old, new, there, same.trans now, alike⟩)
  · obtain ⟨⟨content, there⟩, named, unexpected⟩ := mem_orphans_iff.mp orphan
    have noSource : ∀ source ∈ sourceNames root before, name ≠ entryName source := by
      rintro source listed rfl
      exact unexpected (sources ▸ List.mem_map_of_mem listed)
    have was : world.tree.get? (name :: promptsPlace root) = before.get? (name :: promptsPlace root) :=
      refreshed.get?_eq fun source listed same => noSource source listed (List.cons.inj same).1
    exact .inr (.inr ⟨gone, name, content, rfl, named, was.symm.trans there, noSource⟩)

end Refreshed

namespace Trimmed

variable {tree : FileTree}

/-- Outside of the directory of the artifacts everything is as before. -/
theorem get?_eq (trimmed : Trimmed root before tree) {place : Location} (elsewhere : ∀ name, place ≠ name :: promptsPlace root) :
    tree.get? place = before.get? place := by
  rcases trimmed.kept place with same | ⟨source, -, here, -⟩ | ⟨-, name, content, here, -⟩
  · exact same
  · exact absurd here (elsewhere _)
  · exact absurd here (elsewhere name)

/-- What a run leaves of a trimmed tree, if it changes nothing in the directory of the artifacts. -/
theorem nothingToDo (trimmed : Trimmed root before tree) {after : FileTree}
    (artifacts : ∀ source ∈ sourceNames root before, ∃ old,
      before.get? (artifactPlace root source) = some (.file (Text.utf8 old)))
    (inPrompts : ∀ name, after.get? (name :: promptsPlace root) = tree.get? (name :: promptsPlace root))
    (gone : ∀ place, tree.get? place ≠ none → after.get? place = none →
      place = tableDraftPlace root ∧ EntersStubs root before after) : NothingToDo root before after where
  created := by
    intro name content _ now
    rw [inPrompts] at now
    rcases trimmed.kept (name :: promptsPlace root) with same | ⟨-, -, -, old, -, there, -⟩ | ⟨missing, -⟩
    · exact ⟨content, same.symm.trans now⟩
    · exact ⟨_, there⟩
    · rw [missing] at now
      cases now
  deleted := by
    intro place present missing
    by_cases removed : tree.get? place = none
    · rcases trimmed.kept place with same | ⟨-, -, -, -, new, -, now, -⟩ | ⟨-, orphan⟩
      · exact absurd (same.symm.trans removed) present
      · rw [removed] at now
        cases now
      · exact .inl orphan
    · exact .inr (gone place removed missing)
  kept := by
    intro source listed
    obtain ⟨old, there⟩ := artifacts source listed
    rw [Alike, artifactPlace, inPrompts]
    rcases trimmed.kept (artifactPlace root source) with same | ⟨-, -, -, alike⟩ | ⟨-, name, -, here, -, -, noSource⟩
    · exact ⟨old, old, there, same.trans there, rfl⟩
    · exact alike
    · exact absurd (List.cons.inj here).1.symm (noSource source listed)

/-- A trimmed tree is what a run leaves that has nothing to do. -/
theorem idle (trimmed : Trimmed root before tree)
    (artifacts : ∀ source ∈ sourceNames root before, ∃ old,
      before.get? (artifactPlace root source) = some (.file (Text.utf8 old))) : NothingToDo root before tree :=
  trimmed.nothingToDo artifacts (fun _ => rfl) fun _ present missing => absurd missing present

/-- Entering stubs, on either ending. -/
theorem left_saveStubs {world : World} (trimmed : Trimmed root before world.tree)
    (artifacts : ∀ source ∈ sourceNames root before, ∃ old,
      before.get? (artifactPlace root source) = some (.file (Text.utf8 old)))
    (loads : before.Loads (tablePlace root) table) {stubs : ToolTable} (new : ToolTable.AreStubs table stubs) :
    NothingToDo root before (((ofPlace root).saveStubs table stubs).left world) := by
  have inScripts (name : Name) : world.tree.get? (name :: scriptsPlace root) = before.get? (name :: scriptsPlace root) :=
    trimmed.get?_eq fun _ same => scriptsPlace_ne_promptsPlace root (List.cons.inj same).2
  have free : world.tree.get? (tablePlace root) ≠ some .directory := by
    rw [tablePlace, inScripts]
    exact loads.not_directory
  rcases Layout.left_saveStubs (ofPlace root) world table stubs with still | ⟨pending, saved⟩
  · rw [still]
    exact trimmed.idle artifacts
  rw [saved, ofPlace_table]
  -- Directories on the way to the table are no artifacts.
  have inPrompts {outer : Location} {made : FileTree} (above : outer <:+ scriptsPlace root)
      (ensured : world.tree.Ensures outer made) (name : Name) :
      made.get? (name :: promptsPlace root) = world.tree.get? (name :: promptsPlace root) :=
    (ensured.kept _).resolve_right fun new => inPrompts_not_above_scripts root name (new.1.trans above)
  rcases left_save trimmed.plain (table.withStubs stubs) free with still | ⟨outer, above, ensured⟩ | ⟨made, ensured, ready, same⟩
  · rw [still]
    exact trimmed.idle artifacts
  · exact trimmed.nothingToDo artifacts (inPrompts above ensured) fun place present missing =>
      absurd missing (ensured.present present)
  rw [same]
  have stored (place : Location) := get?_stored made root place (table.withStubs stubs).fileText.utf8
  refine trimmed.nothingToDo artifacts (fun name => ?_) fun place present missing => ?_
  · rw [stored, if_neg, if_neg, inPrompts List.suffix_rfl ensured]
    · exact fun here => scriptsPlace_ne_promptsPlace root (List.cons.inj here).2.symm
    · exact fun here => scriptsPlace_ne_promptsPlace root (List.cons.inj here).2.symm
  · have written := stored place
    rw [missing] at written
    split at written
    · cases written
    split at written
    · rename_i draft
      refine ⟨draft, table, stubs, loads, new, pending, ?_⟩
      rw [stored, if_pos rfl]
    · exact absurd written.symm (ensured.present present)

end Trimmed

/-! ## The whole run -/

variable {world : World}

/-- The directory of the artifacts is there if the artifact of a source is. -/
theorem left_ensurePrompts (plain : world.tree.Plain) (directory : world.tree.get? (promptsPlace root) = some .directory) :
    (Run.ensureDirectory (.ofLocation (promptsPlace root))).left world = world.tree := by
  have given : (Run.ensureDirectory (.ofLocation (promptsPlace root))).Gives world () world :=
    Run.gives_ensureDirectory.mpr ⟨world.tree, plain.ensureDirectory_eq_self directory, rfl⟩
  exact given.left_eq

/-- The part of the run after the listing of the sources, in which every artifact is in order, on either ending. -/
theorem left_compileListed (plain : before.Plain) (loads : before.Loads (tablePlace root) table)
    (drafts : NoDrafts root before) (inOrder : ∀ source ∈ sourceNames root before, InOrder root before table source)
    (refreshed : Refreshed root before world.tree) (count : Nat) : NothingToDo root before (Run.left (do
      let tally ← (sourceNames root before).foldlM ((ofPlace root).compileSource table) .empty
      for name in ← removeOrphans (.ofLocation (promptsPlace root)) tally.artifacts do
        Run.print ("Removed orphan: ".toList ++ name.text)
      (ofPlace root).saveStubs table tally.stubs
      return (tally, count)) world) := by
  have artifacts := fun source listed => (inOrder source listed).exists_artifact
  have compiled := refreshed.left_compileSources plain drafts inOrder
  refine Run.left_bind _ (compiled.trimmed.idle artifacts) fun tally middle compiling => ?_
  rw [compiling.left_eq] at compiled
  -- The sums are those of a run through all sources.
  obtain ⟨turns, sources, follows⟩ := Follows.of_gives refreshed.plain compiling
  have expected : tally.artifacts = (sourceNames root before).map fun source => nameFor source.text := by
    rw [follows.sums_eq.2.1, ← sources, List.map_map]
    rfl
  have new : ToolTable.AreStubs table tally.stubs := by
    rw [follows.sums_eq.1]
    exact (ToolTable.areStubs_empty table).stubAll _
  have trimmed := compiled.left_removeOrphans expected
  refine Run.left_bind _ (trimmed.idle artifacts) fun removed cleared removing => ?_
  rw [removing.left_eq] at trimmed
  have prints := (Run.speaks_forIn removed fun name =>
    Run.speaks_print ("Removed orphan: ".toList ++ name.text)).still
  refine prints.left_bind _ (trimmed.idle artifacts) fun _ told _ same => ?_
  rw [← same] at trimmed
  rw [Run.left_bind_still fun _ => Run.still_pure _]
  exact trimmed.left_saveStubs artifacts loads new

/-- Compiling a project in which every artifact is in order, on either ending. -/
theorem left_compile (plain : world.tree.Plain) (loads : world.tree.Loads (tablePlace root) table)
    (drafts : NoDrafts root world.tree)
    (inOrder : ∀ source ∈ sourceNames root world.tree, InOrder root world.tree table source) :
    NothingToDo root world.tree ((ofPlace root).compile.left world) := by
  have start : Refreshed root world.tree world.tree := .refl plain
  have idle := start.trimmed.idle fun source listed => (inOrder source listed).exists_artifact
  rw [Layout.compile]
  refine (ToolTable.still_load _).left_bind _ idle fun loaded ready loading same => ?_
  rw [ofPlace_table] at loading
  obtain rfl := (ToolTable.loads_of_gives plain loading).1.unique loads
  rw [← same] at plain inOrder drafts start idle loads ⊢
  refine (Run.still_ask _).left_bind _ idle fun sources listed listing _ => ?_
  obtain ⟨known, rfl⟩ := Run.gives_ask.mp listing
  obtain rfl := sources_of_ok plain known
  split
  · exact idle
  rename_i notEmpty
  rw [ofPlace_prompts]
  have directory : ready.tree.get? (promptsPlace root) = .some .directory := by
    obtain ⟨source, listed⟩ := List.exists_mem_of_ne_nil _ notEmpty
    obtain ⟨old, there⟩ := (inOrder source listed).exists_artifact
    refine plain.within (entryName source) (promptsPlace root) ?_
    rw [show ready.tree.get? (entryName source :: promptsPlace root) = _ from there]
    simp
  have ensured := left_ensurePrompts plain directory
  refine Run.left_bind _ (ensured.symm ▸ idle) fun _ made making => ?_
  rw [making.left_eq] at ensured
  exact left_compileListed plain loads drafts inOrder (ensured.symm ▸ start) _

end Layout

open CommandLine Layout

namespace CommandLine

variable {current : Location} {arguments : List Text} {settings : Settings} {root : Location}

/-- When a review of a project finds neither an error nor a stale artifact, a call of the compiler right after it
makes no artifact, removes only artifacts that belong to no source, and leaves what the artifacts of the sources say
as it is, whatever it returns. Only what was left over where the tool table is written first may go as well. -/
theorem compile_after_clean_review (calls : Calls current arguments settings root) {before checked start : World}
    (plain : before.tree.Plain) (drafts : NoDrafts root before.tree) {minimum : Int} {review : Review}
    (given : ((ofPlace root).review minimum).Gives before review checked) (digests : review.DigestsTell)
    (noErrors : review.errors = .ok []) {warnings : List Diagnostic} (warned : review.warnings = .ok warnings)
    (notStale : ∀ diagnostic ∈ warnings, diagnostic.check ≠ .staleness) (same : start.tree = checked.tree) :
    NothingToDo root before.tree ((compile current arguments).run start).2.tree := by
  obtain ⟨unchanged, table, loads, sees⟩ := sees_of_gives plain given
  have covered := (Review.errors_eq_nil_iff.mp noErrors).2 .coverage rfl
  have fresh := Review.finds_eq_nil_of_warnings warned notStale rfl
  have inOrder := sees.inOrder_iff.mp ⟨covered, fresh, digests⟩
  rw [← same.trans unchanged] at plain loads drafts inOrder ⊢
  have idle := (Refreshed.refl plain).trimmed.idle fun source listed =>
    (inOrder source listed).exists_artifact
  exact compile_left _ calls plain idle (left_compile plain loads drafts inOrder)

/-- A project in which every artifact is in order is reviewed without an error and without a stale artifact, if the
checks of the tools and of the integrity find nothing about any source. -/
theorem gives_clean_review {before : World} (plain : before.tree.Plain) {table : ToolTable}
    (loads : before.tree.Loads (tablePlace root) table)
    (commands : before.tree.get? (commandsPlace root) = some .directory)
    (prompts : before.tree.get? (promptsPlace root) = some .directory)
    (outputs : ∀ name content, isArtifact name.text = true →
      before.tree.get? (name :: promptsPlace root) = some (.file content) → ∃ text, content = Text.utf8 text)
    (inOrder : ∀ source ∈ sourceNames root before.tree, InOrder root before.tree table source)
    (sound : ∀ review : Review, review.project.table = table → ∀ source ∈ sourceNames root before.tree,
      ∀ text content, before.tree.get? (source :: commandsPlace root) = some (.file (Text.utf8 text)) →
        before.tree.get? (artifactPlace root source) = some (.file (Text.utf8 content)) →
        review.checkTools source.text content = .ok [] ∧ Review.checkIntegrity source.text text content = [])
    (minimum : Int) : ∃ (checked : World) (review : Review) (warnings : List Diagnostic),
      ((ofPlace root).review minimum).Gives before review checked ∧ review.DigestsTell ∧ review.errors = .ok [] ∧
        review.warnings = .ok warnings ∧ ∀ diagnostic ∈ warnings, diagnostic.check ≠ .staleness := by
  have texts : ∀ name ∈ sourceNames root before.tree, ∃ text,
      before.tree.get? (name :: commandsPlace root) = some (.file (Text.utf8 text)) := by
    intro source listed
    obtain ⟨text, old, read, -⟩ := inOrder source listed
    exact ⟨text, read⟩
  obtain ⟨review, checked, given, -, looks⟩ := gives_review plain loads commands prompts texts outputs minimum
  obtain ⟨-, loaded, loads', sees⟩ := sees_of_gives plain given
  obtain rfl := loads'.unique loads
  obtain ⟨covered, fresh, digests⟩ := sees.inOrder_iff.mpr inOrder
  have known : review.project.table = loaded := by rw [looks.project]
  have auditable : review.Auditable := by
    rintro stop ⟨key, listed, content, there, stops⟩
    obtain ⟨⟨_, text⟩, entry, rfl⟩ := List.mem_map.mp listed
    obtain ⟨source, member, rfl, read, was⟩ := sees.exists_compared entry there
    have checked := (sound review known source member text content read was).1
    rw [Review.checkTools, stops] at checked
    cases checked
  refine ⟨checked, review, _, given, digests, Review.errors_eq_nil_iff.mpr ⟨auditable, fun check fails => ?_⟩,
    Review.warnings_eq_ok_iff.mpr ⟨auditable, rfl⟩, fun diagnostic member => ?_⟩
  · cases check with
    | coverage => exact covered
    | toolAccuracy =>
      refine sees.finds_eq_nil (by decide) fun source listed text content read there => ?_
      exact Review.toolFindings_eq_of_ok (sound review known source listed text content read there).1
    | integrity =>
      exact sees.finds_eq_nil (by decide) fun source listed text content read there =>
        (sound review known source listed text content read there).2
    | threshold | staleness => cases fails
  · exact Review.finds_eq_nil_iff.mp fresh diagnostic (List.mem_filter.mp member).1

/-- What compiling the source of the small project gives. -/
def sampleArtifact : Text :=
  Text.joinLines ["---".toList, "name: gsd.a".toList, "description: \"GSD command gsd.a\"".toList, "tools: []".toList,
    "agent: agent".toList, "---".toList, [], "<!-- upstream-tools: [\"Zap\"] -->".toList,
    "<!-- omitted-tools: [\"zap\"] (no Copilot equivalent found) -->".toList, [], "See @commands/gsd/a.md".toList, []]

/-- The small project with its artifact, in which lines end otherwise, and with a text left over where the tool table
is written first. -/
def leftOverWorld : World where
  tree := ⟨[((promptsPlace []).tail, .directory),
    (promptsPlace [], .directory),
    (artifactPlace [] sampleName, .file (LineEnding.crlf.restore sampleArtifact).utf8),
    (scriptsPlace [], .directory),
    (tableDraftPlace [], .file (Text.utf8 "left over".toList))] ++ sampleTree.entries⟩
  output := []
  complaints := []

private theorem leftOver_plain : leftOverWorld.tree.Plain := Plain.of_isPlain (by decide)

private theorem leftOver_fileNames : leftOverWorld.tree.fileNames (promptsPlace []) = [entryName sampleName] := by
  have names : leftOverWorld.tree.names (promptsPlace []) = [entryName sampleName] := by
    change ([entryName sampleName] : List Name).mergeSort _ = _
    exact List.mergeSort_singleton _
  rw [fileNames, names]
  rfl

private theorem leftOver_sourceNames : sourceNames [] leftOverWorld.tree = [sampleName] := by
  have names : leftOverWorld.tree.names (commandsPlace []) = [sampleName] := by
    change ([sampleName] : List Name).mergeSort _ = _
    exact List.mergeSort_singleton _
  rw [sourceNames, fileNames, names]
  rfl

private theorem leftOver_source : leftOverWorld.tree.get? (sampleName :: commandsPlace []) =
    some (.file (Text.utf8 "---\nallowed-tools: [Zap]\n---\nSee @commands/gsd/a.md\n".toList)) := rfl

private theorem leftOver_artifact : leftOverWorld.tree.get? (artifactPlace [] sampleName) =
    some (.file (LineEnding.crlf.restore sampleArtifact).utf8) := rfl

private theorem leftOver_noDrafts : NoDrafts [] leftOverWorld.tree := by
  intro name content drafted there
  have listed : name ∈ leftOverWorld.tree.fileNames (promptsPlace []) := (mem_fileNames_iff _ _).mpr ⟨content, there⟩
  rw [leftOver_fileNames, List.mem_singleton] at listed
  subst listed
  exact absurd drafted (by decide)

/-- The review of this project finds neither an error nor a stale artifact. -/
theorem leftOver_reviewed : ∃ (checked : World) (review : Review) (warnings : List Diagnostic),
    ((ofPlace []).review 1).Gives leftOverWorld review checked ∧ review.DigestsTell ∧ review.errors = .ok [] ∧
      review.warnings = .ok warnings ∧ ∀ diagnostic ∈ warnings, diagnostic.check ≠ .staleness := by
  have missing : leftOverWorld.tree.get? (tablePlace []) = none := by decide
  have loads : leftOverWorld.tree.Loads (tablePlace []) .empty := by rw [Loads, missing]
  refine gives_clean_review leftOver_plain loads (by decide) (by decide) ?_ ?_ ?_ 1
  · intro name content _ there
    have listed : name ∈ leftOverWorld.tree.fileNames (promptsPlace []) := (mem_fileNames_iff _ _).mpr ⟨content, there⟩
    rw [leftOver_fileNames, List.mem_singleton] at listed
    subst listed
    exact ⟨_, Entry.file.inj (Option.some.inj (there.symm.trans leftOver_artifact))⟩
  · intro source listed
    obtain rfl := List.mem_singleton.mp (leftOver_sourceNames ▸ listed)
    exact ⟨_, _, leftOver_source, leftOver_artifact, by decide +kernel⟩
  · intro review known source listed text content read there
    obtain rfl := List.mem_singleton.mp (leftOver_sourceNames ▸ listed)
    obtain rfl := Text.utf8_inj (Entry.file.inj (Option.some.inj (read.symm.trans leftOver_source)))
    obtain rfl := Text.utf8_inj (Entry.file.inj (Option.some.inj (there.symm.trans leftOver_artifact)))
    have declared : declaredTools? (LineEnding.crlf.restore sampleArtifact) = .ok (some ["Zap".toList]) := by
      decide +kernel
    constructor
    · rw [Review.checkTools, declared]
      simp only [Except.map, Review.compareTools, Review.expectedTools, known]
      decide +kernel
    · decide

theorem compile_after_clean_review_sample : ∃ (checked : World) (review : Review) (warnings : List Diagnostic),
    leftOverWorld.tree.Plain ∧ NoDrafts [] leftOverWorld.tree ∧
      ((ofPlace []).review 1).Gives leftOverWorld review checked ∧ review.DigestsTell ∧ review.errors = .ok [] ∧
      review.warnings = .ok warnings ∧ (∀ diagnostic ∈ warnings, diagnostic.check ≠ .staleness) ∧
      NothingToDo [] leftOverWorld.tree ((compile [] []).run checked).2.tree := by
  obtain ⟨checked, review, warnings, given, digests, noErrors, warned, notStale⟩ := leftOver_reviewed
  exact ⟨checked, review, warnings, leftOver_plain, leftOver_noDrafts, given, digests, noErrors, warned, notStale,
    compile_after_clean_review calls_sample leftOver_plain leftOver_noDrafts given digests noErrors warned notStale rfl⟩

/-- Entering new stubs moves the table that was written first over the old one; what was left over there is gone,
although it is no artifact. -/
theorem compile_removes_leftOver : ∃ (before checked start : World) (review : Review) (warnings : List Diagnostic)
    (place : Location), Calls [] [] [] [] ∧ before.tree.Plain ∧ NoDrafts [] before.tree ∧
      ((ofPlace []).review 1).Gives before review checked ∧ review.DigestsTell ∧ review.errors = .ok [] ∧
      review.warnings = .ok warnings ∧ (∀ diagnostic ∈ warnings, diagnostic.check ≠ .staleness) ∧
      start.tree = checked.tree ∧
      before.tree.get? place ≠ none ∧ ((compile [] []).run start).2.tree.get? place = none ∧
      ¬ IsOrphan [] before.tree place := by
  obtain ⟨checked, review, warnings, given, digests, noErrors, warned, notStale⟩ := leftOver_reviewed
  have unchanged := (sees_of_gives leftOver_plain given).1
  have there : leftOverWorld.tree.get? (tableDraftPlace []) ≠ none := by decide
  have gone : ((compile [] []).run leftOverWorld).2.tree.get? (tableDraftPlace []) = none := by decide +kernel
  refine ⟨leftOverWorld, checked, leftOverWorld, review, warnings, tableDraftPlace [], calls_sample, leftOver_plain,
    leftOver_noDrafts, given, digests, noErrors, warned, notStale, unchanged.symm, there, gone, ?_⟩
  rintro ⟨name, content, here, -⟩
  exact scriptsPlace_ne_promptsPlace [] (List.cons.inj here).2

end CommandLine

end PromptCompiler
