import PromptCompiler.Proofs.FreshCompile
import PromptCompiler.Proofs.HeaderFields

/-! # What a review says about the tree

A review that is given has read the sources and the artifacts of the project as they are in the tree. So if it
finds no artifact missing and none stale, every source has an artifact, and the artifact says what compiling the
source gives, unless that is withheld.
-/

namespace PromptCompiler

open FileTree Artifact

namespace Layout

variable {root : Location} {tree : FileTree} {table : ToolTable} {review : Review}

/-! ## The texts that were read -/

/-- Texts that are read one after another are those of files. -/
theorem readEach_of_gives {before after : World} (plain : before.tree.Plain) {place : Location} {names : List Name}
    {entries : List (Text × Text)}
    (given : (names.mapM fun name => return (name.text, ← Run.readText ((Path.ofLocation place).child name)) :
      Run (List (Text × Text))).Gives before entries after) :
    after = before ∧ entries.map Prod.fst = names.map Name.text ∧
      ∀ key text, (key, text) ∈ entries →
        ∃ name, name.text = key ∧ before.tree.get? (name :: place) = some (.file (Text.utf8 text)) := by
  induction names generalizing entries with
  | nil =>
    obtain ⟨rfl, rfl⟩ := Run.gives_pure.mp given
    exact ⟨rfl, rfl, by simp⟩
  | cons name rest ih =>
    simp only [List.mapM_cons, Run.gives_bind, Run.gives_readText, Run.gives_pure, Path.child_ofLocation,
      plain.read_eq_ok_iff] at given ih
    obtain ⟨_, _, ⟨text, _, ⟨there, rfl⟩, rfl, rfl⟩, others, _, later, rfl, rfl⟩ := given
    obtain ⟨rfl, keys, files⟩ := ih later
    refine ⟨rfl, by rw [List.map_cons, List.map_cons, keys], fun key text' member => ?_⟩
    rcases List.mem_cons.mp member with same | member
    · obtain ⟨rfl, rfl⟩ := Prod.mk.inj same
      exact ⟨name, rfl, there⟩
    · exact files key text' member

/-- Texts that are read, each under its name, are those of files. -/
theorem readTexts_of_gives {before after : World} (plain : before.tree.Plain) {place : Location} {names : List Name}
    (distinct : names.Nodup) {texts : OrderedMap Text}
    (given : (readTexts (.ofLocation place) names).Gives before texts after) :
    after = before ∧ texts.keys = names.map Name.text ∧ ∀ name text, texts.get? name.text = some text →
      before.tree.get? (name :: place) = some (.file (Text.utf8 text)) := by
  obtain ⟨entries, middle, reading, ended⟩ := Run.gives_bind.mp given
  obtain ⟨rfl, rfl⟩ := Run.gives_pure.mp ended
  obtain ⟨rfl, keys, files⟩ := readEach_of_gives plain reading
  have apart : (entries.map Prod.fst).Nodup := by
    rw [keys]
    exact List.pairwise_map.mpr (distinct.imp fun apart same => apart (Name.ext same))
  refine ⟨rfl, by rw [OrderedMap.keys, OrderedMap.ofList_entries apart, keys], fun name text found => ?_⟩
  obtain ⟨other, same, there⟩ := files name.text text (OrderedMap.mem_of_get?_ofList found)
  rwa [← Name.ext same]

/-- What a review looks at has been read. -/
structure Sees (root : Location) (tree : FileTree) (table : ToolTable) (review : Review) : Prop
    extends Looks root tree table review where
  sourceFiles : ∀ name text, review.sources.get? name.text = some text →
    tree.get? (name :: commandsPlace root) = some (.file (Text.utf8 text))
  artifactFiles : ∀ name text, review.artifacts.get? name.text = some text →
    tree.get? (name :: promptsPlace root) = some (.file (Text.utf8 text))

/-- The text of a file with a key is what the key has, if only texts of files are kept. -/
theorem get?_of_file {texts : OrderedMap Text} {place : Location} {name : Name} {text : Text}
    (files : ∀ name text, texts.get? name.text = some text → tree.get? (name :: place) = some (.file (Text.utf8 text)))
    (key : name.text ∈ texts.keys) (there : tree.get? (name :: place) = some (.file (Text.utf8 text))) :
    texts.get? name.text = some text := by
  obtain ⟨entry, member, same⟩ := List.mem_map.mp key
  have known : texts.get? name.text = some entry.2 := OrderedMap.get?_of_mem (same ▸ member)
  have read := (files name entry.2 known).symm.trans there
  rw [known, Text.utf8_inj (Entry.file.inj (Option.some.inj read))]

/-- A review is of the tree, which it leaves as it is. -/
theorem sees_of_gives {before after : World} (plain : before.tree.Plain) {minimum : Int}
    (given : ((ofPlace root).review minimum).Gives before review after) :
    after.tree = before.tree ∧
      ∃ table, before.tree.Loads (tablePlace root) table ∧ Sees root before.tree table review := by
  simp only [Layout.review, Run.gives_bind, Run.gives_ask, Run.gives_currentTree, Run.gives_pure] at given
  obtain ⟨table, loaded, loading, names, _, ⟨listing, rfl⟩, sources, read, reading, others, _, ⟨listing', rfl⟩, artifacts,
    last, reading', _, _, ⟨rfl, rfl⟩, rfl, rfl⟩ := given
  rw [ofPlace_table] at loading
  rw [ofPlace_commands] at listing reading
  rw [ofPlace_prompts] at listing' reading'
  obtain ⟨loads, same⟩ := ToolTable.loads_of_gives plain loading
  rw [← same] at plain loads ⊢
  obtain ⟨files, listed, rfl⟩ := except_map_eq_ok_iff.mp listing
  obtain rfl := plain.files_of_ok listed
  obtain ⟨rfl, keys, sourceFiles⟩ := readTexts_of_gives plain (listed_sourceNames root loaded.tree).nodup reading
  obtain ⟨files', listed', rfl⟩ := except_map_eq_ok_iff.mp listing'
  obtain rfl := plain.files_of_ok listed'
  obtain ⟨rfl, keys', artifactFiles⟩ := readTexts_of_gives plain
    ((read.tree.listed_fileNames (promptsPlace root)).filter fun name => isArtifact name.text).nodup reading'
  refine ⟨rfl, table, loads, ⟨rfl, ofPlace_commands root, keys, fun name listed text there => ?_,
    fun name text named there => ?_⟩, sourceFiles, artifactFiles⟩
  · exact get?_of_file sourceFiles (keys ▸ List.mem_map_of_mem listed) there
  · have listed : name ∈ (last.tree.fileNames (promptsPlace root)).filter fun name => isArtifact name.text :=
      List.mem_filter.mpr ⟨(mem_fileNames_iff _ _).mpr ⟨_, there⟩, named⟩
    exact get?_of_file artifactFiles (keys' ▸ List.mem_map_of_mem listed) there

/-! ## Artifacts in order -/

/-- Whether a source has an artifact that says what compiling the source gives, unless that is withheld. Line
endings do not count. -/
def InOrder (root : Location) (tree : FileTree) (table : ToolTable) (source : Name) : Prop :=
  ∃ text old, tree.get? (source :: commandsPlace root) = some (.file (Text.utf8 text)) ∧
    tree.get? (artifactPlace root source) = some (.file (Text.utf8 old)) ∧
    let draft := (⟨tree, .ofLocation root, table⟩ : Project).compile (.ofLocation (source :: commandsPlace root)) text
      .empty
    draft.withheld = false → LineEnding.toLineFeeds draft.output = LineEnding.toLineFeeds old

theorem InOrder.exists_artifact {source : Name} (inOrder : InOrder root tree table source) :
    ∃ old, tree.get? (artifactPlace root source) = some (.file (Text.utf8 old)) := by
  obtain ⟨-, old, -, there, -⟩ := inOrder
  exact ⟨old, there⟩

end Layout

namespace Review

/-- Whether the digests that a review compares tell different texts apart. -/
def DigestsTell (review : Review) : Prop :=
  ∀ source text content, (source, text) ∈ review.sources.entries →
    review.artifacts.get? (nameFor source) = some content → (review.draft source text).withheld = false →
    Digest.ofText (LineEnding.toLineFeeds (review.draft source text).output) =
      Digest.ofText (LineEnding.toLineFeeds content) →
    LineEnding.toLineFeeds (review.draft source text).output = LineEnding.toLineFeeds content

/-- Where a comparison finds nothing, it finds nothing in any artifact. -/
theorem findsIn_eq_nil {review : Review} {check : Check} (compares : check ≠ .threshold ∧ check ≠ .coverage)
    (nothing : review.finds check = []) {source text content : Text} (entry : (source, text) ∈ review.sources.entries)
    (there : review.artifacts.get? (nameFor source) = some content) : review.findsIn source text content check = [] := by
  rw [finds_eq_flatMap review compares.1] at nothing
  have without := List.flatMap_eq_nil_iff.mp nothing (source, text) entry
  rwa [findsAbout_eq review source text compares.2, there] at without

theorem checkStaleness_eq_nil_iff {review : Review} {source text content : Text} :
    review.checkStaleness source text content = [] ↔ ((review.draft source text).withheld = false →
      Digest.ofText (LineEnding.toLineFeeds (review.draft source text).output) =
        Digest.ofText (LineEnding.toLineFeeds content)) := by
  rw [checkStaleness, checkDraft]
  split
  · rename_i withheld
    exact iff_of_true rfl fun written => Bool.noConfusion (withheld.symm.trans written)
  · rename_i written
    split
    · rename_i same
      exact iff_of_true rfl fun _ => same
    · rename_i other
      exact iff_of_false (List.cons_ne_nil _ _) fun same => other (same (Bool.eq_false_iff.mpr written))

private theorem exists_artifact_of_coverage {review : Review} (nothing : review.finds .coverage = []) {source : Text}
    (listed : source ∈ review.sources.keys) : ∃ content, review.artifacts.get? (nameFor source) = some content := by
  obtain ⟨entry, member, rfl⟩ := List.mem_map.mp listed
  have found := List.flatMap_eq_nil_iff.mp nothing entry member
  rw [findsAbout, checkCoverage] at found
  split at found
  · rename_i present
    exact Option.isSome_iff_exists.mp present
  · cases found

end Review

namespace Layout

variable {root : Location} {tree : FileTree} {table : ToolTable} {review : Review}

/-- What a source of a review would be compiled to. -/
theorem Looks.draft_eq (looks : Looks root tree table review) (source : Name) (text : Text) :
    review.draft source.text text =
      (⟨tree, .ofLocation root, table⟩ : Project).compile (.ofLocation (source :: commandsPlace root)) text .empty := by
  rw [Review.draft, looks.project, looks.commands, Path.join_name]

private theorem Looks.exists_source (looks : Looks root tree table review) {key : Text}
    (listed : key ∈ review.sources.keys) :
    ∃ source ∈ sourceNames root tree, source.text = key := by
  rw [looks.keys] at listed
  exact List.mem_map.mp listed

/-- The texts that a review compares are those of a source and its artifact. -/
theorem Sees.exists_compared (sees : Sees root tree table review) {key text content : Text}
    (entry : (key, text) ∈ review.sources.entries) (there : review.artifacts.get? (nameFor key) = some content) :
    ∃ source ∈ sourceNames root tree, source.text = key ∧
      tree.get? (source :: commandsPlace root) = some (.file (Text.utf8 text)) ∧
      tree.get? (artifactPlace root source) = some (.file (Text.utf8 content)) := by
  obtain ⟨source, listed, rfl⟩ := sees.exists_source (List.mem_map_of_mem entry)
  exact ⟨source, listed, rfl, sees.sourceFiles source text (OrderedMap.get?_of_mem entry),
    sees.artifactFiles (entryName source) content there⟩

/-- A comparison finds nothing if it finds nothing about any source and its artifact. -/
theorem Sees.finds_eq_nil (sees : Sees root tree table review) {check : Check}
    (compares : check ≠ .threshold ∧ check ≠ .coverage) (nothing : ∀ source ∈ sourceNames root tree, ∀ text content,
      tree.get? (source :: commandsPlace root) = some (.file (Text.utf8 text)) →
      tree.get? (artifactPlace root source) = some (.file (Text.utf8 content)) →
        review.findsIn source.text text content check = []) :
    review.finds check = [] := by
  rw [Review.finds_eq_flatMap review compares.1]
  refine List.flatMap_eq_nil_iff.mpr ?_
  rintro ⟨key, text⟩ entry
  rw [Review.findsAbout_eq review key text compares.2]
  cases there : review.artifacts.get? (nameFor key) with
  | none => rfl
  | some content =>
    obtain ⟨source, listed, rfl, read, was⟩ := sees.exists_compared entry there
    exact nothing source listed text content read was

/-- An artifact in order has the text that the source compiles to, whatever texts are read. -/
theorem InOrder.output_eq {source : Name} (inOrder : InOrder root tree table source) {text content : Text}
    (read : tree.get? (source :: commandsPlace root) = some (.file (Text.utf8 text)))
    (there : tree.get? (artifactPlace root source) = some (.file (Text.utf8 content))) :
    let draft := (⟨tree, .ofLocation root, table⟩ : Project).compile (.ofLocation (source :: commandsPlace root)) text
      .empty
    draft.withheld = false → LineEnding.toLineFeeds draft.output = LineEnding.toLineFeeds content := by
  obtain ⟨text', old, read', there', current⟩ := inOrder
  rw [read', Option.some.injEq, Entry.file.injEq] at read
  rw [there', Option.some.injEq, Entry.file.injEq] at there
  obtain rfl := Text.utf8_inj read
  obtain rfl := Text.utf8_inj there
  exact current

/-- Where digests tell texts apart, a review finds no artifact missing and none stale exactly if every artifact is in
order. -/
theorem Sees.inOrder_iff (sees : Sees root tree table review) :
    (review.finds .coverage = [] ∧ review.finds .staleness = [] ∧ review.DigestsTell) ↔
      ∀ source ∈ sourceNames root tree, InOrder root tree table source := by
  constructor
  · rintro ⟨covered, fresh, digests⟩ source listed
    have key : source.text ∈ review.sources.keys := by
      rw [sees.keys]
      exact List.mem_map_of_mem listed
    obtain ⟨old, there⟩ := Review.exists_artifact_of_coverage covered key
    obtain ⟨⟨_, text⟩, entry, rfl⟩ := List.mem_map.mp key
    refine ⟨text, old, sees.sourceFiles source text (OrderedMap.get?_of_mem entry),
      sees.artifactFiles (entryName source) old there, ?_⟩
    intro draft written
    rw [show draft = review.draft source.text text from (sees.draft_eq source text).symm] at written ⊢
    have nothing := Review.findsIn_eq_nil (by decide) fresh entry there
    exact digests source.text text old entry there written (Review.checkStaleness_eq_nil_iff.mp nothing written)
  · intro inOrder
    refine ⟨List.flatMap_eq_nil_iff.mpr ?_, ?_, fun key text content entry there written _ => ?_⟩
    · rintro ⟨_, text⟩ entry
      obtain ⟨source, member, rfl⟩ := sees.exists_source (List.mem_map_of_mem entry)
      obtain ⟨old, there⟩ := (inOrder source member).exists_artifact
      have found : review.artifacts.get? (nameFor source.text) = some old :=
        sees.artifacts (entryName source) old (isArtifact_nameFor source.text) there
      rw [Review.findsAbout, Review.checkCoverage, OrderedMap.contains, found]
      rfl
    · refine sees.finds_eq_nil (by decide) fun source listed text content read there => ?_
      rw [Review.findsIn, Review.checkStaleness_eq_nil_iff, sees.draft_eq]
      exact fun written => congrArg _ ((inOrder source listed).output_eq read there written)
    · obtain ⟨source, listed, rfl, read, was⟩ := sees.exists_compared entry there
      rw [sees.draft_eq] at written ⊢
      exact (inOrder source listed).output_eq read was written

end Layout

end PromptCompiler
