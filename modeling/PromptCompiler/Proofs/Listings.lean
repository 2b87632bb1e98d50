import PromptCompiler.Proofs.PlainEffects

/-! # Listings

A listing of a directory names each entry once, in increasing order. So two listings with the same
members are equal, and the files that a run finds in a directory depend on nothing but the view of the
tree.
-/

namespace PromptCompiler

theorem nodup_eraseDups {α : Type} [BEq α] [LawfulBEq α] (items : List α) : items.eraseDups.Nodup := by
  cases items with
  | nil => simp
  | cons first rest =>
    rw [List.eraseDups_cons, List.nodup_cons]
    refine ⟨fun member => ?_, nodup_eraseDups (rest.filter fun other => !other == first)⟩
    have kept := (List.mem_filter.mp (List.mem_eraseDups.mp member)).2
    simp at kept
termination_by items.length
decreasing_by exact Nat.lt_succ_of_le (List.length_filter_le _ rest)

/-- Names in increasing order, each once. -/
structure Listed (names : List Name) : Prop where
  sorted : names.Pairwise fun first second => Text.le first.text second.text
  nodup : names.Nodup

theorem Listed.filter {names : List Name} (listed : Listed names) (wanted : Name → Bool) :
    Listed (names.filter wanted) := ⟨listed.sorted.filter wanted, listed.nodup.filter wanted⟩

/-- Listings with the same members are equal. -/
theorem Listed.ext {first second : List Name} (listed : Listed first) (other : Listed second)
    (same : ∀ name, name ∈ first ↔ name ∈ second) : first = second := by
  refine List.Perm.eq_of_pairwise (fun a b _ _ below above => ?_) listed.sorted other.sorted
    ((List.perm_ext_iff_of_nodup listed.nodup other.nodup).mpr same)
  exact Name.ext (List.le_antisymm (Text.le_iff.mp below) (Text.le_iff.mp above))

namespace FileTree

variable {tree : FileTree}

theorem listed_names (tree : FileTree) (directory : Location) : Listed (tree.names directory) := by
  constructor
  · refine List.pairwise_mergeSort (fun a b c below above => ?_) (fun a b => ?_) _
    · exact Text.le_iff.mpr (List.le_trans (Text.le_iff.mp below) (Text.le_iff.mp above))
    · rw [Bool.or_eq_true, Text.le_iff, Text.le_iff]
      exact List.le_total a.text b.text
  · exact (List.mergeSort_perm _ _).nodup_iff.mpr (nodup_eraseDups _)

theorem mem_names_iff (directory : Location) (name : Name) :
    name ∈ tree.names directory ↔ tree.get? (name :: directory) ≠ none := by
  rw [names, List.mem_mergeSort, List.mem_eraseDups, List.mem_filterMap, get?, if_neg (List.cons_ne_nil _ _),
    ne_eq, Option.map_eq_none_iff, List.find?_eq_none]
  constructor
  · rintro ⟨⟨location, entry⟩, member, chosen⟩ unlisted
    refine unlisted _ member (decide_eq_true ?_)
    split at chosen
    · rename_i inner outer spelled
      split at chosen
      · rename_i same
        cases chosen
        exact spelled.trans (same ▸ rfl)
      · cases chosen
    · cases chosen
  · intro found
    rw [Classical.not_forall] at found
    obtain ⟨entry, found⟩ := found
    rw [Classical.not_imp, Decidable.not_not, decide_eq_true_iff] at found
    refine ⟨entry, found.1, ?_⟩
    rw [found.2]
    simp

def isFileAt (tree : FileTree) (location : Location) : Bool :=
  match tree.get? location with
  | some (.file _) => true
  | _ => false

theorem isFileAt_iff (location : Location) :
    tree.isFileAt location = true ↔ ∃ content, tree.get? location = some (.file content) := by
  rw [isFileAt]
  split
  · rename_i content there
    exact iff_of_true rfl ⟨content, there⟩
  · rename_i other
    exact iff_of_false (by simp) fun ⟨content, there⟩ => other content there

/-- The names of the files in the directory at a place. -/
def fileNames (tree : FileTree) (place : Location) : List Name :=
  (tree.names place).filter fun name => tree.isFileAt (name :: place)

theorem listed_fileNames (tree : FileTree) (place : Location) : Listed (tree.fileNames place) :=
  (tree.listed_names place).filter _

theorem mem_fileNames_iff (place : Location) (name : Name) :
    name ∈ tree.fileNames place ↔ ∃ content, tree.get? (name :: place) = some (.file content) := by
  rw [fileNames, List.mem_filter, mem_names_iff, isFileAt_iff]
  constructor
  · exact fun member => member.2
  · rintro ⟨content, there⟩
    exact ⟨by rw [there]; simp, content, there⟩

theorem filterM_eq_ok {α : Type} {question : α → Except SystemFault Bool} {answer : α → Bool} {items : List α}
    (known : ∀ item ∈ items, question item = .ok (answer item)) :
    items.filterM question = .ok (items.filter answer) := by
  have from_found (found : List α) :
      items.filterAuxM question found = .ok ((items.filter answer).reverse ++ found) := by
    induction items generalizing found with
    | nil => rfl
    | cons item rest ih =>
      have later := ih fun other member => known other (List.mem_cons_of_mem item member)
      rw [List.filterAuxM, known item List.mem_cons_self]
      change rest.filterAuxM question (bif answer item then item :: found else found) = _
      rw [later, List.filter_cons]
      cases answer item <;> simp
  rw [List.filterM, from_found]
  change Except.ok _ = _
  simp

namespace Plain

theorem isFile_eq (plain : tree.Plain) {location : Location} (allowed : ∀ name ∈ location, Allowed name) :
    tree.isFile (.ofLocation location) = .ok (tree.isFileAt location) := by
  rw [isFile, Path.ofLocation, plain.probe_eq .root allowed, isFileAt]
  rfl

/-- The files in a directory are found. -/
theorem files_eq (plain : tree.Plain) {place : Location} (directory : tree.get? place = some .directory) :
    tree.files (.ofLocation place) = .ok (tree.fileNames place) := by
  have reaches := plain.reaches_of_present (by rw [directory]; simp)
  have known := plain.isDirectory_eq reaches.allowed
  rw [(isDirectoryAt_iff place).mpr directory] at known
  have located : tree.locate true (.ofLocation place) = .ok place := (plain.locate_place true).mpr ⟨rfl, reaches⟩
  rw [files, known]
  change (tree.locate true (.ofLocation place) >>= _) = _
  rw [located]
  refine filterM_eq_ok fun name member => ?_
  rw [Path.child_ofLocation]
  exact plain.isFile_eq (plain.allowed_of_present ((mem_names_iff place name).mp member))

/-- What is found as the files in a directory are the files at its place. -/
theorem files_of_ok (plain : tree.Plain) {place : Location} {names : List Name}
    (known : tree.files (.ofLocation place) = .ok names) : names = tree.fileNames place := by
  obtain ⟨there, asked, -⟩ := except_bind_eq_ok_iff.mp known
  cases directory : tree.isDirectoryAt place with
  | true =>
    rw [plain.files_eq ((isDirectoryAt_iff place).mp directory)] at known
    exact (Except.ok.inj known).symm
  | false =>
    rw [files, asked, plain.isDirectory_of_ok asked, directory] at known
    have empty : tree.fileNames place = [] := by
      refine List.eq_nil_iff_forall_not_mem.mpr fun name member => ?_
      obtain ⟨content, file⟩ := (mem_fileNames_iff place name).mp member
      have above := plain.within name place (by rw [file]; simp)
      rw [(isDirectoryAt_iff place).mpr above] at directory
      cases directory
    cases known
    exact empty.symm

end Plain

/-- Trees with the same files in a directory list the same files. -/
theorem fileNames_congr {other : FileTree} {place : Location}
    (same : ∀ name, tree.isFileAt (name :: place) = other.isFileAt (name :: place)) :
    tree.fileNames place = other.fileNames place := by
  refine (tree.listed_fileNames place).ext (other.listed_fileNames place) fun name => ?_
  rw [mem_fileNames_iff, mem_fileNames_iff, ← isFileAt_iff, ← isFileAt_iff, same name]

end FileTree

end PromptCompiler
