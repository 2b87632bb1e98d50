import Mathlib.Algebra.GroupWithZero.Nat
import PromptCompiler.Proofs.KeptFences
import PromptCompiler.Proofs.WrittenHeaders

/-! # Withheld artifacts

Whether an artifact is withheld is found out by a scan of all of it, after every rewriting. Its header, its comments
and its note have no fence line, and the body keeps those of the source; so the artifact is withheld exactly if
the body of the source has an odd number of them. This needs names of entries under the root that settle a
line: a reference at the beginning of a line is rewritten to begin with such a name, and a fence line may
begin with blanks.
-/

namespace PromptCompiler

open Artifact

/-! ## The blocks of an artifact -/

namespace Artifact

open Fence

/-- Blocks have the fence lines that each of them has. -/
theorem countLines_joinBlocks (blocks : List Text) : countLines (joinBlocks blocks) = (blocks.map countLines).sum := by
  have joined (pieces : List Text) : countLines (['\n', '\n'].intercalate pieces) = (pieces.map countLines).sum := by
    induction pieces with
    | nil => rfl
    | cons piece rest ih =>
      cases rest with
      | nil => simp
      | cons next more =>
        have empty (text : Text) : countLines ('\n' :: text) = countLines text := by
          rw [← List.nil_append ('\n' :: text), countLines_append]
          exact Nat.zero_add _
        rw [List.intercalate_cons_cons, List.append_assoc, List.cons_append, countLines_append, List.singleton_append,
          empty, ih]
        simp
  rw [joinBlocks, joined, List.map_map]
  induction blocks with
  | nil => rfl
  | cons block rest ih =>
    by_cases blank : Text.trim block = []
    · rw [List.filter_cons_of_neg (by simpa using blank), ih, List.map_cons, List.sum_cons, countLines_of_trim blank,
        Nat.zero_add]
    · rw [List.filter_cons_of_pos (by simpa using blank), List.map_cons, List.sum_cons, ih, List.map_cons, List.sum_cons,
        Function.comp_apply, countLines_trimEnd]

private theorem not_mem_ofTexts (names : List Text) : '\n' ∉ Json.ofTexts names := by
  have plain (name : Text) : '\n' ∉ Json.ofText name := by
    intro feed
    have inside : '\n' ∈ name.flatMap Json.escaped := by simpa [Json.ofText] using feed
    obtain ⟨c, -, written⟩ := List.mem_flatMap.mp inside
    rcases escaped_cases c with ⟨same, other⟩ | ⟨more, same, passed⟩
    · rw [same] at written
      exact other (List.mem_singleton.mp written).symm
    · rw [same] at written
      exact (passed '\n' ((List.mem_cons.mp written).resolve_left (by decide))).2.2 rfl
  intro feed
  have inside : '\n' ∈ [','].intercalate (names.map Json.ofText) := by simpa [Json.ofTexts] using feed
  rcases Text.mem_of_mem_intercalate inside with between | ⟨piece, listed, here⟩
  · exact absurd between (by decide)
  · obtain ⟨name, -, rfl⟩ := List.mem_map.mp listed
    exact plain name here

namespace Parts

variable {parts : Parts}

private theorem isSolid_headerLines : ∀ line ∈ parts.headerLines, isSolid line = true := by
  intro line member
  obtain ⟨listed, present⟩ := List.mem_filter.mp member
  have notEmpty : line ≠ [] := by simpa using present
  simp only [List.mem_cons, List.not_mem_nil, or_false] at listed
  rcases listed with rfl | rfl | rfl | rfl | rfl
  · exact isSolid_append (by decide) _
  · exact isSolid_append (isSolid_append (by decide) _) _
  · split
    · rename_i unhinted
      rw [if_pos unhinted] at notEmpty
      exact absurd rfl notEmpty
    · exact isSolid_append (isSolid_append (by decide) _) _
  · cases declared : parts.declared with
    | none =>
      rw [declared] at notEmpty
      exact absurd rfl notEmpty
    | some names =>
      rw [toolsLine_some]
      exact isSolid_append (by decide) _
  · decide

private theorem countLines_header (oneLine : parts.OneLine) : countLines parts.header = 0 := by
  have delimiter : Settles "---".toList := ⟨by decide, by decide⟩
  refine countLines_joinLines_eq_zero fun line member => ?_
  rcases List.mem_append.mp member with before | last
  · rcases List.mem_cons.mp before with rfl | inner
    · exact delimiter
    · exact ⟨(oneLine.isInner line inner).1, isSolid_headerLines line inner⟩
  · exact List.mem_singleton.mp last ▸ delimiter

private theorem countLines_comments (parts : Parts) : countLines parts.comments = 0 := by
  have written {before after : Text} (settles : Settles before) (unbroken : '\n' ∉ after) (names : List Text) :
      Settles (before ++ Json.ofTexts names ++ after) := (settles.append (not_mem_ofTexts names)).append unbroken
  refine countLines_joinLines_eq_zero fun line member => ?_
  obtain ⟨listed, present⟩ := List.mem_filter.mp member
  have notEmpty : line ≠ [] := by simpa using present
  simp only [List.mem_cons, List.not_mem_nil, or_false] at listed
  rcases listed with rfl | rfl
  · cases parts.declared with
    | none => exact ⟨by decide, by decide⟩
    | some names => exact written ⟨by decide, by decide⟩ (by decide) names
  · rw [omittedComment] at notEmpty ⊢
    split
    · rename_i empty
      rw [if_pos empty] at notEmpty
      exact absurd rfl notEmpty
    · exact written ⟨by decide, by decide⟩ (by decide) parts.omitted

private theorem countLines_note (parts : Parts) : countLines parts.note = 0 := by
  have lines : ∀ line ∈ questionNoteLines, '\n' ∉ line ∧ isFence line = false := by
    -- A literal is read off as a list of characters here; to decode its bytes takes the kernel long.
    unfold questionNoteLines questionReference
    repeat rw [String.toList_ofList]
    decide
  have plain : countLines questionNote = 0 := by
    rw [questionNote, countLines_joinLines fun line member => (lines line member).1, List.countP_eq_zero]
    exact fun line member => ne_true_of_eq_false (lines line member).2
  rw [note]
  split
  · exact plain
  · rfl

/-- An artifact has the fence lines of its body. -/
theorem countLines_render (oneLine : parts.OneLine) : countLines parts.render = countLines parts.body := by
  rw [render, countLines_append, countLines_joinBlocks]
  simp only [List.map_cons, List.map_nil, List.sum_cons, List.sum_nil, countLines_header oneLine, countLines_comments,
    countLines_note]
  simp [countLines, Text.lines, isFence, Text.trimStart, mark]

end Parts

end Artifact

namespace Project

variable {project : Project} {path : Path} {source : Text} {tally : Tally}

/-- The errors of a document are those of the scan. -/
theorem compile_errors (project : Project) (path : Path) (source : Text) (tally : Tally) :
    (project.compile path source tally).errors =
      ((Fence.scan (project.compile path source tally).output).openLine.map (Draft.openFenceError path.name)).toList := by
  rw [compile_eq, Draft.complete, Draft.checkFences_output, Draft.checkFences]
  split
  · rename_i closed
    rw [closed]
    rfl
  · rename_i line opened
    rw [opened]
    rfl

/-- The body of a document keeps its fence lines up to the artifact. -/
theorem countLines_body (unbroken : '\n' ∉ path.text)
    (entries : ∀ name : Name, project.tree.present (.ofLocation (name :: project.root.location)) = true →
      Fence.isSolid name.text = true) :
    Fence.countLines (project.compile path source tally).parts.body = Fence.countLines (Header.parts source).body := by
  rw [compile_body, (References.alike_rewrite unbroken entries _).countLines, Draft.referringBody,
    (RuntimePaths.alike_normalize _).countLines, Includes.countLines_convert, (LineEnding.alike_toLineFeeds _).countLines]

/-- Whatever is compiled, the artifact is withheld exactly if the body of the source has an odd number of fence lines;
there is then one error, which names the last fence line of the artifact, and otherwise none. The values of the
table and the path of the document stand on one line, and every entry of the root has a name that
settles a line. -/
theorem compile_withheld_iff_odd (project : Project) (path : Path) (source : Text) (tally : Tally)
    (values : ∀ entry ∈ project.table.entries, '\n' ∉ entry.2) (unbroken : '\n' ∉ path.text)
    (entries : ∀ name : Name, project.tree.present (.ofLocation (name :: project.root.location)) = true →
      Fence.isSolid name.text = true) :
    let draft := project.compile path source tally
    (draft.withheld = true ↔ (Text.lines (Header.parts source).body).countP Fence.isFence % 2 = 1) ∧
      (draft.withheld = true → ∃ number, Fence.IsLast draft.output number ∧
        draft.errors = [Draft.openFenceError path.name number]) ∧
      (draft.withheld = false → draft.errors = []) := by
  intro draft
  have named : '\n' ∉ path.name := by
    rw [Path.name]
    cases last : path.steps.getLast? with
    | none => exact List.not_mem_nil
    | some step => exact Path.not_mem_step unbroken (List.mem_of_getLast? last)
  have oneLine : draft.parts.OneLine := compile_oneLine (not_mem_command named) (not_mem_tools values)
  have scanned : Fence.scan draft.output = Fence.scan draft.parts.render :=
    read_compile_output Fence.scan Fence.scan_restore ..
  have withheld : draft.withheld = (Fence.scan draft.output).openLine.isSome := compile_withheld ..
  have errors : draft.errors = ((Fence.scan draft.output).openLine.map (Draft.openFenceError path.name)).toList :=
    compile_errors ..
  refine ⟨?_, fun open' => ?_, fun closed => ?_⟩
  · rw [withheld, scanned, Fence.scan_isSome_iff, Parts.countLines_render oneLine, countLines_body unbroken entries]
    rfl
  · rw [withheld] at open'
    obtain ⟨number, opened⟩ := Option.isSome_iff_exists.mp open'
    refine ⟨number, Fence.isLast_of_scan opened, ?_⟩
    rw [errors, opened]
    rfl
  · rw [withheld, Option.isSome_eq_false_iff, Option.isNone_iff_eq_none] at closed
    rw [errors, closed]
    rfl

namespace Held

def root : Location := [⟨"library".toList, by decide⟩]

/-- A project whose root has one entry, a directory with a file in it. -/
def holding (name : Name) : Project where
  tree := ⟨[(root, .directory), (name :: root, .directory), (⟨['x'], by decide⟩ :: name :: root, .file .empty)]⟩
  root := .ofLocation root
  table := .empty

def document (name : Name) : Path := .ofLocation (⟨"guide.md".toList, by decide⟩ :: ⟨['s'], by decide⟩ :: name :: root)

/-- The draft of a document of the project. -/
def draft (name : Name) (source : Text) : Draft := (holding name).compile (document name) source .empty

def plain : Name := ⟨['d'], by decide⟩

/-- A name with backticks after a blank. -/
def ticked : Name := ⟨" ```d".toList, by decide⟩

def blank : Name := ⟨[' '], by decide⟩

/-- The directory is the only entry of the root. -/
theorem eq_of_present {name other : Name} (plain : (holding name).tree.isPlain = true)
    (there : (holding name).tree.present (.ofLocation (other :: (holding name).root.location)) = true) : other = name := by
  have place : (holding name).root.location = root := Path.location_ofLocation root
  rw [place, Path.ofLocation, (FileTree.Plain.of_isPlain plain).present_eq] at there
  obtain ⟨entry, found⟩ := Option.isSome_iff_exists.mp there
  obtain ⟨known, first, -⟩ := Option.map_eq_some_iff.mp found
  have same : known.1 = other :: root := by simpa using List.find?_some first
  have listed := List.mem_of_find?_eq_some first
  simp only [holding, List.mem_cons, List.not_mem_nil, or_false] at listed
  rcases listed with rfl | rfl | rfl
  · exact absurd (congrArg List.length same) (by simp [root])
  · exact (List.cons.inj same).1.symm
  · exact absurd (congrArg List.length same) (by simp [root])

end Held

open Held in
theorem compile_withheld_iff_odd_sample :
    (∀ entry ∈ (holding plain).table.entries, '\n' ∉ entry.2) ∧ '\n' ∉ (document plain).text ∧
      (∀ name : Name, (holding plain).tree.present (.ofLocation (name :: (holding plain).root.location)) = true →
        Fence.isSolid name.text = true) ∧
      (draft plain "../x\n```\n".toList).withheld = true ∧
      ∃ number, Fence.IsLast (draft plain "../x\n```\n".toList).output number ∧
        (draft plain "../x\n```\n".toList).errors = [Draft.openFenceError (document plain).name number] := by
  have values : ∀ entry ∈ (holding plain).table.entries, '\n' ∉ entry.2 := by decide
  have unbroken : '\n' ∉ (document plain).text := by decide
  have entries (name : Name)
      (there : (holding plain).tree.present (.ofLocation (name :: (holding plain).root.location)) = true) :
      Fence.isSolid name.text = true := by
    rw [eq_of_present (by decide) there]
    decide
  obtain ⟨odd, error, -⟩ := compile_withheld_iff_odd (holding plain) (document plain) "../x\n```\n".toList .empty values
    unbroken entries
  have withheld : (draft plain "../x\n```\n".toList).withheld = true := odd.mpr (by decide)
  exact ⟨values, unbroken, entries, withheld, error withheld⟩

open Held in
/-- A reference at the beginning of a line can become a fence line if the name of an entry of the root has backticks after
a blank, or can let one begin if the name is blank. No such name begins with a backtick, and the sources have no
fence lines, but their artifacts are withheld. -/
theorem compile_withheld_blank :
    (∀ name : Name, (holding ticked).tree.present (.ofLocation (name :: (holding ticked).root.location)) = true →
        name.text.head? ≠ some '`') ∧
      (Text.lines (Header.parts "../x\n".toList).body).countP Fence.isFence = 0 ∧
      (draft ticked "../x\n".toList).withheld = true ∧
    (∀ name : Name, (holding blank).tree.present (.ofLocation (name :: (holding blank).root.location)) = true →
        name.text.head? ≠ some '`') ∧
      (Text.lines (Header.parts "../. ```\n".toList).body).countP Fence.isFence = 0 ∧
      (draft blank "../. ```\n".toList).withheld = true := by
  have untouched {name : Name} (allowed : (holding name).tree.isPlain = true) (begins : name.text.head? ≠ some '`')
      (other : Name)
      (there : (holding name).tree.present (.ofLocation (other :: (holding name).root.location)) = true) :
      other.text.head? ≠ some '`' := by
    rw [eq_of_present allowed there]
    exact begins
  refine ⟨untouched (by decide) (by decide), ?_, ?_, untouched (by decide) (by decide), ?_, ?_⟩
  all_goals decide +kernel

end Project

end PromptCompiler
