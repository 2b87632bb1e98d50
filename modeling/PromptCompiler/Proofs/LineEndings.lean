import Mathlib.Data.List.Basic
import Mathlib.Data.List.TakeDrop
import PromptCompiler.Proofs.Drafts

/-! # Compiling under another line ending

A document that ends its lines with line feeds and the same document with a carriage return before
every line feed compile to the same artifact, up to that carriage return. The header of the second is
read line by line as that of the first, because nothing that reads a header line looks at carriage
returns at its end; the body of the second becomes that of the first before it is rewritten.
-/

namespace PromptCompiler

/-! ## Lines with a carriage return at their end -/

/-- Lines with a carriage return at the end of each that a line feed follows. -/
def withReturns : List Text → List Text
  | [] => []
  | [last] => [last]
  | line :: next :: rest => (line ++ ['\r']) :: withReturns (next :: rest)

theorem Text.lines_ne_nil (text : Text) : Text.lines text ≠ [] := List.splitOn_ne_nil '\n' text

theorem Text.joinLines_cons (line next : Text) (pieces : List Text) :
    Text.joinLines (line :: next :: pieces) = line ++ '\n' :: Text.joinLines (next :: pieces) := by
  simp only [Text.joinLines, List.intercalate_cons_cons, List.append_assoc, List.cons_append, List.nil_append]

theorem Text.joinLines_singleton (line : Text) : joinLines [line] = line := List.intercalate_singleton

theorem Text.joinLines_append {first second : List Text} (notEmpty : first ≠ []) (notEmpty' : second ≠ []) :
    joinLines (first ++ second) = joinLines first ++ '\n' :: joinLines second := by
  induction first with
  | nil => contradiction
  | cons line rest ih =>
    cases rest with
    | nil =>
      obtain ⟨next, more, rfl⟩ := List.exists_cons_of_ne_nil notEmpty'
      rw [List.singleton_append, joinLines_cons, joinLines_singleton]
    | cons next more =>
      have later := ih (List.cons_ne_nil next more)
      rw [List.cons_append] at later ⊢
      rw [List.cons_append, joinLines_cons, later, joinLines_cons, List.append_assoc, List.cons_append]

theorem Text.lines_append (before after : Text) :
    lines (before ++ '\n' :: after) = lines before ++ lines after := List.splitOn_append_cons_self before after

/-- A line feed before a text adds an empty first line; any other character joins the first line. -/
theorem Text.lines_cons (c : Char) (text : Text) :
    Text.lines (c :: text) =
      if c = '\n' then [] :: Text.lines text else (Text.lines text).modifyHead (c :: ·) := by
  simp only [Text.lines, List.splitOn_cons_eq_if_modifyHead, beq_iff_eq]

theorem Text.not_mem_of_mem_lines {text line : Text} (member : line ∈ Text.lines text) :
    '\n' ∉ line := by
  induction text generalizing line with
  | nil =>
    obtain rfl := List.mem_singleton.mp (member : line ∈ [[]])
    exact List.not_mem_nil
  | cons c rest ih =>
    rw [Text.lines_cons] at member
    split at member
    · rcases List.mem_cons.mp member with rfl | later
      · exact List.not_mem_nil
      · exact ih later
    · rename_i other
      obtain ⟨first, later, split⟩ := List.exists_cons_of_ne_nil (Text.lines_ne_nil rest)
      rw [split] at member ih
      rcases List.mem_cons.mp member with rfl | after
      · intro feed
        rcases List.mem_cons.mp feed with same | inside
        · exact other same.symm
        · exact ih List.mem_cons_self inside
      · exact ih (List.mem_cons_of_mem first after)

theorem LineEnding.restore_crlf_cons (c : Char) (text : Text) :
    LineEnding.restore .crlf (c :: text) =
      (if c = '\n' then ['\r', '\n'] else [c]) ++ LineEnding.restore .crlf text := rfl

theorem LineEnding.restore_crlf_append (first second : Text) :
    LineEnding.restore .crlf (first ++ second) =
      LineEnding.restore .crlf first ++ LineEnding.restore .crlf second := List.flatMap_append

private theorem withReturns_modifyHead (c : Char) {pieces : List Text} (notEmpty : pieces ≠ []) :
    withReturns (pieces.modifyHead (c :: ·)) = (withReturns pieces).modifyHead (c :: ·) := by
  cases pieces with
  | nil => contradiction
  | cons line rest => cases rest <;> rfl

/-- Putting a carriage return before every line feed puts one at the end of every line but the last. -/
theorem Text.lines_restore (text : Text) :
    Text.lines (LineEnding.restore .crlf text) = withReturns (Text.lines text) := by
  induction text with
  | nil => rfl
  | cons c rest ih =>
    obtain ⟨line, more, split⟩ := List.exists_cons_of_ne_nil (Text.lines_ne_nil rest)
    by_cases feed : c = '\n'
    · subst feed
      have returned : ('\r' : Char) ≠ '\n' := by decide
      simp only [LineEnding.restore_crlf_cons, if_true, List.cons_append, List.nil_append,
        Text.lines_cons, returned, if_false, List.modifyHead_cons, ih, split, withReturns]
    · simp only [LineEnding.restore_crlf_cons, feed, if_false, List.cons_append, List.nil_append,
        Text.lines_cons, ih]
      exact (withReturns_modifyHead c (Text.lines_ne_nil rest)).symm

/-- A step that takes a line with and without a carriage return alike runs alike through the lines. -/
theorem foldl_withReturns {α : Type} (step : α → Text × Nat → α)
    (alike : ∀ state line n, step state (line ++ ['\r'], n) = step state (line, n))
    (pieces : List Text) (start : Nat) (state : α) :
    ((withReturns pieces).zipIdx start).foldl step state = (pieces.zipIdx start).foldl step state := by
  induction pieces generalizing start state with
  | nil => rfl
  | cons line rest ih =>
    cases rest with
    | nil => rfl
    | cons next more =>
      simp only [withReturns, List.zipIdx_cons, List.foldl_cons, alike] at ih ⊢
      exact ih _ _

private theorem dropWhile_withReturns (test : Text → Bool) (alike : ∀ line, test (line ++ ['\r']) = test line)
    (pieces : List Text) :
    (withReturns pieces).dropWhile test = withReturns (pieces.dropWhile test) := by
  induction pieces with
  | nil => rfl
  | cons line rest ih =>
    cases rest with
    | nil => cases passed : test line <;> simp [withReturns, passed]
    | cons next more =>
      cases passed : test line
      · simp [withReturns, alike, passed]
      · simpa [withReturns, alike, passed] using ih

private theorem map_takeWhile_withReturns (test : Text → Bool) (strip : Text → Text)
    (alike : ∀ line, test (line ++ ['\r']) = test line)
    (stripped : ∀ line, strip (line ++ ['\r']) = strip line) (pieces : List Text) :
    ((withReturns pieces).takeWhile test).map strip = (pieces.takeWhile test).map strip := by
  induction pieces with
  | nil => rfl
  | cons line rest ih =>
    cases rest with
    | nil => rfl
    | cons next more =>
      cases passed : test line
      · simp [withReturns, alike, passed]
      · simpa [withReturns, alike, passed, stripped] using ih

private theorem joinLines_withReturns {pieces : List Text} (unbroken : ∀ line ∈ pieces, '\n' ∉ line) :
    Text.joinLines (withReturns pieces) = LineEnding.restore .crlf (Text.joinLines pieces) := by
  by_cases empty : pieces = []
  · subst empty; rfl
  · have split : Text.lines (Text.joinLines pieces) = pieces :=
      List.splitOn_intercalate '\n' unbroken empty
    calc
      Text.joinLines (withReturns pieces) =
          Text.joinLines (Text.lines (LineEnding.restore .crlf (Text.joinLines pieces))) := by
        rw [Text.lines_restore, split]
      _ = LineEnding.restore .crlf (Text.joinLines pieces) := Text.joinLines_lines _

/-! ## Reading lines with a carriage return at their end -/

theorem Text.dropEndWhile_append {dropped : Char → Bool} {c : Char} (drop : dropped c = true)
    (text : Text) : Text.dropEndWhile dropped (text ++ [c]) = Text.dropEndWhile dropped text := by
  simp [Text.dropEndWhile, drop]

private theorem Header.isDelimiter_return (line : Text) :
    Header.isDelimiter (line ++ ['\r']) = Header.isDelimiter line := by
  rw [Header.isDelimiter, Text.dropEndWhile_append (by decide), Header.isDelimiter]

/-- A mark without carriage returns begins a line with one at its end if it begins the line. -/
theorem isPrefixOf_return {mark : Text} (plain : '\r' ∉ mark) (line : Text) :
    mark.isPrefixOf (line ++ ['\r']) = mark.isPrefixOf line := by
  induction mark generalizing line with
  | nil => rfl
  | cons c rest ih =>
    have other : c ≠ '\r' := fun same => plain (same ▸ List.mem_cons_self)
    have later : '\r' ∉ rest := fun member => plain (List.mem_cons_of_mem c member)
    cases line with
    | nil => simp [List.isPrefixOf, other]
    | cons d line => simp [List.isPrefixOf, ih later]

private theorem Fence.isFence_return (line : Text) : Fence.isFence (line ++ ['\r']) = Fence.isFence line := by
  simp only [Fence.isFence, Text.trimStart, List.dropWhile_append]
  split
  · rename_i blank
    rw [List.isEmpty_iff.mp blank]
    rfl
  · exact isPrefixOf_return (by decide) _

theorem Fence.scan_restore (text : Text) : Fence.scan (LineEnding.restore .crlf text) = Fence.scan text := by
  rw [Fence.scan, Text.lines_restore, foldl_withReturns, Fence.scan]
  intro report line n
  simp only [Fence.Report.next, Fence.isFence_return]

/-! ## Headers -/

namespace Header

/-- A line without the carriage returns at its end, as header lines are kept. -/
def withoutReturns (line : Text) : Text := Text.dropEndWhile (· == '\r') line

theorem split?_of_lines {text first : Text} {later : List Text} (split : Text.lines text = first :: later) :
    split? text =
      if isDelimiter first then
        match later.dropWhile (!isDelimiter ·) with
        | [] => none
        | _ :: after =>
          some ((later.takeWhile (!isDelimiter ·)).map withoutReturns, Text.joinLines after)
      else none := by
  simp only [split?, split, List.span_eq_takeWhile_dropWhile]
  split
  · cases later.dropWhile (!isDelimiter ·) <;> rfl
  · rfl

/-- With a carriage return before every line feed a text has the same header lines, and the text after
its header has a carriage return before every line feed. -/
theorem split?_restore (text : Text) :
    split? (LineEnding.restore .crlf text) =
      (split? text).map fun header => (header.1, LineEnding.restore .crlf header.2) := by
  obtain ⟨first, later, split⟩ := List.exists_cons_of_ne_nil (Text.lines_ne_nil text)
  have unbroken : ∀ line ∈ later, '\n' ∉ line := by
    intro line member
    exact Text.not_mem_of_mem_lines (split ▸ List.mem_cons_of_mem first member)
  have undelimited (line : Text) : (!isDelimiter (line ++ ['\r'])) = !isDelimiter line := by
    rw [isDelimiter_return]
  have stripped (line : Text) : withoutReturns (line ++ ['\r']) = withoutReturns line :=
    Text.dropEndWhile_append rfl line
  cases later with
  | nil =>
    have same : Text.lines (LineEnding.restore .crlf text) = [first] := by
      rw [Text.lines_restore, split]; rfl
    simp [split?_of_lines split, split?_of_lines same]
  | cons next rest =>
    have returned : Text.lines (LineEnding.restore .crlf text) =
        (first ++ ['\r']) :: withReturns (next :: rest) := by
      rw [Text.lines_restore, split]; rfl
    rw [split?_of_lines split, split?_of_lines returned, isDelimiter_return,
      dropWhile_withReturns _ undelimited, map_takeWhile_withReturns _ _ undelimited stripped]
    split
    · cases closed : (next :: rest).dropWhile (!isDelimiter ·) with
      | nil => rfl
      | cons line after =>
        have kept : ∀ line ∈ after, '\n' ∉ line := fun line member => unbroken line
          ((List.dropWhile_suffix _).subset (closed ▸ List.mem_cons_of_mem _ member))
        simp only [Option.map_some, ← joinLines_withReturns kept]
        cases after <;> rfl
    · rfl

end Header

private theorem Text.trimStart_restore (text : Text) :
    Text.trimStart (LineEnding.restore .crlf text) = LineEnding.restore .crlf (Text.trimStart text) := by
  induction text with
  | nil => rfl
  | cons c rest ih =>
    simp only [Text.trimStart, LineEnding.restore_crlf_cons] at ih ⊢
    by_cases feed : c = '\n'
    · subst feed
      exact ih
    · simp only [feed, if_false, List.cons_append, List.nil_append, List.dropWhile_cons]
      split
      · exact ih
      · simp only [LineEnding.restore_crlf_cons, feed, if_false, List.cons_append, List.nil_append]

theorem Header.parts_restore (text : Text) :
    Header.parts (LineEnding.restore .crlf text) =
      { Header.parts text with body := LineEnding.restore .crlf (Header.parts text).body } := by
  simp only [Header.parts, Header.split?_restore]
  cases Header.split? text with
  | none => rfl
  | some header => simp only [Option.map_some, Text.trimStart_restore]

private theorem ToolDeclaration.ofText_restore (text : Text) :
    ToolDeclaration.ofText (LineEnding.restore .crlf text) = ToolDeclaration.ofText text := by
  simp only [ToolDeclaration.ofText, Header.split?_restore]
  cases Header.split? text <;> rfl

/-! ## Bodies -/

namespace LineEnding

/-- Taking the carriage returns away again gives any text back, also one that had some before. -/
theorem toLineFeeds_restore (text : Text) : toLineFeeds (restore .crlf text) = text := by
  induction text with
  | nil => rfl
  | cons c rest ih =>
    rw [restore_crlf_cons]
    by_cases feed : c = '\n'
    · subst feed
      simp only [if_true, List.cons_append, List.nil_append, toLineFeeds, ih]
    · simp only [feed, if_false, List.cons_append, List.nil_append]
      rw [toLineFeeds, ih]
      -- A line feed that follows was restored behind a carriage return of its own.
      rintro _ rfl same
      cases rest with
      | nil => cases same
      | cons d later =>
        rw [restore_crlf_cons] at same
        split at same
        · cases same
        · rename_i other
          exact other (List.cons.inj same).1

theorem toLineFeeds_of_not_infix {text : Text} (plain : ¬ ['\r', '\n'] <:+: text) :
    toLineFeeds text = text := by
  fun_induction toLineFeeds text with
  | case1 => rfl
  | case2 rest => exact absurd ⟨[], rest, rfl⟩ plain
  | case3 c rest _ ih =>
    rw [ih fun inside => plain (inside.trans (List.suffix_cons c rest).isInfix)]

private theorem detect_of_not_infix {text : Text} (plain : ¬ ['\r', '\n'] <:+: text) : detect text = .lf := by
  rw [detect, if_neg]
  rwa [Text.occursIn_iff]

private theorem infix_restore {text : Text} (broken : '\n' ∈ text) : ['\r', '\n'] <:+: restore .crlf text := by
  obtain ⟨before, after, rfl⟩ := List.append_of_mem broken
  refine ⟨restore .crlf before, restore .crlf after, ?_⟩
  rw [restore_crlf_append, restore_crlf_cons, if_pos rfl, List.append_assoc]

private theorem detect_restore {text : Text} (broken : '\n' ∈ text) : detect (restore .crlf text) = .crlf := by
  rw [detect, if_pos]
  rw [Text.occursIn_iff]
  exact infix_restore broken

private theorem infix_append_feed {line : Text} (unbroken : '\n' ∉ line) (rest : Text) :
    ['\r', '\n'] <:+: line ++ '\n' :: rest ↔ line.getLast? = some '\r' ∨ ['\r', '\n'] <:+: rest := by
  constructor
  · rintro ⟨before, after, whole⟩
    rw [List.append_assoc] at whole
    rcases List.append_eq_append_iff.mp whole with ⟨inner, same, later⟩ | ⟨beyond, same, later⟩
    · -- The line reaches into the mark, up to its line feed.
      match inner with
      | [] => cases later
      | [c] =>
        obtain ⟨rfl, -⟩ := List.cons.inj later
        rw [same, List.getLast?_concat]
        exact .inl rfl
      | c :: d :: inner =>
        obtain ⟨-, later⟩ := List.cons.inj later
        obtain ⟨rfl, -⟩ := List.cons.inj later
        exact absurd (same ▸ by simp) unbroken
    · -- The mark begins after the line.
      cases beyond with
      | nil => cases later
      | cons c beyond =>
        obtain ⟨-, rfl⟩ := List.cons.inj later
        exact .inr ⟨beyond, after, by simp⟩
  · rintro (last | later)
    · obtain ⟨front, rfl⟩ := List.getLast?_eq_some_iff.mp last
      exact ⟨front, rest, by simp⟩
    · exact later.trans ((List.suffix_cons '\n' rest).trans (List.suffix_append line _)).isInfix

/-- Lines count as ended by carriage returns and line feeds if one of them, not the last, ends with a carriage
return. -/
theorem detect_joinLines {pieces : List Text} (unbroken : ∀ line ∈ pieces, '\n' ∉ line) :
    detect (Text.joinLines pieces) = if ∃ line ∈ pieces.dropLast, line.getLast? = some '\r' then .crlf else .lf := by
  have occurs : ['\r', '\n'] <:+: Text.joinLines pieces ↔ ∃ line ∈ pieces.dropLast, line.getLast? = some '\r' := by
    induction pieces with
    | nil => decide
    | cons line later ih =>
      obtain ⟨here, rest⟩ := List.forall_mem_cons.mp unbroken
      cases later with
      | nil =>
        rw [Text.joinLines_singleton]
        refine iff_of_false (fun inside => here (inside.subset ?_)) (by simp)
        simp
      | cons next more =>
        rw [Text.joinLines_cons, infix_append_feed here, ih rest, List.dropLast_cons_cons, List.exists_mem_cons_iff]
  simp only [detect, Text.occursIn_iff, occurs]

end LineEnding

private theorem Text.joinLines_suffix {after pieces : List Text} (suffix : after <:+ pieces) :
    Text.joinLines after <:+ Text.joinLines pieces := by
  obtain ⟨before, rfl⟩ := suffix
  induction before with
  | nil => exact List.suffix_refl _
  | cons line before ih =>
    refine ih.trans ?_
    rw [List.cons_append]
    cases rest : before ++ after with
    | nil => exact List.nil_suffix
    | cons next more => exact ⟨line ++ ['\n'], by simp [Text.joinLines, List.intercalate_cons_cons]⟩

private theorem Header.suffix_of_split? {text rest : Text} {lines : List Text}
    (header : Header.split? text = some (lines, rest)) : rest <:+ text := by
  obtain ⟨first, later, split⟩ := List.exists_cons_of_ne_nil (Text.lines_ne_nil text)
  rw [Header.split?_of_lines split] at header
  split at header
  · split at header
    · cases header
    · rename_i line after closed
      cases header
      have inside : after <:+ Text.lines text := by
        rw [split]
        exact (List.suffix_cons line after).trans
          (closed ▸ (List.dropWhile_suffix _).trans (List.suffix_cons first later))
      exact Text.joinLines_lines text ▸ Text.joinLines_suffix inside
  · cases header

private theorem Header.parts_body_suffix (text : Text) : (Header.parts text).body <:+ text := by
  rw [Header.parts]
  split
  · exact List.suffix_refl text
  · rename_i header
    exact (List.dropWhile_suffix _).trans (Header.suffix_of_split? header)

/-! ## Documents -/

namespace Draft

/-- The same draft for a source of which only the line ending is another. -/
def withEnding (draft : Draft) (source : Text) (ending : LineEnding) : Draft :=
  { draft with source := source, lineEnding := ending }

private theorem read_restore (path : Path) (source : Text) (tally : Tally) (broken : '\n' ∈ source)
    (plain : ¬ ['\r', '\n'] <:+: source) :
    (start path (LineEnding.restore .crlf source) tally).read =
      (start path source tally).read.withEnding (LineEnding.restore .crlf source) .crlf := by
  have unbroken : ¬ ['\r', '\n'] <:+: (Header.parts source).body := fun inside =>
    plain (inside.trans (Header.parts_body_suffix source).isInfix)
  simp only [read, readHeader, unifyLineEnding, readTools, withEnding, start, label, Header.parts_restore,
    ToolDeclaration.ofText_restore, LineEnding.detect_restore broken, LineEnding.toLineFeeds_restore,
    LineEnding.toLineFeeds_of_not_infix unbroken]

/-- No stage between reading and restoring looks at the source or at its line ending. -/
theorem assemble_withEnding (project : Project) (draft : Draft) (source : Text) (ending : LineEnding) :
    ((((draft.withEnding source ending).mapTools project.table).convertIncludes.normalizeRuntimePaths).rewriteReferences
        project).assemble =
      (((draft.mapTools project.table).convertIncludes.normalizeRuntimePaths).rewriteReferences
        project).assemble.withEnding source ending := rfl

/-- The fences of an artifact are the same under both line endings. -/
theorem checkFences_restore (draft : Draft) (source : Text) (lf : draft.lineEnding = .lf) :
    (draft.withEnding source .crlf).restoreLineEnding.checkFences =
      { draft.restoreLineEnding.checkFences with
        source := source
        lineEnding := .crlf
        output := LineEnding.restore .crlf draft.restoreLineEnding.checkFences.output } := by
  have unchanged : draft.lineEnding.restore draft.output = draft.output := by rw [lf]; rfl
  have kept : draft.restoreLineEnding = draft := by simp only [restoreLineEnding, unchanged]
  have scanned : Fence.scan (draft.withEnding source .crlf).restoreLineEnding.output =
      Fence.scan draft.output := Fence.scan_restore draft.output
  rw [kept, checkFences, checkFences, scanned]
  cases (Fence.scan draft.output).openLine <;> rfl

end Draft

/-- A document with a carriage return before every line feed compiles as the document without them, in
the same run and with the same findings; its artifact has a carriage return before every line feed. -/
theorem Project.compile_restore (project : Project) (path : Path) (source : Text) (tally : Tally)
    (broken : '\n' ∈ source) (plain : ¬ ['\r', '\n'] <:+: source) :
    project.compile path (LineEnding.restore .crlf source) tally =
      { project.compile path source tally with
        source := LineEnding.restore .crlf source
        lineEnding := .crlf
        output := LineEnding.restore .crlf (project.compile path source tally).output } := by
  have lf : ((Draft.start path source tally).read).lineEnding = .lf :=
    LineEnding.detect_of_not_infix plain
  rw [Project.compile_eq, Project.compile_eq, Draft.prepare, Draft.prepare,
    Draft.read_restore path source tally broken plain, Draft.complete, Draft.assemble_withEnding]
  exact Draft.checkFences_restore _ _ lf

/-- A document with carriage returns next to its line feeds, though never before them. -/
def loneReturns : Text :=
  "---\r\t\nallowed-tools:\n\r  - Zap\r\r \n---\n\r\rAt ../x\n```\n".toList

theorem Project.compile_restore_loneReturns :
    '\n' ∈ loneReturns ∧ ¬ ['\r', '\n'] <:+: loneReturns ∧
      (⟨.empty, ⟨.root, []⟩, .empty⟩ : Project).compile ⟨.root, []⟩ (LineEnding.restore .crlf loneReturns) .empty =
        { (⟨.empty, ⟨.root, []⟩, .empty⟩ : Project).compile ⟨.root, []⟩ loneReturns .empty with
          source := LineEnding.restore .crlf loneReturns
          lineEnding := .crlf
          output := LineEnding.restore .crlf
            ((⟨.empty, ⟨.root, []⟩, .empty⟩ : Project).compile ⟨.root, []⟩ loneReturns .empty).output } := by
  obtain ⟨broken, plain⟩ : '\n' ∈ loneReturns ∧ ¬ ['\r', '\n'] <:+: loneReturns := by decide +kernel
  exact ⟨broken, plain, compile_restore ⟨.empty, ⟨.root, []⟩, .empty⟩ ⟨.root, []⟩ loneReturns .empty broken plain⟩

end PromptCompiler
