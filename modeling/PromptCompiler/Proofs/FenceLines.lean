import PromptCompiler.Proofs.HeaderFields

/-! # Counting fence lines

A scan leaves a block open exactly if a text has an odd number of fence lines, and then the last of them opens
it. Whether a line is a fence line is decided by its first characters, so that fence lines can be counted
character by character: a line is blank so far, or has begun with some backticks, or is settled. Texts that
count the same and leave the same progress, wherever they begin, can stand for each other in any text;
in particular those that settle a line at once, as long as none of them ends it.
-/

namespace PromptCompiler.Fence

/-! ## Scans -/

def countLines (text : Text) : Nat := (Text.lines text).countP isFence

/-- Whether a text has its last fence line at a place, counted from one. -/
def IsLast (text : Text) (number : Nat) : Prop :=
  ∃ before line after, Text.lines text = before ++ line :: after ∧ isFence line = true ∧
    (∀ other ∈ after, isFence other = false) ∧ number = before.length + 1

/-- A block is open exactly after an odd number of fence lines. -/
theorem foldl_next_isSome (pieces : List Text) (start : Nat) (report : Report) :
    ((pieces.zipIdx start).foldl Report.next report).openLine.isSome =
      (report.openLine.isSome ^^ decide (pieces.countP isFence % 2 = 1)) := by
  induction pieces generalizing start report with
  | nil => simp
  | cons line rest ih =>
    rw [List.zipIdx_cons, List.foldl_cons, ih, Report.next]
    cases fence : isFence line with
    | false => simp [fence]
    | true =>
      have parity : decide ((rest.countP isFence + 1) % 2 = 1) = !decide (rest.countP isFence % 2 = 1) := by
        rw [← decide_not]
        exact decide_eq_decide.mpr (by omega)
      rw [List.countP_cons_of_pos fence, parity]
      cases report.openLine <;> cases decide (rest.countP isFence % 2 = 1) <;> rfl

/-- A scan leaves a block open exactly if the number of fence lines is odd. -/
theorem scan_isSome_iff (text : Text) : (scan text).openLine.isSome = true ↔ countLines text % 2 = 1 := by
  rw [scan, foldl_next_isSome]
  simp [countLines]

/-- The line that opens the block left open is the last fence line. -/
theorem isLast_of_scan {text : Text} {number : Nat} (opened : (scan text).openLine = some number) :
    IsLast text number := by
  rw [scan] at opened
  rw [IsLast]
  generalize Text.lines text = pieces at opened ⊢
  induction pieces using List.reverseRecOn with
  | nil => cases opened
  | append_singleton before line ih =>
    rw [List.zipIdx_append, List.foldl_append, List.zipIdx_singleton, List.foldl_cons, List.foldl_nil, Report.next] at opened
    cases fence : isFence line with
    | true =>
      rw [fence, if_pos rfl] at opened
      refine ⟨before, line, [], rfl, fence, fun other member => absurd member List.not_mem_nil, ?_⟩
      dsimp only at opened
      split at opened
      · rw [← Option.some.inj opened, Nat.add_comm]
      · cases opened
    | false =>
      rw [fence, if_neg Bool.false_ne_true] at opened
      obtain ⟨front, last, after, rfl, isLast, unfenced, same⟩ := ih opened
      refine ⟨front, last, after ++ [line], by simp, isLast, fun other member => ?_, same⟩
      rcases List.mem_append.mp member with inside | final
      · exact unfenced other inside
      · exact List.mem_singleton.mp final ▸ fence

/-! ## Counting character by character -/

/-- How far a line has got towards being a fence line. -/
inductive Progress where
  /-- It has nothing but blanks so far. -/
  | blank
  | oneTick
  | twoTicks
  /-- Whether it is a fence line does not depend on what follows. -/
  | settled
deriving DecidableEq

namespace Progress

def step (progress : Progress) (c : Char) : Progress :=
  if c = '\n' then .blank
  else match progress with
    | .blank => if c = '`' then .oneTick else if Text.isBlank c then .blank else .settled
    | .oneTick => if c = '`' then .twoTicks else .settled
    | .twoTicks | .settled => .settled

/-- Whether a character makes a line a fence line. -/
def completes : Progress → Char → Bool
  | .twoTicks, c => c = '`'
  | .blank, _ | .oneTick, _ | .settled, _ => false

def after (progress : Progress) (text : Text) : Progress := text.foldl step progress

/-- The number of lines that become fence lines in a text. -/
def count (progress : Progress) : Text → Nat
  | [] => 0
  | c :: rest => (progress.completes c).toNat + (progress.step c).count rest

/-- Whether the rest of a line makes it a fence line. -/
def finishes : Progress → Text → Bool
  | .blank, rest => isFence rest
  | .oneTick, rest => "``".toList.isPrefixOf rest
  | .twoTicks, rest => "`".toList.isPrefixOf rest
  | .settled, _ => false

@[simp] theorem step_feed (progress : Progress) : progress.step '\n' = .blank := rfl

@[simp] theorem completes_feed (progress : Progress) : progress.completes '\n' = false := by cases progress <;> rfl

private theorem completes_eq_false (progress : Progress) {c : Char} (noTick : c ≠ '`') :
    progress.completes c = false := by
  cases progress <;> simp [completes, noTick]

theorem after_append (progress : Progress) (first second : Text) :
    progress.after (first ++ second) = (progress.after first).after second := List.foldl_append

private theorem count_append (progress : Progress) (first second : Text) :
    progress.count (first ++ second) = progress.count first + (progress.after first).count second := by
  induction first generalizing progress with
  | nil => rw [List.nil_append, count, after, List.foldl_nil, Nat.zero_add]
  | cons c rest ih => rw [List.cons_append, count, count, ih, Nat.add_assoc, after, after, List.foldl_cons]

private theorem finishes_cons (progress : Progress) {c : Char} (other : c ≠ '\n') (rest : Text) :
    (progress.finishes (c :: rest)).toNat = (progress.completes c).toNat + ((progress.step c).finishes rest).toNat := by
  have begins (more : Text) : ('`' :: more).isPrefixOf (c :: rest) = (decide (c = '`') && more.isPrefixOf rest) := by
    rw [List.isPrefixOf, beq_eq_decide, decide_eq_decide.mpr eq_comm]
  have kept : progress.step c = match progress with
      | .blank => if c = '`' then .oneTick else if Text.isBlank c then .blank else .settled
      | .oneTick => if c = '`' then .twoTicks else .settled
      | .twoTicks | .settled => .settled := if_neg other
  rw [kept]
  cases progress with
  | blank =>
    by_cases space : Text.isBlank c
    · have skipped : isFence (c :: rest) = isFence rest := by
        rw [isFence, isFence, Text.trimStart, Text.trimStart, List.dropWhile_cons_of_pos space]
      have noTick : c ≠ '`' := by
        rintro rfl
        cases space
      simp [finishes, completes, skipped, noTick, space]
    · have solid : finishes .blank (c :: rest) = (decide (c = '`') && finishes .oneTick rest) := by
        rw [finishes, isFence, Text.trimStart, List.dropWhile_cons_of_neg space]
        exact begins _
      rw [solid]
      by_cases tick : c = '`' <;> simp [tick, space, completes, finishes]
  | oneTick =>
    have second : finishes .oneTick (c :: rest) = (decide (c = '`') && finishes .twoTicks rest) := begins _
    rw [second]
    by_cases tick : c = '`' <;> simp [tick, completes, finishes]
  | twoTicks =>
    have third : finishes .twoTicks (c :: rest) = (decide (c = '`') && [].isPrefixOf rest) := begins _
    rw [third]
    by_cases tick : c = '`' <;> simp [tick, completes, finishes]
  | settled => rfl

/-- Counting character by character counts what is left of the first line and all later lines. -/
theorem count_eq (progress : Progress) {text first : Text} {later : List Text} (pieces : Text.lines text = first :: later) :
    progress.count text = (progress.finishes first).toNat + later.countP isFence := by
  induction text generalizing progress first later with
  | nil =>
    cases pieces
    cases progress <;> rfl
  | cons c rest ih =>
    obtain ⟨next, more, split⟩ := List.exists_cons_of_ne_nil (Text.lines_ne_nil rest)
    rw [Text.lines_cons, split] at pieces
    rw [count, ih _ split]
    split at pieces
    · rename_i feed
      cases pieces
      have ended : progress.finishes [] = false := by cases progress <;> rfl
      rw [feed, step_feed, completes_feed, ended, List.countP_cons, finishes]
      cases isFence next <;> simp [Nat.add_comm]
    · rename_i other
      cases pieces
      rw [finishes_cons progress other, Nat.add_assoc]

end Progress

private theorem countLines_eq (text : Text) : countLines text = Progress.blank.count text := by
  obtain ⟨first, later, pieces⟩ := List.exists_cons_of_ne_nil (Text.lines_ne_nil text)
  rw [Progress.count_eq _ pieces, countLines, pieces, List.countP_cons, Progress.finishes, Nat.add_comm]
  cases isFence first <;> rfl

/-! ## Texts that stand for each other -/

/-- Texts that have the same fence lines and leave the same progress, wherever they begin. -/
structure Alike (first second : Text) : Prop where
  count : ∀ progress : Progress, progress.count first = progress.count second
  after : ∀ progress : Progress, progress.after first = progress.after second

/-- Whether a text has, after its leading blanks, a character other than a backtick. -/
def isSolid (text : Text) : Bool := (Text.trimStart text).head?.any (· ≠ '`')

/-- A text that settles every line in which it begins, and does not end it. -/
structure Settles (text : Text) : Prop where
  unbroken : '\n' ∉ text
  /-- Its first character that is no blank is no backtick. -/
  solid : isSolid text = true

variable {first second third text : Text}

theorem isSolid_iff : isSolid text = true ↔ ∃ c rest, Text.trimStart text = c :: rest ∧ c ≠ '`' := by
  rw [isSolid]
  cases Text.trimStart text <;> simp

theorem Alike.countLines (alike : Alike first second) : countLines first = countLines second := by
  rw [countLines_eq, countLines_eq, alike.count]

theorem Alike.refl (text : Text) : Alike text text := ⟨fun _ => rfl, fun _ => rfl⟩

theorem Alike.trans (alike : Alike first second) (alike' : Alike second third) : Alike first third :=
  ⟨fun progress => (alike.count progress).trans (alike'.count progress),
    fun progress => (alike.after progress).trans (alike'.after progress)⟩

theorem Alike.append {first' second' : Text} (alike : Alike first first') (alike' : Alike second second') :
    Alike (first ++ second) (first' ++ second') where
  count progress := by
    rw [Progress.count_append, Progress.count_append, alike.count, alike.after, alike'.count]
  after progress := by
    rw [Progress.after_append, Progress.after_append, alike.after, alike'.after]

theorem Alike.cons (c : Char) (alike : Alike first second) : Alike (c :: first) (c :: second) :=
  (Alike.refl [c]).append alike

namespace Progress

private theorem settled_of_unbroken (unbroken : '\n' ∉ text) :
    settled.count text = 0 ∧ settled.after text = settled := by
  induction text with
  | nil => exact ⟨rfl, rfl⟩
  | cons c rest ih =>
    obtain ⟨other, later⟩ := not_or.mp (List.mem_cons.not.mp unbroken)
    have stays : settled.step c = settled := if_neg (Ne.symm other)
    obtain ⟨count, after⟩ := ih later
    refine ⟨?_, ?_⟩
    · rw [Progress.count, stays, count]
      rfl
    · rw [Progress.after, List.foldl_cons, stays]
      exact after

/-- After a text that settles a line the line is settled, and it has not become a fence line in the text. -/
theorem of_settles (settles : Settles text) (progress : Progress) :
    progress.count text = 0 ∧ progress.after text = .settled := by
  induction text generalizing progress with
  | nil =>
    cases settles.solid
  | cons c rest ih =>
    obtain ⟨other, unbroken⟩ := not_or.mp (List.mem_cons.not.mp settles.unbroken)
    obtain ⟨d, more, starts, noTick⟩ := isSolid_iff.mp settles.solid
    have unfinished : c ≠ '`' := by
      rintro rfl
      cases starts
      exact noTick rfl
    have onward (next : Progress) (stepped : progress.step c = next)
        (later : next.count rest = 0 ∧ next.after rest = .settled) :
        progress.count (c :: rest) = 0 ∧ progress.after (c :: rest) = .settled := by
      rw [Progress.count, progress.completes_eq_false unfinished, stepped, later.1, Progress.after, List.foldl_cons, stepped]
      exact ⟨rfl, later.2⟩
    -- Leading blanks leave a blank line blank; every other line is settled by the first character.
    by_cases space : Text.isBlank c
    · rw [Text.trimStart, List.dropWhile_cons_of_pos space] at starts
      cases progress with
      | blank =>
        have stays : blank.step c = blank := by simp [step, unfinished, space]
        exact onward _ stays (ih ⟨unbroken, isSolid_iff.mpr ⟨d, more, starts, noTick⟩⟩ blank)
      | oneTick | twoTicks | settled =>
        exact onward settled (by simp [step, Ne.symm other, unfinished]) (settled_of_unbroken unbroken)
    · have settled' : progress.step c = settled := by cases progress <;> simp [step, Ne.symm other, unfinished, space]
      exact onward settled settled' (settled_of_unbroken unbroken)

end Progress

theorem Settles.alike (settles : Settles first) (settles' : Settles second) : Alike first second where
  count progress := ((Progress.of_settles settles progress).1).trans (Progress.of_settles settles' progress).1.symm
  after progress := ((Progress.of_settles settles progress).2).trans (Progress.of_settles settles' progress).2.symm

theorem isSolid_append (solid : isSolid first = true) (second : Text) : isSolid (first ++ second) = true := by
  obtain ⟨c, rest, starts, noTick⟩ := isSolid_iff.mp solid
  rw [Text.trimStart] at starts
  refine isSolid_iff.mpr ⟨c, rest ++ second, ?_, noTick⟩
  rw [Text.trimStart, List.dropWhile_append, starts]
  rfl

theorem Settles.append (settles : Settles first) (unbroken : '\n' ∉ second) : Settles (first ++ second) where
  unbroken := by
    rw [List.mem_append, not_or]
    exact ⟨settles.unbroken, unbroken⟩
  solid := isSolid_append settles.solid second

theorem Settles.cons {c : Char} (solid : Text.isBlank c = false) (noTick : c ≠ '`') (unbroken : '\n' ∉ text) :
    Settles (c :: text) where
  unbroken := by
    rw [List.mem_cons, not_or]
    refine ⟨?_, unbroken⟩
    rintro rfl
    cases solid
  solid := isSolid_iff.mpr ⟨c, text, List.dropWhile_cons_of_neg (by simp [solid]), noTick⟩

/-! ## Texts put together -/

theorem isFence_of_isSolid (solid : isSolid text = true) : isFence text = false := by
  obtain ⟨c, rest, starts, noTick⟩ := isSolid_iff.mp solid
  rw [isFence, starts]
  simp [mark, List.isPrefixOf, Ne.symm noTick]

theorem countLines_append (before after : Text) :
    countLines (before ++ '\n' :: after) = countLines before + countLines after := by
  rw [countLines, Text.lines, List.splitOn_append_cons_self, List.countP_append]
  rfl

theorem countLines_joinLines {pieces : List Text} (unbroken : ∀ line ∈ pieces, '\n' ∉ line) :
    countLines (Text.joinLines pieces) = pieces.countP isFence := by
  by_cases empty : pieces = []
  · subst empty
    rfl
  · have lines : Text.lines (Text.joinLines pieces) = pieces := List.splitOn_intercalate '\n' unbroken empty
    rw [countLines, lines]

/-- Lines that are solid give no fence line. -/
theorem countLines_joinLines_eq_zero {pieces : List Text} (settles : ∀ line ∈ pieces, Settles line) :
    countLines (Text.joinLines pieces) = 0 := by
  rw [countLines_joinLines fun line member => (settles line member).unbroken, List.countP_eq_zero]
  intro line member
  rw [isFence_of_isSolid (settles line member).solid]
  exact Bool.false_ne_true

private theorem Progress.count_of_blank (progress : Progress) (blank : ∀ c ∈ text, Text.isBlank c = true) :
    progress.count text = 0 := by
  induction text generalizing progress with
  | nil => rfl
  | cons c rest ih =>
    have noTick : c ≠ '`' := by
      rintro rfl
      exact absurd (blank '`' List.mem_cons_self) (by decide)
    rw [Progress.count, progress.completes_eq_false noTick, ih _ fun d member => blank d (List.mem_cons_of_mem c member)]
    rfl

/-- Trailing blanks make no fence line. -/
theorem countLines_trimEnd (text : Text) : countLines (Text.trimEnd text) = countLines text := by
  have split : text = Text.trimEnd text ++ (text.reverse.takeWhile Text.isBlank).reverse := by
    rw [Text.trimEnd, Text.dropEndWhile, ← List.reverse_append, List.takeWhile_append_dropWhile, List.reverse_reverse]
  have blank : ∀ c ∈ (text.reverse.takeWhile Text.isBlank).reverse, Text.isBlank c = true := by
    intro c member
    exact List.mem_takeWhile_imp (List.mem_reverse.mp member)
  conv_rhs => rw [split]
  rw [countLines_eq, countLines_eq, Progress.count_append, Progress.count_of_blank _ blank, Nat.add_zero]

/-- A blank text has no fence line. -/
theorem countLines_of_trim (blank : Text.trim text = []) : countLines text = 0 := by
  rw [countLines_eq]
  refine Progress.count_of_blank _ fun c member => ?_
  by_contra solid
  have kept : c ∈ Text.trim text := Text.mem_trimOf member (by simpa using solid)
  rw [blank] at kept
  cases kept

end PromptCompiler.Fence
