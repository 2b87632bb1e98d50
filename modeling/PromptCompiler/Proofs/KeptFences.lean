import PromptCompiler.Proofs.FenceLines
import PromptCompiler.Proofs.RootEntries

/-! # Fence lines that stay

Every stage keeps the fence lines of the body. Carriage returns before line feeds are blanks; an include line is no
fence line, before and after; directories of runtimes and references after an at sign are rewritten where
their line is settled. A reference that steps out of the directory is the exception that has to be looked
at: its text may begin a line, and is replaced by a text that begins with the name of an entry of the root. So fence
lines stay as long as no such name begins with a backtick, leading blanks aside, or is blank.
-/

namespace PromptCompiler

open Fence

private theorem Text.trimStart_dropWhile (text : Text) : trimStart (text.dropWhile isLineBlank) = trimStart text := by
  induction text with
  | nil => rfl
  | cons c rest ih =>
    cases blank : isLineBlank c with
    | false => rw [List.dropWhile_cons_of_neg (by simp [blank])]
    | true =>
      have blank' : isBlank c = true := by
        rcases (by simpa [isLineBlank] using blank : c = ' ' ∨ c = '\t') with rfl | rfl <;> rfl
      rw [List.dropWhile_cons_of_pos blank, ih, trimStart, trimStart, List.dropWhile_cons_of_pos blank']

/-! ## Line endings -/

theorem LineEnding.alike_toLineFeeds (text : Text) : Alike (toLineFeeds text) text := by
  have ended : Alike ['\n'] ['\r', '\n'] :=
    ⟨fun progress => by cases progress <;> rfl, fun progress => by cases progress <;> rfl⟩
  fun_induction toLineFeeds text with
  | case1 => exact .refl []
  | case2 rest ih => exact ended.append ih
  | case3 c rest _ ih => exact ih.cons c

/-! ## Include lines -/

namespace Includes

private theorem target_sublist (rest : Text) : (target rest).Sublist rest := by
  have whole := Text.trim_sublist rest
  rw [target]
  split
  · dsimp only
    split
    · exact whole
    · split
      · exact (Text.trim_sublist _).trans ((List.dropWhile_sublist _).trans (List.drop_sublist _ _))
      · split
        · exact whole
        · exact List.nil_sublist _
  · exact whole

/-- A line that includes something is no fence line. -/
theorem isFence_of_target? {line found : Text} (included : target? line = some found) :
    isFence line = false ∧ found.Sublist line := by
  rw [target?] at included
  split at included
  · rename_i c rest starts
    obtain rfl := Option.some.inj included
    have part : ('@' :: c :: rest).Sublist line := starts ▸ List.dropWhile_sublist _
    refine ⟨?_, (target_sublist _).trans ((List.sublist_cons_self _ _).trans part)⟩
    rw [isFence, ← Text.trimStart_dropWhile, starts]
    rfl
  · cases included

private theorem isFence_convertLine (line : Text) : isFence (convertLine line) = isFence line := by
  rw [convertLine]
  cases included : target? line with
  | none => rfl
  | some found => exact (isFence_of_target? included).1.symm

private theorem not_mem_convertLine {line : Text} (unbroken : '\n' ∉ line) : '\n' ∉ convertLine line := by
  rw [convertLine]
  cases included : target? line with
  | none => exact unbroken
  | some found =>
    intro feed
    rcases List.mem_append.mp feed with opening | inside
    · exact absurd opening (by decide)
    · exact unbroken ((isFence_of_target? included).2.subset inside)

/-- Every line is converted on its own. -/
theorem lines_convert (text : Text) : Text.lines (convert text) = (Text.lines text).map convertLine := by
  have unbroken : ∀ line ∈ (Text.lines text).map convertLine, '\n' ∉ line := by
    intro line member
    obtain ⟨written, listed, rfl⟩ := List.mem_map.mp member
    exact not_mem_convertLine (Text.not_mem_of_mem_lines listed)
  have notEmpty : (Text.lines text).map convertLine ≠ [] := by
    rw [Ne, List.map_eq_nil_iff]
    exact Text.lines_ne_nil text
  exact List.splitOn_intercalate '\n' unbroken notEmpty

theorem countLines_convert (text : Text) : countLines (convert text) = countLines text := by
  rw [countLines, lines_convert, List.countP_map, countLines]
  exact List.countP_congr fun line _ => by rw [Function.comp_apply, isFence_convertLine]

end Includes

/-! ## Runtime directories -/

namespace RuntimePaths

private theorem alike_fromHome (text : Text) : Alike (fromHome text) text := by
  have tilde : Alike ['.'] ['~'] :=
    Settles.alike (.cons (by decide) (by decide) List.not_mem_nil) (.cons (by decide) (by decide) List.not_mem_nil)
  induction text with
  | nil => exact .refl []
  | cons c rest ih =>
    rw [fromHome]
    split
    · rename_i home
      rw [home.1]
      exact tilde.append ih
    · exact ih.cons c

private theorem alike_fromRootAfter (previous : Option Char) (text : Text) :
    Alike (fromRootAfter previous text) text := by
  have slash : Alike ['.', '/'] ['/'] :=
    Settles.alike (.cons (by decide) (by decide) (by decide)) (.cons (by decide) (by decide) List.not_mem_nil)
  induction text generalizing previous with
  | nil => exact .refl []
  | cons c rest ih =>
    rw [fromRootAfter]
    split
    · rename_i begun
      by_cases other : c = '/'
      · subst other
        exact slash.append (ih _)
      · rw [startsDirectory_cons other] at begun
        cases begun.1
    · exact (ih _).cons c

theorem alike_normalize (text : Text) : Alike (normalize text) text :=
  (alike_fromRootAfter none _).trans (alike_fromHome text)

end RuntimePaths

/-! ## References -/

namespace Path

/-- The text of what a reference means, relative to a root, stands on one line. -/
theorem not_mem_relative {base root : Path} {reference relative : Text}
    (found : root.within? (base.lexical reference) = some relative) (unbroken : '\n' ∉ reference)
    (own : base.location = root.location ∨ ∀ name ∈ base.location, '\n' ∉ name.text) : '\n' ∉ relative := by
  obtain ⟨inner, beyond, rfl⟩ := within?_spells found
  split
  · decide
  · intro feed
    obtain ⟨c, member, same⟩ := List.mem_map.mp feed
    split at same
    · cases same
    · rcases Text.mem_of_mem_intercalate (same ▸ member) with between | ⟨piece, listed, inside⟩
      · exact absurd between (by decide)
      · obtain ⟨name, member, rfl⟩ := List.mem_map.mp listed
        exact not_mem_lexical unbroken own beyond name (List.mem_reverse.mp member) inside

private theorem isSolid_substitute {text : Text} (solid : isSolid text = true) :
    isSolid (Text.substitute '\\' '/' text) = true := by
  obtain ⟨c, rest, starts, noTick⟩ := isSolid_iff.mp solid
  have blanks : (fun c => Text.isBlank (if c = '\\' then '/' else c)) = Text.isBlank := by
    funext d
    by_cases replaced : d = '\\'
    · subst replaced
      rfl
    · rw [if_neg replaced]
  have starts' : Text.trimStart (Text.substitute '\\' '/' text) = Text.substitute '\\' '/' (c :: rest) := by
    rw [Text.trimStart, Text.substitute, List.dropWhile_map, Function.comp_def, blanks, ← starts]
    rfl
  refine isSolid_iff.mpr ⟨_, _, starts', ?_⟩
  change (if c = '\\' then '/' else c) ≠ '`'
  split
  · decide
  · exact noTick

/-- The text of a target relative to a root begins with the name of an entry of the root, or is a dot. -/
theorem isSolid_within? {root target : Path} {relative : Text} (found : root.within? target = some relative)
    (solid : ∀ inner name, target.location = inner ++ name :: root.location → isSolid name.text = true) :
    isSolid relative = true := by
  obtain ⟨inner, beyond, rfl⟩ := within?_spells found
  split
  · decide
  · rename_i notEmpty
    obtain ⟨front, name, rfl⟩ := (List.eq_nil_or_concat' inner).resolve_left notEmpty
    obtain ⟨tail, begins⟩ := Text.intercalate_begins ['/'] name.text (front.reverse.map Name.text)
    have named := solid front name (by rw [beyond, List.append_assoc, List.singleton_append])
    rw [List.reverse_append, List.reverse_singleton, List.singleton_append, List.map_cons, begins]
    exact isSolid_substitute (isSolid_append named tail)

end Path

/-! ## Words -/

/-- A rule that keeps the fence lines of words keeps those of a text. -/
theorem Words.alike_rewrite {rule : Text → Text × List Text}
    (keeps : ∀ word, (∀ c ∈ word, isReferenceCharacter c = true) → Alike (rule word).1 word) (source : Text) :
    Alike (rewrite rule source).1 source := by
  induction source using Words.induction with
  | last word whole =>
    rw [rewrite_word rule whole]
    exact keeps word whole
  | more word separator rest whole separates ih =>
    -- A separator cuts the text into a word and a shorter text that are rewritten separately.
    rw [rewrite_append_cons rule separates, rewrite_word rule whole]
    exact (keeps word whole).append (ih.cons separator)

namespace References

/-- A rule keeps the fence lines of words if it writes a reference that settles its line as a text that does. -/
theorem alike_rewriteWord {begins : Option Char → Text → Bool} {rule : Text → Text × List Text}
    (settled : ∀ previous text, begins previous text = true → '\n' ∉ text → Settles text)
    (settles : ∀ previous reference, begins previous reference = true → Settles reference → Settles (rule reference).1) {word : Text}
    (whole : ∀ c ∈ word, isReferenceCharacter c = true) : Alike (rewriteWord begins rule word).1 word := by
  rw [rewriteWord]
  cases cutting : cut? begins word with
  | none => exact .refl word
  | some cut =>
    obtain ⟨split, before, begun⟩ := cutAfter?_spec cutting
    have unbroken : '\n' ∉ cut.reference := fun feed => by
      have allowed := whole '\n' (split ▸ List.mem_append_right _ feed)
      cases allowed
    have reference := settled before _ begun unbroken
    rw [split]
    exact (Alike.refl _).append ((settles before _ begun reference).alike reference)

variable {tree : FileTree} {root document : Path}

/-- A reference that steps out of the directory is rewritten by a text that settles the line, like itself. -/
theorem settles_rewriteParent (unbroken : '\n' ∉ document.text)
    (entries : ∀ name : Name, tree.present (.ofLocation (name :: root.location)) = true → isSolid name.text = true)
    {reference : Text} (settles : Settles reference) : Settles (rewriteParent ⟨tree, root, document⟩ reference).1 := by
  rw [rewriteParent_text]
  cases there : tree.present (document.parent.lexical reference) with
  | false => exact settles
  | true =>
    rw [cond_true, textFor]
    cases found : root.within? (document.parent.lexical reference) with
    | none => exact settles
    | some relative =>
      have plain : '\n' ∉ relative :=
        Path.not_mem_relative found settles.unbroken (.inr fun _ => Path.not_mem_parent unbroken)
      have solid : isSolid relative = true := by
        refine Path.isSolid_within? found fun inner name beyond => entries name ?_
        obtain ⟨count, steps, -⟩ := Path.lexical_steps document.parent reference
        rw [beyond] at steps
        exact FileTree.present_above steps there
      have settled : Settles relative := ⟨plain, solid⟩
      rw [Option.map_some, Option.getD_some, keepSlash]
      split
      · exact settled.append (by decide)
      · exact settled

/-- A reference after an at sign settles the line by the sign, also when it is rewritten. -/
theorem settles_rewriteAnchored (unbroken : '\n' ∉ document.text) {reference : Text}
    (settles : Settles ('@' :: reference)) : Settles (rewriteAnchored ⟨tree, root, document⟩ ('@' :: reference)).1 := by
  have unbroken' : '\n' ∉ reference := fun feed => settles.unbroken (List.mem_cons_of_mem _ feed)
  have written {base : Path} (own : base.location = root.location ∨ ∀ name ∈ base.location, '\n' ∉ name.text) :
      Settles (textFor root (base.lexical reference) (fun relative => '@' :: keepSlash reference relative)
        ('@' :: reference)) := by
    rw [textFor]
    cases found : root.within? (base.lexical reference) with
    | none => exact settles
    | some relative =>
      exact .cons (by decide) (by decide) (not_mem_keepSlash (Path.not_mem_relative found unbroken' own) (by decide))
  rw [rewriteAnchored_text, List.tail_cons]
  cases tree.present (root.lexical reference) with
  | true => exact written (.inl rfl)
  | false =>
    cases tree.present (document.parent.lexical reference) with
    | true => exact written (.inr fun _ => Path.not_mem_parent unbroken)
    | false => exact settles

/-- Rewriting references keeps the fence lines. -/
theorem alike_rewrite (unbroken : '\n' ∉ document.text)
    (entries : ∀ name : Name, tree.present (.ofLocation (name :: root.location)) = true → isSolid name.text = true)
    (text : Text) : Alike (rewrite ⟨tree, root, document⟩ text).1 text := by
  have settled {first : Char} (solid : Text.isBlank first = false) (noTick : first ≠ '`') {text : Text}
      (head : text.head? = some first) (unbroken : '\n' ∉ text) : Settles text := by
    obtain ⟨rest, rfl⟩ := List.head?_eq_some_iff.mp head
    exact .cons solid noTick fun feed => unbroken (List.mem_cons_of_mem _ feed)
  have parents : Alike (Words.rewrite (rewriteWord beginsParent (rewriteParent ⟨tree, root, document⟩)) text).1 text := by
    refine Words.alike_rewrite (fun word => alike_rewriteWord (fun previous text begun => ?_) fun _ _ _ settles => ?_) text
    · exact settled (by decide) (by decide) (head?_of_beginsParent previous text begun)
    · exact settles_rewriteParent unbroken entries settles
  have anchored (text : Text) :
      Alike (Words.rewrite (rewriteWord beginsAnchored (rewriteAnchored ⟨tree, root, document⟩)) text).1 text := by
    refine Words.alike_rewrite (fun word =>
      alike_rewriteWord (fun previous text begun => ?_) fun previous reference begun settles => ?_) text
    · exact settled (by decide) (by decide) (head?_of_beginsAnchored previous text begun)
    · obtain ⟨rest, rfl⟩ := List.head?_eq_some_iff.mp (head?_of_beginsAnchored previous reference begun)
      exact settles_rewriteAnchored unbroken settles
  exact (anchored _).trans parents

end References

end PromptCompiler
