import Mathlib.Data.List.Basic
import Mathlib.Data.List.TakeWhile
import PromptCompiler.Body.Includes
import PromptCompiler.Body.RuntimePaths
import PromptCompiler.Proofs.ToolComments

/-! # Fragments that stay

What rewrites a body changes certain characters, or puts some before them, and leaves the other characters where
they are. So a fragment that has none of these characters stays: it is in the text that comes out if it is in
the text that goes in. An include line loses its beginning, which such a fragment cannot reach into.
-/

namespace PromptCompiler

namespace Text

variable {fragment text : Text}

theorem infix_flatMap {image : Char → Text} (stays : ∀ c ∈ fragment, image c = [c]) (inside : fragment <:+: text) :
    fragment <:+: text.flatMap image := by
  obtain ⟨before, after, rfl⟩ := inside
  have same : fragment.flatMap image = fragment :=
    (List.flatMap_congr stays).trans (List.flatMap_singleton' fragment)
  refine ⟨before.flatMap image, after.flatMap image, ?_⟩
  rw [List.flatMap_append, List.flatMap_append, same]

/-- A fragment that is not in the first part and cannot begin there is in the second part. -/
theorem infix_of_append {first : Char} {more before : Text} (absent : first ∉ before)
    (inside : first :: more <:+: before ++ text) : first :: more <:+: text := by
  induction before with
  | nil => exact inside
  | cons c before ih =>
    obtain ⟨other, later⟩ : first ≠ c ∧ first ∉ before := by simpa using absent
    rcases List.infix_cons_iff.mp inside with start | inside
    · exact absurd (List.cons_prefix_cons.mp start).1 other
    · exact ih later inside

private theorem infix_dropWhile {dropped : Char → Bool} (stays : ∀ c ∈ fragment, dropped c = false)
    (inside : fragment <:+: text) : fragment <:+: text.dropWhile dropped := by
  cases fragment with
  | nil => exact List.nil_infix
  | cons first more =>
    have apart : first ∉ text.takeWhile dropped := by
      intro member
      have gone := List.mem_takeWhile_imp member
      rw [stays first List.mem_cons_self] at gone
      cases gone
    rw [← List.takeWhile_append_dropWhile (p := dropped) (l := text)] at inside
    exact infix_of_append apart inside

theorem infix_dropEndWhile {dropped : Char → Bool} (stays : ∀ c ∈ fragment, dropped c = false)
    (inside : fragment <:+: text) : fragment <:+: dropEndWhile dropped text := by
  rw [dropEndWhile, ← List.reverse_infix, List.reverse_reverse]
  exact infix_dropWhile (fun c member => stays c (List.mem_reverse.mp member)) (List.reverse_infix.mpr inside)

theorem infix_trim (solid : ∀ c ∈ fragment, isBlank c = false) (inside : fragment <:+: text) : fragment <:+: trim text :=
  infix_dropEndWhile solid (infix_dropWhile solid inside)

end Text

/-! ## Line endings -/

namespace LineEnding

private theorem toLineFeeds_append_cons {c : Char} (noReturn : c ≠ '\r') (noFeed : c ≠ '\n') (before after : Text) :
    toLineFeeds (before ++ c :: after) = toLineFeeds before ++ c :: toLineFeeds after := by
  have stays (rest : Text) : toLineFeeds (c :: rest) = c :: toLineFeeds rest := by
    rw [toLineFeeds]
    rintro _ rfl
    exact absurd rfl noReturn
  fun_induction toLineFeeds before with
  | case1 => exact stays after
  | case2 rest ih => simp only [List.cons_append, toLineFeeds, ih]
  | case3 d rest apart ih =>
    rw [List.cons_append, toLineFeeds, ih, List.cons_append]
    rintro rest' rfl same
    cases rest with
    | nil => exact noFeed (List.cons.inj same).1
    | cons e more => exact apart more rfl (congrArg (· :: more) (List.cons.inj same).1)

private theorem toLineFeeds_append {fragment : Text} (plain : ∀ c ∈ fragment, c ≠ '\r' ∧ c ≠ '\n') (after : Text) :
    toLineFeeds (fragment ++ after) = fragment ++ toLineFeeds after := by
  induction fragment with
  | nil => rfl
  | cons c more ih =>
    obtain ⟨noReturn, noFeed⟩ := plain c List.mem_cons_self
    have first : toLineFeeds (c :: (more ++ after)) = c :: toLineFeeds (more ++ after) :=
      toLineFeeds_append_cons noReturn noFeed [] _
    rw [List.cons_append, first, ih fun d member => plain d (List.mem_cons_of_mem c member), List.cons_append]

/-- A fragment without the characters that end lines stays. -/
theorem infix_toLineFeeds {fragment text : Text} (plain : ∀ c ∈ fragment, c ≠ '\r' ∧ c ≠ '\n')
    (inside : fragment <:+: text) : fragment <:+: toLineFeeds text := by
  obtain ⟨before, after, rfl⟩ := inside
  cases fragment with
  | nil => exact List.nil_infix
  | cons c more =>
    obtain ⟨noReturn, noFeed⟩ := plain c List.mem_cons_self
    refine ⟨toLineFeeds before, toLineFeeds after, ?_⟩
    rw [List.append_assoc, List.append_assoc, List.cons_append, List.cons_append,
      toLineFeeds_append_cons noReturn noFeed, toLineFeeds_append fun d member => plain d (List.mem_cons_of_mem c member)]

theorem infix_restore_of_infix {fragment text : Text} (ending : LineEnding) (noFeed : '\n' ∉ fragment)
    (inside : fragment <:+: text) : fragment <:+: ending.restore text := by
  cases ending with
  | lf => exact inside
  | crlf =>
    refine Text.infix_flatMap (fun c member => if_neg ?_) inside
    rintro rfl
    exact noFeed member

end LineEnding

/-! ## Include lines -/

theorem Text.isLineBlank_eq_false {c : Char} (solid : isBlank c = false) : isLineBlank c = false := by
  rw [Bool.eq_false_iff, isLineBlank, Ne, Bool.or_eq_true, beq_iff_eq, beq_iff_eq]
  rintro (rfl | rfl) <;> cases solid

namespace Includes

variable {first : Char} {more : Text}

/-- A fragment that cannot begin in the word `include` stays in the target. -/
theorem infix_target (solid : ∀ c ∈ first :: more, Text.isBlank c = false) (notWord : first ∉ word) {rest : Text}
    (inside : first :: more <:+: rest) : first :: more <:+: target rest := by
  have trimmed {text : Text} (inside : first :: more <:+: text) : first :: more <:+: Text.trim text :=
    Text.infix_trim solid inside
  rw [target]
  split
  · rename_i starts
    obtain ⟨tail, rfl⟩ := List.isPrefixOf_iff_prefix.mp starts
    have after : first :: more <:+: tail.dropWhile Text.isLineBlank :=
      Text.infix_dropWhile (fun c member => Text.isLineBlank_eq_false (solid c member))
        (Text.infix_of_append notWord inside)
    have notEmpty : tail.dropWhile Text.isLineBlank ≠ [] := by
      intro empty
      rw [empty] at after
      cases List.infix_nil.mp after
    simp only [List.drop_left, if_pos notEmpty]
    split
    · exact trimmed inside
    · exact trimmed after
  · exact trimmed inside

/-- A fragment that cannot begin with the at sign either stays in its line. -/
theorem infix_convertLine (solid : ∀ c ∈ first :: more, Text.isBlank c = false) (notWord : first ∉ word)
    (notSign : first ≠ '@') {line : Text} (inside : first :: more <:+: line) : first :: more <:+: convertLine line := by
  rw [convertLine, target?]
  split
  · rename_i included found
    split at found
    · rename_i c rest starts
      obtain rfl := Option.some.inj found
      have dropped := Text.infix_dropWhile (fun c member => Text.isLineBlank_eq_false (solid c member)) inside
      rw [starts] at dropped
      have sign : first ∉ ['@'] := by simpa using notSign
      have behind : first :: more <:+: c :: rest := Text.infix_of_append sign dropped
      exact (infix_target solid notWord behind).trans (List.suffix_append _ _).isInfix
    · cases found
  · exact inside

theorem infix_convert (solid : ∀ c ∈ first :: more, Text.isBlank c = false) (notWord : first ∉ word)
    (notSign : first ≠ '@') {text : Text} (inside : first :: more <:+: text) : first :: more <:+: convert text := by
  have notEmpty : first :: more ≠ [] := List.cons_ne_nil first more
  have unbroken : '\n' ∉ first :: more := fun feed => by cases solid '\n' feed
  rw [← Text.joinLines_lines text, ← Text.occursIn_iff, Text.occursIn_joinLines notEmpty unbroken, List.any_eq_true] at inside
  obtain ⟨line, listed, inside⟩ := inside
  rw [convert, ← Text.occursIn_iff, Text.occursIn_joinLines notEmpty unbroken, List.any_eq_true]
  refine ⟨convertLine line, List.mem_map_of_mem listed, ?_⟩
  rw [Text.occursIn_iff] at inside ⊢
  exact infix_convertLine solid notWord notSign inside

end Includes

/-! ## Runtime directories -/

namespace RuntimePaths

variable {fragment text : Text}

private theorem fromHome_append (before rest : Text) : ∃ front, fromHome (before ++ rest) = front ++ fromHome rest := by
  induction before with
  | nil => exact ⟨[], rfl⟩
  | cons c before ih =>
    obtain ⟨front, same⟩ := ih
    rw [List.cons_append, fromHome, same]
    exact ⟨_ :: front, rfl⟩

private theorem fromHome_fragment (noTilde : '~' ∉ fragment) (rest : Text) :
    fromHome (fragment ++ rest) = fragment ++ fromHome rest := by
  induction fragment with
  | nil => rfl
  | cons c fragment ih =>
    obtain ⟨other, later⟩ : '~' ≠ c ∧ '~' ∉ fragment := by simpa using noTilde
    rw [List.cons_append, fromHome, if_neg fun tilde => other tilde.1.symm, ih later, List.cons_append]

private theorem infix_fromHome (noTilde : '~' ∉ fragment) (inside : fragment <:+: text) :
    fragment <:+: fromHome text := by
  obtain ⟨before, after, rfl⟩ := inside
  rw [List.append_assoc]
  obtain ⟨front, same⟩ := fromHome_append before (fragment ++ after)
  rw [same, fromHome_fragment noTilde]
  exact ⟨front, fromHome after, List.append_assoc ..⟩

theorem startsDirectory_cons {c : Char} (other : c ≠ '/') (rest : Text) : startsDirectory (c :: rest) = false := by
  simp [startsDirectory, List.isPrefixOf, Ne.symm other]

private theorem fromRootAfter_append (previous : Option Char) (before rest : Text) :
    ∃ front last, fromRootAfter previous (before ++ rest) = front ++ fromRootAfter last rest := by
  induction before generalizing previous with
  | nil => exact ⟨[], previous, rfl⟩
  | cons c before ih =>
    obtain ⟨front, last, same⟩ := ih (some c)
    rw [List.cons_append, fromRootAfter, same]
    split
    · exact ⟨'.' :: c :: front, last, rfl⟩
    · exact ⟨c :: front, last, rfl⟩

private theorem fromRootAfter_fragment (noSlash : '/' ∉ fragment) (previous : Option Char) (rest : Text) :
    ∃ last, fromRootAfter previous (fragment ++ rest) = fragment ++ fromRootAfter last rest := by
  induction fragment generalizing previous with
  | nil => exact ⟨previous, rfl⟩
  | cons c fragment ih =>
    obtain ⟨other, later⟩ : '/' ≠ c ∧ '/' ∉ fragment := by simpa using noSlash
    obtain ⟨last, same⟩ := ih later (some c)
    refine ⟨last, ?_⟩
    rw [List.cons_append, fromRootAfter, startsDirectory_cons other.symm, if_neg (by simp), same, List.cons_append]

private theorem infix_fromRootAfter (noSlash : '/' ∉ fragment) (inside : fragment <:+: text) (previous : Option Char) :
    fragment <:+: fromRootAfter previous text := by
  obtain ⟨before, after, rfl⟩ := inside
  rw [List.append_assoc]
  obtain ⟨front, between, same⟩ := fromRootAfter_append previous before (fragment ++ after)
  obtain ⟨last, same'⟩ := fromRootAfter_fragment noSlash between after
  rw [same, same']
  exact ⟨front, fromRootAfter last after, List.append_assoc ..⟩

/-- A fragment without tildes and slashes stays. -/
theorem infix_normalize (noTilde : '~' ∉ fragment) (noSlash : '/' ∉ fragment) (inside : fragment <:+: text) :
    fragment <:+: normalize text :=
  infix_fromRootAfter noSlash (infix_fromHome noTilde inside) none

end RuntimePaths

end PromptCompiler
