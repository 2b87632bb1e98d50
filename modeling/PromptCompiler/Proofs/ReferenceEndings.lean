import PromptCompiler.Proofs.Fragments
import PromptCompiler.Proofs.HeaderFields
import PromptCompiler.Proofs.OutsideRoot

/-! # The ends of references

A reference extends to the end of its word, and when it is rewritten the name in its last place stays in its
last place. So an ending of a word that is a part of a single name stays the ending of the word. There is one
exception: the root itself is written as a dot, so that a reference to the root loses the root's name.
-/

namespace PromptCompiler

/-- An ending without some character ends after that character. -/
theorem Text.suffix_of_append_cons {c : Char} {ending before after : Text} (absent : c ∉ ending)
    (ends : ending <:+ before ++ c :: after) : ending <:+ after := by
  rcases List.suffix_or_suffix_of_suffix ends (List.suffix_append before (c :: after)) with inside | beyond
  · rcases List.suffix_cons_iff.mp inside with rfl | inside
    · exact absurd List.mem_cons_self absent
    · exact inside
  · exact absurd (beyond.subset List.mem_cons_self) absent

/-! ## Words between separators -/

namespace Words

private theorem ofText_append_cons {separator : Char} (separates : isReferenceCharacter separator = false)
    (before after : Text) :
    ofText (before ++ separator :: after) =
      ⟨(ofText before).first, (ofText before).later ++ (separator, (ofText after).first) :: (ofText after).later⟩ := by
  induction before with
  | nil => simp [ofText, separates]
  | cons c before ih =>
    simp only [ofText] at ih
    simp only [ofText, List.cons_append, List.foldr_cons, ih]
    split <;> rfl

/-- What is before a separator and what is after it are rewritten separately. -/
theorem rewrite_append_cons (rule : Text → Text × List Text) {separator : Char}
    (separates : isReferenceCharacter separator = false) (before after : Text) :
    rewrite rule (before ++ separator :: after) =
      ((rewrite rule before).1 ++ separator :: (rewrite rule after).1, (rewrite rule before).2 ++ (rewrite rule after).2) := by
  simp only [rewrite, ofText_append_cons separates, text, List.map_append, List.map_cons, List.flatMap_append,
    List.flatMap_cons, List.append_assoc, List.cons_append]

/-- A text without separators is one word. -/
theorem rewrite_word (rule : Text → Text × List Text) {word : Text}
    (whole : ∀ c ∈ word, isReferenceCharacter c = true) : rewrite rule word = rule word := by
  have single : ofText word = ⟨word, []⟩ := by
    induction word with
    | nil => rfl
    | cons c word ih =>
      have rest := ih fun d member => whole d (List.mem_cons_of_mem c member)
      simp only [ofText] at rest
      simp only [ofText, List.foldr_cons, rest, whole c List.mem_cons_self, if_true]
  simp [rewrite, single, text]

/-- What holds of every word, and of a word with a separator and a text after it if it holds of that text, holds of
every text. -/
theorem induction {motive : Text → Prop}
    (last : ∀ word, (∀ c ∈ word, isReferenceCharacter c = true) → motive word)
    (more : ∀ word separator rest, (∀ c ∈ word, isReferenceCharacter c = true) →
      isReferenceCharacter separator = false → motive rest → motive (word ++ separator :: rest))
    (text : Text) : motive text := by
  have whole : ∀ c ∈ text.takeWhile isReferenceCharacter, isReferenceCharacter c = true := fun c =>
    List.mem_takeWhile_imp
  have parts := List.takeWhile_append_dropWhile (p := isReferenceCharacter) (l := text)
  cases split : text.dropWhile isReferenceCharacter with
  | nil =>
    rw [split, List.append_nil] at parts
    exact parts ▸ last _ whole
  | cons separator rest =>
    rw [split] at parts
    have shorter : rest.length < text.length := by
      rw [← parts, List.length_append, List.length_cons]
      omega
    have separates : isReferenceCharacter separator = false := by
      have stopped := List.head_dropWhile_not isReferenceCharacter (l := text) (by rw [split]; exact List.cons_ne_nil _ _)
      simpa only [split, List.head_cons] using stopped
    exact parts ▸ more _ separator rest whole separates (induction last more rest)
  termination_by text.length
  decreasing_by exact shorter

/-- The last word of a text is rewritten at the end of the text, so that an ending that its rule keeps stays. -/
theorem rewrite_suffix {rule : Text → Text × List Text} {ending : Text}
    (whole : ∀ c ∈ ending, isReferenceCharacter c = true)
    (keeps : ∀ word, ending <:+ word → ending <:+ (rule word).1) {source : Text} (ends : ending <:+ source) :
    ending <:+ (rewrite rule source).1 := by
  induction source using Words.induction with
  | last word whole' =>
    rw [rewrite_word rule whole']
    exact keeps word ends
  | more word separator rest _ separates ih =>
    have absent : separator ∉ ending := fun inside => by
      rw [whole separator inside] at separates
      cases separates
    have kept := ih (Text.suffix_of_append_cons absent ends)
    rw [rewrite_append_cons rule separates]
    exact kept.trans ((List.suffix_cons separator _).trans (List.suffix_append _ _))

/-- A rule that keeps an ending of words keeps it before a separator. -/
theorem infix_rewrite {rule : Text → Text × List Text} {ending : Text}
    (whole : ∀ c ∈ ending, isReferenceCharacter c = true)
    (keeps : ∀ word, ending <:+ word → ending <:+ (rule word).1) {separator : Char}
    (separates : isReferenceCharacter separator = false) {source : Text} (inside : ending ++ [separator] <:+: source) :
    ending ++ [separator] <:+: (rewrite rule source).1 := by
  obtain ⟨before, after, rfl⟩ := inside
  have split : before ++ (ending ++ [separator]) ++ after = (before ++ ending) ++ separator :: after := by simp
  obtain ⟨front, same⟩ := rewrite_suffix whole keeps (List.suffix_append before ending)
  refine ⟨front, (rewrite rule after).1, ?_⟩
  rw [split, rewrite_append_cons rule separates, ← same]
  simp

end Words

/-! ## Names in the last place -/

namespace Path

/-- Steps into a place at the end of a path stay at the end. -/
theorem advance_concat (anchor : Anchor) (climbed : Nat) (inside : Location) (steps : List Step) (name : Name) :
    ∃ before, (advance anchor climbed inside (steps ++ [.into name])).steps = before ++ [.into name] := by
  induction steps generalizing climbed inside with
  | nil =>
    refine ⟨List.replicate climbed .up ++ inside.steps, ?_⟩
    rw [List.nil_append, advance, advance, Location.steps_cons, List.append_assoc]
  | cons step rest ih =>
    cases step with
    | into other => exact ih climbed (other :: inside)
    | up =>
      cases inside with
      | cons other outer => exact ih climbed outer
      | nil =>
        cases anchor with
        | here => exact ih (climbed + 1) []
        | root => exact ih climbed []
        | doubledRoot => exact ih climbed []

private theorem after_concat (here : Location) (steps : List Step) (name : Name) :
    ∃ outer, Location.after here (steps ++ [.into name]) = name :: outer := by
  induction steps generalizing here with
  | nil => exact ⟨here, rfl⟩
  | cons step rest ih => cases step <;> exact ih _

/-- Whether an ending is a part of a name wherever it ends a path. -/
structure IsNameEnding (ending : Text) : Prop where
  notEmpty : ending ≠ []
  noDot : '.' ∉ ending
  noSlash : '/' ∉ ending
  noBackslash : '\\' ∉ ending

variable {ending : Text}

/-- A piece between slashes with such an ending is a name. -/
theorem IsNameEnding.exists_name (isEnding : IsNameEnding ending) {piece : Text} (ends : ending <:+ piece)
    (noSlash : '/' ∉ piece) : ∃ name, Step.ofPiece? piece = some (.into name) ∧ ending <:+ name.text := by
  obtain ⟨c, member⟩ := List.exists_mem_of_ne_nil ending isEnding.notEmpty
  have notDot : c ≠ '.' := fun dot => isEnding.noDot (dot ▸ member)
  have inside := ends.subset member
  have proper : piece ≠ [] ∧ piece ≠ ['.'] ∧ piece ≠ ['.', '.'] ∧ '/' ∉ piece := by
    refine ⟨?_, ?_, ?_, noSlash⟩ <;> rintro rfl
    · cases inside
    · exact notDot (by simpa using inside)
    · exact notDot (by simpa using inside)
  refine ⟨⟨piece, proper⟩, ?_, ends⟩
  rw [Step.ofPiece?, if_neg proper.2.2.1, Name.ofText?, dif_pos proper, Option.map_some]

/-- The last piece of a text with such an ending is a name with this ending. -/
theorem stepsOf_concat (isEnding : IsNameEnding ending) {text : Text} (ends : ending <:+ text) :
    ∃ before name, stepsOf text = before ++ [.into name] ∧ ending <:+ name.text := by
  by_cases slash : '/' ∈ text
  · obtain ⟨front, after, split⟩ := List.append_of_mem slash
    have shorter : after.length < text.length := by
      rw [split, List.length_append, List.length_cons]
      omega
    have later : ending <:+ after := Text.suffix_of_append_cons isEnding.noSlash (split ▸ ends)
    obtain ⟨before, name, steps, ends'⟩ := stepsOf_concat isEnding later
    refine ⟨stepsOf front ++ before, name, ?_, ends'⟩
    rw [List.append_assoc, ← steps, split, stepsOf, List.splitOn_append_cons_self, List.filterMap_append]
    rfl
  · obtain ⟨name, step, ends'⟩ := isEnding.exists_name ends slash
    refine ⟨[], name, ?_, ends'⟩
    rw [stepsOf, List.splitOn_eq_singleton slash, List.filterMap_cons, step]
    rfl
  termination_by text.length
  decreasing_by exact shorter

/-- A text with such an ending leads to a place whose name has the ending. -/
theorem location_lexical (isEnding : IsNameEnding ending) (base : Path) {text : Text} (ends : ending <:+ text) :
    ∃ name outer, (base.lexical text).location = name :: outer ∧ ending <:+ name.text := by
  obtain ⟨before, name, steps, ends'⟩ := stepsOf_concat isEnding ends
  have joined : ∃ before, (base.join text).steps = before ++ [.into name] := by
    rw [join]
    split
    · exact ⟨base.steps ++ before, by rw [steps, List.append_assoc]⟩
    · exact ⟨before, steps⟩
  obtain ⟨before', joined⟩ := joined
  obtain ⟨before'', normal⟩ := advance_concat (base.join text).anchor 0 [] before' name
  obtain ⟨outer, place⟩ := after_concat [] before'' name
  refine ⟨name, outer, ?_, ends'⟩
  rw [location, lexical, normalize, joined, normal, place]

private theorem stepsBetween_append (root inner : List Name) :
    Location.stepsBetween root (root ++ inner) = inner.map .into := by
  induction root with
  | nil => cases inner <;> rfl
  | cons name root ih => rw [List.cons_append, Location.stepsBetween, if_pos rfl, ih]

/-- The text of a target within the root spells the names on the way from the root; the root itself is a dot. -/
theorem relativeText_spells {root target : Path} {inner : Location} (place : target.location = inner ++ root.location) :
    relativeText root target =
      if inner = [] then ['.'] else Text.substitute '\\' '/' (['/'].intercalate (inner.reverse.map Name.text)) := by
  have steps : Location.stepsBetween root.location.reverse target.location.reverse = inner.reverse.map .into := by
    rw [place, List.reverse_append, stepsBetween_append]
  rw [relativeText, steps]
  cases spelled : inner.reverse with
  | nil =>
    rw [if_pos (List.reverse_eq_nil_iff.mp spelled)]
    rfl
  | cons name rest =>
    have notEmpty : inner ≠ [] := fun empty => by simp [empty] at spelled
    have texts : (rest.map Step.into).map Step.text = rest.map Name.text := List.map_map
    rw [if_neg notEmpty, List.map_cons, List.map_cons, ← texts]
    rfl

theorem within?_spells {root target : Path} {relative : Text} (found : root.within? target = some relative) :
    ∃ inner, target.location = inner ++ root.location ∧ relative =
      if inner = [] then ['.'] else Text.substitute '\\' '/' (['/'].intercalate (inner.reverse.map Name.text)) := by
  obtain ⟨inner, place⟩ := location_of_within? found
  have same : relative = relativeText root target := by
    rw [within?] at found
    split at found
    · cases found
    · exact (Option.some.inj found).symm
  exact ⟨inner, place.symm, same.trans (relativeText_spells place.symm)⟩

/-- The text of a target within the root ends with the name of the target, unless the target is the root. -/
theorem suffix_within? (isEnding : IsNameEnding ending) {root target : Path} {relative : Text}
    (found : root.within? target = some relative) {name : Name} {outer : Location}
    (place : target.location = name :: outer) (ends : ending <:+ name.text) (apart : root.location ≠ name :: outer) :
    ending <:+ relative := by
  obtain ⟨inner, beyond, text⟩ := within?_spells found
  rw [place] at beyond
  cases inner with
  | nil => exact absurd beyond.symm apart
  | cons other inner =>
    obtain ⟨rfl, -⟩ := List.cons.inj beyond
    rw [text, if_neg (List.cons_ne_nil _ _), List.reverse_cons, List.map_append]
    have last : ending <:+ ['/'].intercalate (inner.reverse.map Name.text ++ [name.text]) :=
      ends.trans (Text.suffix_intercalate _ _ _)
    have kept : ending.map (fun c => if c = '\\' then '/' else c) = ending := by
      refine (List.map_congr_left fun c member => if_neg ?_).trans (List.map_id ending)
      rintro rfl
      exact isEnding.noBackslash member
    have written := last.map fun c => if c = '\\' then '/' else c
    rwa [kept] at written

end Path

/-! ## References in the last place of a word -/

namespace References

theorem cutAfter?_spec {begins : Option Char → Text → Bool} {previous : Option Char} {word : Text} {cut : Cut}
    (found : cutAfter? begins previous word = some cut) :
    word = cut.before ++ cut.reference ∧ ∃ before, begins before cut.reference = true := by
  induction word generalizing previous cut with
  | nil => cases found
  | cons c rest ih =>
    rw [cutAfter?] at found
    split at found
    · rename_i here
      obtain rfl := Option.some.inj found
      exact ⟨rfl, previous, here⟩
    · obtain ⟨later, inRest, rfl⟩ := Option.map_eq_some_iff.mp found
      obtain ⟨split, begun⟩ := ih inRest
      exact ⟨congrArg (c :: ·) split, begun⟩

theorem head?_of_beginsParent (previous : Option Char) (text : Text) (begun : beginsParent previous text = true) :
    text.head? = some '.' := by
  simp only [beginsParent, Bool.and_eq_true] at begun
  obtain ⟨rest, rfl⟩ := List.isPrefixOf_iff_prefix.mp begun.1.1.1
  rfl

theorem head?_of_beginsAnchored (previous : Option Char) (text : Text) (begun : beginsAnchored previous text = true) :
    text.head? = some '@' := by
  unfold beginsAnchored at begun
  split at begun
  · rfl
  · cases begun

variable {ending : Text}

/-- A rule that keeps an ending of references keeps it in words, if no reference can begin within the ending. -/
theorem rewriteWord_suffix {begins : Option Char → Text → Bool} {rule : Text → Text × List Text} {sign : Char}
    (signed : ∀ previous text, begins previous text = true → text.head? = some sign) (apart : sign ∉ ending)
    (keeps : ∀ rest, ending <:+ rest → ending <:+ (rule (sign :: rest)).1) {word : Text} (ends : ending <:+ word) :
    ending <:+ (rewriteWord begins rule word).1 := by
  rw [rewriteWord]
  cases cutting : cut? begins word with
  | none => exact ends
  | some cut =>
    obtain ⟨split, before, begun⟩ := cutAfter?_spec cutting
    obtain ⟨rest, reference⟩ := List.head?_eq_some_iff.mp (signed before _ begun)
    rw [split, reference] at ends
    have kept := keeps rest (Text.suffix_of_append_cons apart ends)
    simp only [reference]
    exact kept.trans (List.suffix_append _ _)

/-- What an ending of words needs to stay when references are rewritten. -/
structure IsWordEnding (ending : Text) : Prop extends Path.IsNameEnding ending where
  /-- It is a part of a word. -/
  whole : ∀ c ∈ ending, isReferenceCharacter c = true
  /-- No reference begins in it. -/
  noSign : '@' ∉ ending

variable {tree : FileTree} {root document : Path}

private theorem keepSlash_suffix (isEnding : Path.IsNameEnding ending) {reference relative : Text}
    (ends : ending <:+ reference)
    (ends' : ending <:+ relative) : ending <:+ keepSlash reference relative := by
  have noSlash : reference.getLast? ≠ some '/' := by
    obtain ⟨front, rfl⟩ := ends
    intro slash
    rw [List.getLast?_append_of_ne_nil _ isEnding.notEmpty] at slash
    exact isEnding.noSlash (List.mem_of_getLast? slash)
  rw [keepSlash, if_neg fun slashes => noSlash slashes.1]
  exact ends'

/-- A slash is the only character that may come with a relative text. -/
theorem not_mem_keepSlash {reference relative : Text} {c : Char} (absent : c ∉ relative) (other : c ≠ '/') :
    c ∉ keepSlash reference relative := by
  rw [keepSlash]
  split
  · simpa using ⟨absent, other⟩
  · exact absent

/-- Whether an ending is not that of the root's own name. -/
def ApartFrom (root : Path) (ending : Text) : Prop := ∀ name ∈ root.location.head?, ¬ ending <:+ name.text

instance (root : Path) (ending : Text) : Decidable (ApartFrom root ending) :=
  inferInstanceAs (Decidable (∀ name ∈ root.location.head?, _))

private theorem textFor_suffix (isEnding : Path.IsNameEnding ending) (apart : ApartFrom root ending) (base : Path)
    {reference whole : Text} (ends : ending <:+ reference) (ends' : ending <:+ whole) {written : Text → Text}
    (keeps : ∀ relative, ending <:+ relative → ending <:+ written relative) :
    ending <:+ textFor root (base.lexical reference) written whole := by
  rw [textFor]
  cases found : root.within? (base.lexical reference) with
  | none => exact ends'
  | some relative =>
    obtain ⟨name, outer, place, named⟩ := Path.location_lexical isEnding base ends
    refine keeps relative (Path.suffix_within? isEnding found place named fun same => apart name ?_ named)
    rw [same]
    rfl

private theorem rewriteParent_suffix (isEnding : Path.IsNameEnding ending) (apart : ApartFrom root ending)
    {reference : Text}
    (ends : ending <:+ reference) : ending <:+ (rewriteParent ⟨tree, root, document⟩ reference).1 := by
  rw [rewriteParent_text]
  cases tree.present (document.parent.lexical reference) with
  | false => exact ends
  | true => exact textFor_suffix isEnding apart _ ends ends fun _ => keepSlash_suffix isEnding ends

private theorem rewriteAnchored_suffix (isEnding : Path.IsNameEnding ending) (apart : ApartFrom root ending)
    {reference : Text}
    (ends : ending <:+ reference) : ending <:+ (rewriteAnchored ⟨tree, root, document⟩ ('@' :: reference)).1 := by
  have signed : ending <:+ '@' :: reference := ends.trans (List.suffix_cons _ _)
  have written (base : Path) : ending <:+ textFor root (base.lexical reference)
      (fun relative => '@' :: keepSlash reference relative) ('@' :: reference) :=
    textFor_suffix isEnding apart base ends signed fun _ ends' =>
      (keepSlash_suffix isEnding ends ends').trans (List.suffix_cons _ _)
  rw [rewriteAnchored_text, List.tail_cons]
  cases tree.present (root.lexical reference) with
  | true => exact written root
  | false =>
    cases tree.present (document.parent.lexical reference) with
    | true => exact written document.parent
    | false => exact signed

/-- An ending before a separator stays there when references are rewritten. -/
theorem infix_rewrite (isEnding : IsWordEnding ending) (apart : ApartFrom root ending) {separator : Char}
    (separates : isReferenceCharacter separator = false) {text : Text} (inside : ending ++ [separator] <:+: text) :
    ending ++ [separator] <:+: (rewrite ⟨tree, root, document⟩ text).1 := by
  refine Words.infix_rewrite isEnding.whole (fun word ends => ?_) separates
    (Words.infix_rewrite isEnding.whole (fun word ends => ?_) separates inside)
  · refine rewriteWord_suffix head?_of_beginsAnchored isEnding.noSign (fun rest ends => ?_) ends
    exact rewriteAnchored_suffix isEnding.toIsNameEnding apart ends
  · refine rewriteWord_suffix head?_of_beginsParent isEnding.noDot (fun rest ends => ?_) ends
    exact rewriteParent_suffix isEnding.toIsNameEnding apart (ends.trans (List.suffix_cons _ _))

end References

end PromptCompiler
