import PromptCompiler.Proofs.RootEntries

/-! # Paths that are written relative to a root

What is at or below a root is written by the names on the way to it, with slashes between them; the root itself is
written as a dot. Read from the root, such a text leads back to the same place. A slash at its end does not
change where it leads. Nothing at or below the root is left without such a text, unless a name on the way holds a
backslash, which would be written as a slash.
-/

namespace PromptCompiler

private theorem Anchor.ofText_of_ne {c : Char} (other : c ≠ '/') (rest : Text) : Anchor.ofText (c :: rest) = .here := by
  unfold Anchor.ofText
  split <;> simp_all

/-! ## Texts of names -/

def Name.joined (names : List Name) : Text := ['/'].intercalate (names.map Name.text)

namespace Name

private theorem noSlash_of_mem {names : List Name} : ∀ piece ∈ names.map Name.text, '/' ∉ piece := by
  intro piece member
  obtain ⟨name, -, rfl⟩ := List.mem_map.mp member
  exact name.proper.2.2.2

theorem splitOn_joined {names : List Name} (notEmpty : names ≠ []) :
    (joined names).splitOn '/' = names.map Name.text :=
  List.splitOn_intercalate '/' noSlash_of_mem fun empty => notEmpty (List.map_eq_nil_iff.mp empty)

theorem joined_begins {names : List Name} (notEmpty : names ≠ []) :
    ∃ c rest, joined names = c :: rest ∧ c ≠ '/' := by
  obtain ⟨first, later, rfl⟩ := List.exists_cons_of_ne_nil notEmpty
  obtain ⟨c, rest, text⟩ := List.exists_cons_of_ne_nil first.proper.1
  obtain ⟨tail, begins⟩ := Text.intercalate_begins ['/'] first.text (later.map Name.text)
  rw [joined, List.map_cons, begins, text]
  exact ⟨c, rest ++ tail, rfl, fun same => first.proper.2.2.2 (same ▸ text ▸ List.mem_cons_self)⟩

theorem ofText_joined (names : List Name) : Anchor.ofText (joined names) = .here := by
  by_cases empty : names = []
  · subst empty
    rfl
  · obtain ⟨c, rest, text, other⟩ := joined_begins empty
    rw [text]
    exact Anchor.ofText_of_ne other rest

theorem stepsOf_joined (names : List Name) : stepsOf (joined names) = names.map .into := by
  cases names with
  | nil => rfl
  | cons first later =>
    rw [stepsOf, splitOn_joined (List.cons_ne_nil _ _), List.filterMap_map]
    exact List.filterMap_eq_map_iff_forall_eq_some.mpr fun name _ => Step.ofPiece?_text (.into name)

end Name

/-- The text of the names on the way from a root, outermost first: a dot if there are none. -/
def Name.relative (names : List Name) : Text := if names = [] then ['.'] else Name.joined names

namespace Name

variable {names : List Name}

private theorem relative_begins (names : List Name) : ∃ c rest, relative names = c :: rest ∧ c ≠ '/' := by
  rw [relative]
  split
  · exact ⟨'.', [], rfl, by decide⟩
  · rename_i notEmpty
    exact joined_begins notEmpty

theorem ofText_relative_append (names : List Name) (ending : Text) :
    Anchor.ofText (relative names ++ ending) = .here := by
  obtain ⟨c, rest, text, other⟩ := relative_begins names
  rw [text, List.cons_append]
  exact Anchor.ofText_of_ne other _

theorem stepsOf_relative (names : List Name) : stepsOf (relative names) = names.map .into := by
  rw [relative]
  split
  · rename_i empty
    subst empty
    rfl
  · exact stepsOf_joined names

/-- No piece of such a text steps up, and only a name or a dot is at its end. -/
theorem mem_splitOn_relative {piece : Text} (member : piece ∈ (relative names).splitOn '/') :
    piece ≠ [] ∧ piece ≠ ['.', '.'] := by
  rw [relative] at member
  split at member
  · obtain rfl := List.mem_singleton.mp (member : piece ∈ [['.']])
    decide
  · rename_i notEmpty
    rw [splitOn_joined notEmpty] at member
    obtain ⟨name, -, rfl⟩ := List.mem_map.mp member
    exact ⟨name.proper.1, name.proper.2.2.1⟩

end Name

private theorem splitOn_concat_slash (text : Text) : (text ++ ['/']).splitOn '/' = text.splitOn '/' ++ [[]] :=
  List.splitOn_append_cons_self text []

private theorem stepsOf_concat_slash (text : Text) : stepsOf (text ++ ['/']) = stepsOf text := by
  rw [stepsOf, splitOn_concat_slash, List.filterMap_append]
  exact List.append_nil _

namespace Path

/-! ## Targets at or below a root -/

theorem relativeText_eq {root target : Path} {inner : Location} (place : target.location = inner ++ root.location)
    (plain : ∀ name ∈ inner, '\\' ∉ name.text) : relativeText root target = Name.relative inner.reverse := by
  have noBackslash : ∀ c ∈ Name.joined inner.reverse, c ≠ '\\' := by
    rintro c member rfl
    rcases Text.mem_of_mem_intercalate member with between | ⟨piece, listed, inside⟩
    · exact absurd between (by decide)
    · obtain ⟨name, member, rfl⟩ := List.mem_map.mp listed
      exact plain name (List.mem_reverse.mp member) inside
  have kept : Text.substitute '\\' '/' (Name.joined inner.reverse) = Name.joined inner.reverse :=
    (List.map_congr_left fun c member => if_neg (noBackslash c member)).trans (List.map_id _)
  rw [relativeText_spells place, Name.relative]
  simp only [List.reverse_eq_nil_iff]
  split
  · rfl
  · exact kept

/-- What is at or below a root is written by the names on the way to it. -/
theorem within?_eq {root target : Path} {inner : Location} (place : target.location = inner ++ root.location)
    (plain : ∀ name ∈ inner, '\\' ∉ name.text) : root.within? target = some (Name.relative inner.reverse) := by
  have inward : ∀ piece ∈ (Name.relative inner.reverse).splitOn '/', piece ≠ ['.', '.'] := fun piece member =>
    (Name.mem_splitOn_relative member).2
  rw [within?, relativeText_eq place plain, if_neg]
  rw [Bool.or_eq_true, decide_eq_true_iff]
  rintro (alone | begins)
  · rw [alone] at inward
    exact inward _ List.mem_cons_self rfl
  · obtain ⟨rest, text⟩ := List.isPrefixOf_iff_prefix.mp begins
    have split : (['.', '.'] ++ '/' :: rest).splitOn '/' = ['.', '.'].splitOn '/' ++ rest.splitOn '/' :=
      List.splitOn_append_cons_self _ _
    rw [← text] at inward
    refine inward ['.', '.'] ?_ rfl
    exact split ▸ List.mem_append_left _ List.mem_cons_self

/-- A text relative to a root has no backslash, whatever the names are. -/
theorem noBackslash_within? {root target : Path} {relative : Text} (found : root.within? target = some relative) :
    '\\' ∉ relative := by
  obtain ⟨inner, -, rfl⟩ := within?_spells found
  split
  · decide
  · intro backslash
    obtain ⟨c, -, same⟩ := List.mem_map.mp backslash
    split at same
    · cases same
    · contradiction

/-! ## Reading a relative text from the root -/

/-- The path with two slashes at its beginning read as one. -/
def undoubled (path : Path) : Path := if path.anchor = .doubledRoot then { path with anchor := .root } else path

private theorem anchor_advance (anchor : Anchor) (climbed : Nat) (inside : Location) (steps : List Step) :
    (advance anchor climbed inside steps).anchor = anchor := by
  induction steps generalizing climbed inside with
  | nil => rfl
  | cons step rest ih =>
    cases step with
    | into name => exact ih climbed (name :: inside)
    | up =>
      cases inside with
      | cons name outer => exact ih climbed outer
      | nil => cases anchor <;> exact ih _ _

private theorem anchor_lexical {base : Path} (absolute : base.anchor ≠ .here) (text : Text) :
    (base.lexical text).anchor ≠ .here := by
  rw [lexical, normalize, anchor_advance, join]
  split
  · exact absolute
  · rename_i elsewhere
    exact elsewhere

/-- What a text means from a place is known from the place that it spells. -/
theorem undoubled_lexical {base : Path} (absolute : base.anchor ≠ .here) (text : Text) :
    (base.lexical text).undoubled = .ofLocation (base.lexical text).location := by
  have start := anchor_lexical absolute text
  obtain ⟨anchor, place, spelled⟩ := lexical_spells absolute text
  have location : (base.lexical text).location = place := by
    rw [spelled]
    exact location_ofLocation place
  rw [location, spelled]
  rw [spelled] at start
  cases anchor with
  | here => exact absurd rfl start
  | root => rfl
  | doubledRoot => rfl

private theorem location_lexical_relative {base : Path} {text : Text} (relative : Anchor.ofText text = .here) :
    (base.lexical text).location = Location.after base.location (stepsOf text) := by
  obtain ⟨-, -, place⟩ := lexical_steps base text
  rw [place, join, relative]
  exact Location.after_append ..

/-- A path leads from a root to a target at or below it, in the place of a reference. -/
structure LeadsTo (root target : Path) (reference path : Text) : Prop where
  within : root.location <:+ target.location
  /-- The path leads there from the root. -/
  same : (root.lexical path).undoubled = target.undoubled
  /-- The path does not begin at the root of the tree. -/
  relative : Anchor.ofText path = .here
  noParent : ['.', '.'] ∉ path.splitOn '/'
  /-- A slash is at the end of the path exactly if one is at the end of the reference. -/
  slash : path.getLast? = some '/' ↔ reference.getLast? = some '/'

private theorem getLast?_relative_ne (names : List Name) : (Name.relative names).getLast? ≠ some '/' := by
  intro slash
  obtain ⟨front, text⟩ := List.getLast?_eq_some_iff.mp slash
  have empty : [] ∈ (Name.relative names).splitOn '/' := by
    rw [text, splitOn_concat_slash]
    exact List.mem_append_right _ List.mem_cons_self
  exact (Name.mem_splitOn_relative empty).1 rfl

/-- What is at or below the root is reached by the text of the names on the way, with the slash of the reference. -/
theorem leadsTo_keepSlash {root base : Path} (absolute : root.anchor ≠ .here) (absolute' : base.anchor ≠ .here)
    {source : Text} {inner : Location} (place : (base.lexical source).location = inner ++ root.location)
    (reference : Text) :
    LeadsTo root (base.lexical source) reference (References.keepSlash reference (Name.relative inner.reverse)) := by
  have noSlash := getLast?_relative_ne inner.reverse
  have noParent : ['.', '.'] ∉ (Name.relative inner.reverse).splitOn '/' := fun member =>
    (Name.mem_splitOn_relative member).2 rfl
  have same {path : Text} (relative : Anchor.ofText path = .here) (steps : stepsOf path = inner.reverse.map .into) :
      (root.lexical path).undoubled = (base.lexical source).undoubled := by
    rw [undoubled_lexical absolute, undoubled_lexical absolute', location_lexical_relative relative, steps,
      Location.after_map_into, List.reverse_reverse, place]
  have within : root.location <:+ (base.lexical source).location := ⟨inner, place.symm⟩
  rw [References.keepSlash]
  by_cases slash : reference.getLast? = some '/'
  · have relative := Name.ofText_relative_append inner.reverse ['/']
    rw [if_pos ⟨slash, noSlash⟩]
    refine ⟨within, same relative ?_, relative, ?_, iff_of_true ?_ slash⟩
    · rw [stepsOf_concat_slash, Name.stepsOf_relative]
    · rw [splitOn_concat_slash, List.mem_append, not_or]
      exact ⟨noParent, by decide⟩
    · exact List.getLast?_concat
  · have relative := Name.ofText_relative_append inner.reverse []
    rw [List.append_nil] at relative
    rw [if_neg fun both => slash both.1]
    exact ⟨within, same relative (Name.stepsOf_relative _), relative, noParent, iff_of_false noSlash slash⟩

end Path

end PromptCompiler
