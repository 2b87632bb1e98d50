import Mathlib.Data.List.Infix
import PromptCompiler.Proofs.RelativePaths

/-! # Containment by components

A target is at a root or below it if the components of its normal form begin with those of the root. A target that is
neither has no text relative to the root. One that is has a text that leads back to it, exactly if it begins with as
many slashes as the root and no component below the root has a backslash. The relative text has a slash in place of each
backslash, so that one component becomes two, or the text a step up, or a path from the root of the tree.
-/

namespace PromptCompiler

/-- The steps to a place begin with those to a place above it, and with no others. -/
theorem Location.prefix_steps_iff {outer inner : Location} : outer.steps <+: inner.steps ↔ outer <:+ inner := by
  have injective : Function.Injective Step.into := fun _ _ => Step.into.inj
  rw [steps, steps, List.prefix_map_iff_of_injective injective, List.reverse_prefix]

namespace Path

variable {root target : Path} {relative : Text}

/-- A target is at a root or below it: the steps of its normal form begin with those of the root's. -/
def Contains (root target : Path) : Prop := root.normalize.steps <+: target.normalize.steps

instance : Decidable (root.Contains target) :=
  inferInstanceAs (Decidable (root.normalize.steps <+: target.normalize.steps))

/-- The components of a target below a root. -/
def below (root target : Path) : List Step := target.normalize.steps.drop root.normalize.steps.length

theorem contains_iff (absolute : root.anchor ≠ .here) (absolute' : target.anchor ≠ .here) :
    root.Contains target ↔ root.location <:+ target.location := by
  rw [Contains, normalize_eq absolute, normalize_eq absolute', Location.prefix_steps_iff]

private theorem below_eq (absolute : root.anchor ≠ .here) (absolute' : target.anchor ≠ .here) {inner : Location}
    (place : target.location = inner ++ root.location) : root.below target = inner.steps := by
  rw [below, normalize_eq absolute, normalize_eq absolute', place]
  simp [Location.steps]

/-- A relative text read from a root keeps the slashes at the root's beginning. -/
theorem lexical_relative (absolute : root.anchor ≠ .here) (unanchored : Anchor.ofText relative = .here) :
    root.lexical relative = ⟨root.anchor, (Location.after root.location (stepsOf relative)).steps⟩ := by
  have joined : (root.join relative).anchor = root.anchor := by
    rw [join, unanchored]
  have place : (root.join relative).location = Location.after root.location (stepsOf relative) := by
    rw [join, unanchored]
    exact Location.after_append ..
  have absolute' : (root.join relative).anchor ≠ .here := joined ▸ absolute
  rw [lexical, normalize_eq absolute', joined, place]

private theorem within?_eq_none (outside : ¬ root.location <:+ target.location) : root.within? target = none := by
  rw [Option.eq_none_iff_forall_ne_some]
  exact fun relative found => outside (location_of_within? found)

/-- A text leads from a root to a target, without a step up. -/
structure LeadsBack (root target : Path) (relative : Text) : Prop where
  /-- It does not begin at the root of the tree. -/
  unanchored : Anchor.ofText relative = .here
  inward : ['.', '.'] ∉ relative.splitOn '/'
  /-- Read from the root, it is the normal form of the target. -/
  same : root.lexical relative = target.normalize

/-- The names below a root lead back to the target if both begin with as many slashes. -/
theorem leadsBack_relative (absolute : root.anchor ≠ .here) (absolute' : target.anchor ≠ .here)
    (anchored : root.anchor = target.anchor) {inner : Location} (place : target.location = inner ++ root.location) :
    LeadsBack root target (Name.relative inner.reverse) := by
  have unanchored := Name.ofText_relative_append inner.reverse []
  rw [List.append_nil] at unanchored
  refine ⟨unanchored, fun parent => (Name.mem_splitOn_relative parent).2 rfl, ?_⟩
  rw [lexical_relative absolute unanchored, normalize_eq absolute', Name.stepsOf_relative, Location.after_map_into,
    List.reverse_reverse, place, anchored]

/-- A text that leads back shows that no component below the root has a backslash. -/
theorem LeadsBack.noBackslash (leads : LeadsBack root target relative) (absolute : root.anchor ≠ .here)
    (absolute' : target.anchor ≠ .here) (plain : '\\' ∉ relative) {inner : Location}
    (place : target.location = inner ++ root.location) : root.anchor = target.anchor ∧ ∀ name ∈ inner, '\\' ∉ name.text := by
  have same := leads.same
  rw [lexical_relative absolute leads.unanchored, normalize_eq absolute'] at same
  have beyond : (root.lexical relative).location = inner ++ root.location := by
    rw [leads.same, normalize_eq absolute', ← place]
    exact location_ofLocation target.location
  exact ⟨(Path.mk.inj same).1, not_mem_lexical plain (.inl rfl) beyond⟩

/-- For paths from the root of the tree: a target has no text relative to a root exactly if it is neither at the root nor
below it, and otherwise a text that leads back to it; unless it is below the root, and one of them begins with two
slashes and the other with one, or a component below the root has a backslash. -/
theorem within?_exact_iff (absolute : root.anchor ≠ .here) (absolute' : target.anchor ≠ .here) :
    ((root.within? target = none ↔ ¬ root.Contains target) ∧
        ∀ relative, root.within? target = some relative → LeadsBack root target relative) ↔
      (root.Contains target → root.anchor = target.anchor ∧ ∀ step ∈ root.below target, '\\' ∉ step.text) := by
  have steps {inner : Location} (place : target.location = inner ++ root.location) :
      (∀ step ∈ root.below target, '\\' ∉ step.text) ↔ ∀ name ∈ inner, '\\' ∉ name.text := by
    rw [below_eq absolute absolute' place, Location.steps, List.forall_mem_map]
    simp [Step.text]
  rw [contains_iff absolute absolute']
  constructor
  · rintro ⟨outside, back⟩ within
    obtain ⟨relative, found⟩ := Option.ne_none_iff_exists'.mp fun unrelated => outside.mp unrelated within
    obtain ⟨inner, place⟩ := within
    rw [steps place.symm]
    exact (back relative found).noBackslash absolute absolute' (noBackslash_within? found) place.symm
  · intro plain
    by_cases within : root.location <:+ target.location
    · obtain ⟨anchored, noBackslash⟩ := plain within
      obtain ⟨inner, place⟩ := id within
      have found := within?_eq place.symm ((steps place.symm).mp noBackslash)
      rw [found]
      constructor
      · exact iff_of_false (Option.some_ne_none _) fun outside => outside within
      · intro relative same
        cases same
        exact leadsBack_relative absolute absolute' anchored place.symm
    · have unrelated := within?_eq_none within
      rw [unrelated]
      constructor
      · exact iff_of_true rfl within
      · intro relative same
        cases same

/-- A root that is spelled with a step up, and a target below it with a step beyond the root of the tree and a name
that begins with dots. -/
theorem within?_exact_iff_sample :
    (ofText "/r/../s".toList).anchor ≠ .here ∧ (ofText "/../s//x/./../..y/z".toList).anchor ≠ .here ∧
      ((ofText "/r/../s".toList).Contains (ofText "/../s//x/./../..y/z".toList) →
        (ofText "/r/../s".toList).anchor = (ofText "/../s//x/./../..y/z".toList).anchor ∧
          ∀ step ∈ (ofText "/r/../s".toList).below (ofText "/../s//x/./../..y/z".toList), '\\' ∉ step.text) ∧
      (ofText "/r/../s".toList).within? (ofText "/../s//x/./../..y/z".toList) = some "..y/z".toList ∧
      LeadsBack (ofText "/r/../s".toList) (ofText "/../s//x/./../..y/z".toList) "..y/z".toList := by
  have absolute : (ofText "/r/../s".toList).anchor ≠ .here := by decide
  have absolute' : (ofText "/../s//x/./../..y/z".toList).anchor ≠ .here := by decide
  have plain : (ofText "/r/../s".toList).Contains (ofText "/../s//x/./../..y/z".toList) →
      (ofText "/r/../s".toList).anchor = (ofText "/../s//x/./../..y/z".toList).anchor ∧
        ∀ step ∈ (ofText "/r/../s".toList).below (ofText "/../s//x/./../..y/z".toList), '\\' ∉ step.text := by
    decide
  have found : (ofText "/r/../s".toList).within? (ofText "/../s//x/./../..y/z".toList) = some "..y/z".toList := by decide
  obtain ⟨-, back⟩ := (within?_exact_iff absolute absolute').mpr plain
  exact ⟨absolute, absolute', plain, found, back _ found⟩

/-- A name that begins with two dots and a backslash is taken for a step up, though it is below the root; a backslash
within a name leads to another place; and two slashes at the beginning are lost. -/
theorem within?_inexact :
    ((ofText "/r".toList).Contains (ofText "/r/..\\x".toList) ∧
        (ofText "/r".toList).within? (ofText "/r/..\\x".toList) = none) ∧
      ((ofText "/r".toList).within? (ofText "/r/a\\b".toList) = some "a/b".toList ∧
        (ofText "/r".toList).lexical "a/b".toList ≠ (ofText "/r/a\\b".toList).normalize) ∧
      ((ofText "/r".toList).within? (ofText "//r/x".toList) = some "x".toList ∧
        (ofText "/r".toList).lexical "x".toList ≠ (ofText "//r/x".toList).normalize) := by
  decide

end Path

end PromptCompiler
