import PromptCompiler.Proofs.HeaderFields
import PromptCompiler.Proofs.LinkedPaths
import PromptCompiler.Proofs.ReferenceEndings

/-! # Names in rewritten references

A rewritten reference spells the names on the way from the root to its target. The first of them is an entry of
the root, and that entry is there, since a walk to the target passes it. All of them come from the reference or
from the path of the document: from the root's own path no name comes back.
-/

namespace PromptCompiler

namespace Location

theorem after_append (here : Location) (first second : List Step) :
    after here (first ++ second) = after (after here first) second := by
  induction first generalizing here with
  | nil => rfl
  | cons step first ih => cases step <;> exact ih _

private theorem after_replicate_up (count : Nat) : after [] (List.replicate count .up) = [] := by
  induction count with
  | zero => rfl
  | succ count ih => exact ih

/-- Steps take names of a place back and add names of their own. -/
theorem after_eq (here : Location) (steps : List Step) :
    ∃ own count, after here steps = own ++ here.drop count ∧ ∀ name ∈ own, Step.into name ∈ steps := by
  induction steps generalizing here with
  | nil => exact ⟨[], 0, rfl, fun name member => absurd member List.not_mem_nil⟩
  | cons step rest ih =>
    cases step with
    | up =>
      obtain ⟨own, count, place, names⟩ := ih here.tail
      refine ⟨own, count + 1, ?_, fun name member => List.mem_cons_of_mem _ (names name member)⟩
      rw [after, place, ← List.drop_one, List.drop_drop, Nat.add_comm]
    | into added =>
      obtain ⟨own, count, place, names⟩ := ih (added :: here)
      cases count with
      | zero =>
        refine ⟨own ++ [added], 0, ?_, fun name member => ?_⟩
        · rw [after, place, List.append_assoc]
          rfl
        · rcases List.mem_append.mp member with inside | last
          · exact List.mem_cons_of_mem _ (names name inside)
          · exact List.mem_singleton.mp last ▸ List.mem_cons_self
      | succ count => exact ⟨own, count, place, fun name member => List.mem_cons_of_mem _ (names name member)⟩

private theorem mem_after {here : Location} {steps : List Step} {name : Name} (member : name ∈ after here steps) :
    name ∈ here ∨ Step.into name ∈ steps := by
  obtain ⟨own, count, place, names⟩ := after_eq here steps
  rw [place] at member
  rcases List.mem_append.mp member with added | kept
  · exact .inr (names name added)
  · exact .inl (List.mem_of_mem_drop kept)

/-- The names by which steps lead further in are names of the steps. -/
theorem mem_steps_of_after {here inner : Location} {steps : List Step} (further : after here steps = inner ++ here)
    {name : Name} (member : name ∈ inner) : Step.into name ∈ steps := by
  obtain ⟨own, count, place, names⟩ := after_eq here steps
  have lengths : inner.length ≤ own.length := by
    have same := congrArg List.length (further.symm.trans place)
    simp only [List.length_append, List.length_drop] at same
    omega
  have split : inner ++ here = own ++ here.drop count := further.symm.trans place
  have within : inner <+: own :=
    List.prefix_of_prefix_length_le (List.prefix_append inner here) (split ▸ List.prefix_append own _) lengths
  exact names name (within.subset member)

end Location

namespace Path

/-- The normal form of a path takes its steps up first, and then the steps to its place. -/
theorem advance_steps (anchor : Anchor) (climbed : Nat) (inside : Location) (steps : List Step) :
    ∃ count, (advance anchor climbed inside steps).steps =
      List.replicate count .up ++ (Location.after inside steps).steps := by
  induction steps generalizing climbed inside with
  | nil => exact ⟨climbed, rfl⟩
  | cons step rest ih =>
    cases step with
    | into name => exact ih climbed (name :: inside)
    | up =>
      cases inside with
      | cons name outer => exact ih climbed outer
      | nil =>
        cases anchor with
        | here => exact ih (climbed + 1) []
        | root => exact ih climbed []
        | doubledRoot => exact ih climbed []

/-- A text read from where a path leads, without a look at the tree, leads to the place that it spells. -/
theorem lexical_steps (base : Path) (text : Text) :
    ∃ count, (base.lexical text).steps = List.replicate count .up ++ (base.lexical text).location.steps ∧
      (base.lexical text).location = (base.join text).location := by
  obtain ⟨count, steps⟩ := advance_steps (base.join text).anchor 0 [] (base.join text).steps
  have place : (base.lexical text).location = (base.join text).location := by
    rw [location, lexical, normalize, steps, Location.after_append, Location.after_replicate_up]
    exact location_ofLocation _
  exact ⟨count, by rw [place]; exact steps, place⟩

private theorem location_join (base : Path) (text : Text) :
    (base.join text).location = Location.after base.location (stepsOf text) ∨
      (base.join text).location = Location.after [] (stepsOf text) := by
  rw [join]
  split
  · exact .inl (Location.after_append ..)
  · exact .inr rfl

end Path

/-! ## Characters of names -/

namespace Path

variable {c : Char}

/-- The steps of a path without some character have none. -/
theorem not_mem_step {path : Path} (absent : c ∉ path.text) {step : Step} (member : step ∈ path.steps) :
    c ∉ step.text := by
  intro inStep
  have inside : step.text <:+: ['/'].intercalate (path.steps.map Step.text) :=
    Text.infix_intercalate (List.mem_map_of_mem member)
  apply absent
  rw [text]
  split
  · rename_i empty
    rw [empty] at member
    cases member
  · exact List.mem_append_right _ (inside.subset inStep)

theorem not_mem_parent {path : Path} (absent : c ∉ path.text) {name : Name} (member : name ∈ path.parent.location) :
    c ∉ name.text :=
  (Location.mem_after member).elim (fun inRoot => absurd inRoot List.not_mem_nil) fun step =>
    not_mem_step absent ((List.dropLast_sublist _).subset step)

private theorem not_mem_stepsOf {text : Text} (absent : c ∉ text) {name : Name}
    (member : Step.into name ∈ stepsOf text) :
    c ∉ name.text := by
  intro inName
  obtain ⟨piece, listed, step⟩ := List.mem_filterMap.mp member
  rw [Step.ofPiece?] at step
  split at step
  · cases step
  · obtain ⟨named, proper, same⟩ := Option.map_eq_some_iff.mp step
    cases same
    rw [Name.ofText?] at proper
    split at proper
    · cases proper
      exact absent (Text.mem_of_mem_splitOn listed inName)
    · cases proper

/-- The names on the way from a root to what a reference means come from the reference, if it is read from the root,
or else from there and from the place it is read from. -/
theorem not_mem_lexical {base : Path} {root inner : Location} {reference : Text} (absent : c ∉ reference)
    (own : base.location = root ∨ ∀ name ∈ base.location, c ∉ name.text)
    (beyond : (base.lexical reference).location = inner ++ root) : ∀ name ∈ inner, c ∉ name.text := by
  intro name member
  obtain ⟨-, -, place⟩ := lexical_steps base reference
  rw [place] at beyond
  rcases location_join base reference with joined | replaced
  · rcases own with rfl | plain
    · exact not_mem_stepsOf absent (Location.mem_steps_of_after (joined.symm.trans beyond) member)
    · have passed : name ∈ Location.after base.location (stepsOf reference) :=
        joined ▸ beyond ▸ List.mem_append_left _ member
      exact (Location.mem_after passed).elim (plain name) (not_mem_stepsOf absent)
  · have passed : name ∈ Location.after [] (stepsOf reference) := replaced ▸ beyond ▸ List.mem_append_left _ member
    exact (Location.mem_after passed).elim (fun inRoot => absurd inRoot List.not_mem_nil) (not_mem_stepsOf absent)

end Path

namespace FileTree

variable {tree : FileTree} {path : Path}

theorem present_iff : tree.present path = true ↔
    ∃ place entry, tree.locate true path = .ok place ∧ tree.get? place = some entry := by
  rw [present, status]
  cases located : tree.locate true path with
  | error fault => simp [bind, Except.bind, Except.isOk, Except.toBool]
  | ok place =>
    cases there : tree.get? place <;> simp [bind, Except.bind, Except.isOk, Except.toBool, there]

private theorem walkWithin_replicate_up (follow : Bool) (budget count : Nat) (steps : List Step) :
    tree.walkWithin follow budget [] (List.replicate count .up ++ steps) = tree.walkWithin follow budget [] steps := by
  cases budget with
  | zero => rfl
  | succ budget =>
    rw [walkWithin_succ, walkWithin_succ]
    induction count with
    | zero => rfl
    | succ count ih => exact ih

/-- Where something is below a place, something is at the place. -/
theorem present_above {count : Nat} {inner place : Location}
    (steps : path.steps = List.replicate count .up ++ Location.steps (inner ++ place)) (there : tree.present path = true) :
    tree.present (.ofLocation place) = true := by
  obtain ⟨goal, entry, located, found⟩ := present_iff.mp there
  obtain ⟨noNul, walked⟩ := locate_eq_ok_iff_walkWithin.mp located
  have split : Location.steps (inner ++ place) = place.steps ++ inner.steps := by
    simp [Location.steps]
  rw [steps, walkWithin_replicate_up, split] at walked
  have noNul' : ¬ (Path.ofLocation place).steps.any Step.holdsNul = true := by
    rw [steps, split, List.any_append, List.any_append] at noNul
    intro nul
    exact noNul (by rw [show place.steps.any Step.holdsNul = true from nul]; simp)
  by_cases last : Location.steps inner = []
  · rw [last, List.append_nil] at walked
    exact present_iff.mpr ⟨goal, entry, locate_eq_ok_iff_walkWithin.mpr ⟨noNul', walked⟩, found⟩
  · obtain ⟨middle, before, opens, -⟩ := walkWithin_append (opens_root tree) last walked
    exact present_iff.mpr ⟨middle, .directory, locate_eq_ok_iff_walkWithin.mpr ⟨noNul', before⟩, opens.directory⟩

end FileTree

end PromptCompiler
