import PromptCompiler.Proofs.Drafts
import PromptCompiler.Proofs.PlainTrees

/-! # The paths that references ask about

The rewriting of references looks at the tree only to ask whether something is at certain paths. Which
paths these are depends on the answers: an at sign after a rewritten reference is looked up by the new
text, and the directory of the document is asked only if nothing is there from the root. Trees that give
the same answers to the questions asked in one of them give the same rewriting.
-/

namespace PromptCompiler

namespace Words

def list (words : Words) : List Text := words.first :: words.later.map Prod.snd

/-- Rules that agree on the words of a text rewrite it alike. -/
theorem rewrite_congr {rule other : Text → Text × List Text} {source : Text}
    (agree : ∀ word ∈ (ofText source).list, rule word = other word) : rewrite rule source = rewrite other source := by
  have first : rule (ofText source).first = other (ofText source).first := agree _ List.mem_cons_self
  have later (part : Char × Text) (member : part ∈ (ofText source).later) : rule part.2 = other part.2 :=
    agree _ (List.mem_cons_of_mem _ (List.mem_map_of_mem member))
  have texts : ((ofText source).later.map fun part => (part.1, (rule part.2).1)) =
      (ofText source).later.map fun part => (part.1, (other part.2).1) :=
    List.map_congr_left fun part member => by rw [later part member]
  have warnings : ((ofText source).later.flatMap fun part => (rule part.2).2) =
      (ofText source).later.flatMap fun part => (other part.2).2 := by
    rw [List.flatMap_def, List.flatMap_def, List.map_congr_left fun part member => by rw [later part member]]
  simp only [rewrite]
  rw [first, texts, warnings]

end Words

namespace Path

/-- The normal form of a path from the root goes by names to the place that the path leads to. -/
theorem advance_eq {anchor : Anchor} (absolute : anchor ≠ .here) (inside : Location) (steps : List Step) :
    advance anchor 0 inside steps = ⟨anchor, (Location.after inside steps).steps⟩ := by
  induction steps generalizing inside with
  | nil => simp [advance, Location.after]
  | cons step rest ih =>
    cases step with
    | into name => exact ih (name :: inside)
    | up =>
      cases inside with
      | cons name outer => exact ih outer
      | nil =>
        cases anchor with
        | here => exact absurd rfl absolute
        | root => exact ih []
        | doubledRoot => exact ih []

theorem normalize_eq {path : Path} (absolute : path.anchor ≠ .here) :
    path.normalize = ⟨path.anchor, path.location.steps⟩ := advance_eq absolute [] path.steps

/-- A text read from where a path from the root leads, without a look at the tree, spells a place. -/
theorem lexical_spells {base : Path} (absolute : base.anchor ≠ .here) (text : Text) :
    ∃ (anchor : Anchor) (place : Location), base.lexical text = ⟨anchor, place.steps⟩ := by
  have absolute' : (base.join text).anchor ≠ .here := by
    rw [join]
    split
    · exact absolute
    · rename_i elsewhere
      exact elsewhere
  exact ⟨_, _, normalize_eq absolute'⟩

private theorem anchor_ofLocation (place : Location) : (ofLocation place).anchor ≠ .here := Anchor.noConfusion

end Path

namespace References

/-- The paths asked about for a word by a rule for the reference in it. -/
def askedInWord (begins : Option Char → Text → Bool) (asked : Text → List Path) (word : Text) : List Path :=
  match cut? begins word with
  | none => []
  | some cut => asked cut.reference

/-- The path asked about for a reference that steps out of the directory. -/
def askedByParent (surroundings : Surroundings) (reference : Text) : List Path :=
  [surroundings.directory.lexical reference]

/-- The paths asked about for a reference after an at sign: from the root, and from the directory of the
document if nothing is there. -/
def askedByAnchored (surroundings : Surroundings) (signed : Text) : List Path :=
  let fromRoot := surroundings.root.lexical signed.tail
  if surroundings.tree.present fromRoot then [fromRoot]
  else [fromRoot, surroundings.directory.lexical signed.tail]

/-- The paths asked about while the references of a text are rewritten. -/
def asked (surroundings : Surroundings) (text : Text) : List Path :=
  let parents := Words.rewrite (rewriteWord beginsParent (rewriteParent surroundings)) text
  (Words.ofText text).list.flatMap (askedInWord beginsParent (askedByParent surroundings)) ++
    (Words.ofText parents.1).list.flatMap (askedInWord beginsAnchored (askedByAnchored surroundings))

variable {tree other : FileTree} {root document : Path}

private theorem rewriteParent_congr {reference : Text}
    (agree : ∀ path ∈ askedByParent ⟨tree, root, document⟩ reference, tree.present path = other.present path) :
    rewriteParent ⟨tree, root, document⟩ reference = rewriteParent ⟨other, root, document⟩ reference := by
  have same : tree.present (document.parent.lexical reference) = other.present (document.parent.lexical reference) :=
    agree _ List.mem_cons_self
  simp only [rewriteParent, Surroundings.directory, same]
  rfl

private theorem rewriteAnchored_congr {signed : Text}
    (agree : ∀ path ∈ askedByAnchored ⟨tree, root, document⟩ signed, tree.present path = other.present path) :
    rewriteAnchored ⟨tree, root, document⟩ signed = rewriteAnchored ⟨other, root, document⟩ signed := by
  have targets : anchoredTarget? ⟨tree, root, document⟩ signed.tail =
      anchoredTarget? ⟨other, root, document⟩ signed.tail := by
    simp only [askedByAnchored, Surroundings.directory] at agree
    simp only [anchoredTarget?, List.map_cons, List.map_nil, Surroundings.directory]
    cases found : tree.present (root.lexical signed.tail) with
    | true =>
      rw [found] at agree
      have same := agree (root.lexical signed.tail) (by simp)
      rw [List.find?_cons_of_pos found, List.find?_cons_of_pos (same ▸ found)]
    | false =>
      rw [found] at agree
      have first := agree (root.lexical signed.tail) (by simp)
      have second := agree (document.parent.lexical signed.tail) (by simp)
      simp [List.find?_cons, found, ← first, second]
  simp only [rewriteAnchored, targets, Surroundings.label]

private theorem rewriteWord_congr {begins : Option Char → Text → Bool} {asked : Text → List Path}
    {rule rule' : Text → Text × List Text} {word : Text}
    (congr : ∀ reference, (∀ path ∈ asked reference, tree.present path = other.present path) →
      rule reference = rule' reference)
    (agree : ∀ path ∈ askedInWord begins asked word, tree.present path = other.present path) :
    rewriteWord begins rule word = rewriteWord begins rule' word := by
  rw [rewriteWord, rewriteWord]
  rw [askedInWord] at agree
  cases cutting : cut? begins word with
  | none => rfl
  | some cut =>
    rw [cutting] at agree
    simp only [congr cut.reference agree]

/-- Trees that answer the questions asked in one of them alike rewrite references alike. -/
theorem rewrite_congr {text : Text}
    (agree : ∀ path ∈ asked ⟨tree, root, document⟩ text, tree.present path = other.present path) :
    rewrite ⟨tree, root, document⟩ text = rewrite ⟨other, root, document⟩ text := by
  have parents : Words.rewrite (rewriteWord beginsParent (rewriteParent ⟨tree, root, document⟩)) text =
      Words.rewrite (rewriteWord beginsParent (rewriteParent ⟨other, root, document⟩)) text :=
    Words.rewrite_congr fun word member => rewriteWord_congr (fun _ => rewriteParent_congr) fun path member' =>
      agree path (List.mem_append_left _ (List.mem_flatMap_of_mem member member'))
  have anchored (first : Text)
      (same : first = (Words.rewrite (rewriteWord beginsParent (rewriteParent ⟨tree, root, document⟩)) text).1) :
      Words.rewrite (rewriteWord beginsAnchored (rewriteAnchored ⟨tree, root, document⟩)) first =
        Words.rewrite (rewriteWord beginsAnchored (rewriteAnchored ⟨other, root, document⟩)) first :=
    Words.rewrite_congr fun word member => rewriteWord_congr (fun _ => rewriteAnchored_congr) fun path member' =>
      agree path (List.mem_append_right _ (List.mem_flatMap_of_mem (same ▸ member) member'))
  simp only [rewrite]
  rw [anchored _ rfl, parents]

/-- Every path asked about spells a place, if the root and the document are places. -/
theorem spells_of_mem_asked {rootPlace : Location} {name : Name} {directory : Location} {text : Text} {path : Path}
    (member : path ∈ asked ⟨tree, .ofLocation rootPlace, .ofLocation (name :: directory)⟩ text) :
    ∃ (anchor : Anchor) (place : Location), path = ⟨anchor, place.steps⟩ := by
  have inWord (begins : Option Char → Text → Bool) (rule : Text → List Path) (words : List Text)
      (spells : ∀ reference, ∀ path ∈ rule reference,
        ∃ (anchor : Anchor) (place : Location), path = ⟨anchor, place.steps⟩)
      (path : Path) (member : path ∈ words.flatMap (askedInWord begins rule)) :
      ∃ (anchor : Anchor) (place : Location), path = ⟨anchor, place.steps⟩ := by
    obtain ⟨word, -, member⟩ := List.mem_flatMap.mp member
    rw [askedInWord] at member
    split at member
    · cases member
    · exact spells _ path member
  rcases List.mem_append.mp member with parent | anchored
  · refine inWord _ _ _ (fun reference path member => ?_) path parent
    rw [askedByParent, Surroundings.directory, Path.parent_ofLocation, List.mem_singleton] at member
    exact member ▸ Path.lexical_spells (Path.anchor_ofLocation directory) reference
  · refine inWord _ _ _ (fun signed path member => ?_) path anchored
    rw [askedByAnchored, Surroundings.directory, Path.parent_ofLocation] at member
    split at member
    · rw [List.mem_singleton] at member
      exact member ▸ Path.lexical_spells (Path.anchor_ofLocation rootPlace) signed.tail
    · rw [List.mem_cons, List.mem_singleton] at member
      rcases member with rfl | rfl
      · exact Path.lexical_spells (Path.anchor_ofLocation rootPlace) signed.tail
      · exact Path.lexical_spells (Path.anchor_ofLocation directory) signed.tail

end References

end PromptCompiler
