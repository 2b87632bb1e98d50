import PromptCompiler.Proofs.AskedPaths

/-! # What lies outside the root

References are looked up by paths that may lead out of the root. What is found outside the root is never
written into an artifact: the reference stays as it stands, with a warning. For a reference that steps out of
the directory this is all, so that its text depends only on what is within the root. A reference after an at
sign is looked up from the root first, and what is there hides what the directory of the document has under
the same text. So it matters whether something is outside the root exactly where the text leads out of the
root from the root, and to something within the root from the directory.
-/

namespace PromptCompiler

/-! ## Places within a root -/

/-- Steps between places that do not begin with a step up only go further in. -/
theorem Location.prefix_of_stepsBetween {root target : List Name}
    (inward : (stepsBetween root target).head? ≠ some .up) : root <+: target := by
  induction root generalizing target with
  | nil => exact List.nil_prefix
  | cons first root ih =>
    cases target with
    | nil => exact absurd rfl inward
    | cons other target =>
      rw [stepsBetween] at inward
      split at inward
      · rename_i same
        exact same ▸ List.cons_prefix_cons.mpr ⟨rfl, ih inward⟩
      · exact absurd rfl inward

namespace Path

/-- A path that has a text relative to a root spells a place within the root. -/
theorem location_of_within? {root target : Path} {relative : Text} (found : root.within? target = some relative) :
    root.location <:+ target.location := by
  have inward : (Location.stepsBetween root.location.reverse target.location.reverse).head? ≠ some .up := by
    intro up
    obtain ⟨rest, steps⟩ := List.head?_eq_some_iff.mp up
    rw [within?, relativeText, steps] at found
    cases rest with
    | nil => cases found
    | cons step rest => cases found
  exact List.reverse_prefix.mp (Location.prefix_of_stepsBetween inward)

end Path

namespace FileTree

/-- Trees in which the paths that spell places within a root lead to the same. -/
def SameWithin (root : Location) (tree other : FileTree) : Prop :=
  ∀ (anchor : Anchor) (place : Location), root <:+ place →
    tree.status ⟨anchor, place.steps⟩ = other.status ⟨anchor, place.steps⟩

/-- Trees that hold the same within a root, without links in it and on the way to it. -/
structure AgreeWithin (root : Location) (tree other : FileTree) : Prop where
  /-- The root and what is above it are directories. -/
  above : ∀ outer, outer <:+ root → tree.get? outer = some .directory ∧ other.get? outer = some .directory
  same : ∀ place, root <:+ place → tree.get? place = other.get? place
  noLink : ∀ place target, root <:+ place → tree.get? place ≠ some (.link target)

/-- A walk by names depends on the places that it passes, and ends at the place that the names spell. -/
theorem walk_names_congr {tree other : FileTree} {names : List Name} {here : Location} (follow : Bool)
    (jump jump' : Location → Text → List Step → Except SystemFault Location)
    (same : ∀ place, here <:+ place → place <:+ names.reverse ++ here → tree.get? place = other.get? place)
    (noLink : ∀ place target, here <:+ place → place <:+ names.reverse ++ here →
      tree.get? place ≠ some (.link target)) :
    tree.walk follow jump here (names.map .into) = other.walk follow jump' here (names.map .into) ∧
      ∀ ending, tree.walk follow jump here (names.map .into) = .ok ending → ending = names.reverse ++ here := by
  induction names generalizing here with
  | nil => exact ⟨rfl, fun ending walked => (Except.ok.inj walked).symm⟩
  | cons name rest ih =>
    have spelled : (name :: rest).reverse ++ here = rest.reverse ++ name :: here := by simp
    rw [spelled] at same noLink ⊢
    have entered : here <:+ name :: here := List.suffix_cons name here
    have passed : name :: here <:+ rest.reverse ++ name :: here := List.suffix_append _ _
    have last (ending : Location) (ends : (rest.map Step.into).isEmpty = true) (stop : name :: here = ending) :
        ending = rest.reverse ++ name :: here := by
      have noStep : rest = [] := by simpa using ends
      rw [noStep, ← stop]
      rfl
    rw [List.map_cons, walk, walk, ← same _ entered passed]
    split
    · exact ⟨rfl, fun ending walked => by cases walked⟩
    · split
      · exact ih (fun place inner => same place (entered.trans inner))
          fun place target inner => noLink place target (entered.trans inner)
      · rename_i target link
        exact absurd link (noLink _ target entered passed)
      · refine ⟨rfl, fun ending walked => ?_⟩
        split at walked
        · rename_i ends
          exact last ending ends (Except.ok.inj walked)
        · cases walked
      · refine ⟨rfl, fun ending walked => ?_⟩
        split at walked
        · rename_i ends
          exact last ending ends (Except.ok.inj walked)
        · cases walked

/-- A path to a place leads to the same in trees that hold the same on the way, if there is no link. -/
theorem status_congr {tree other : FileTree} {place : Location} (anchor : Anchor)
    (passed : ∀ outer, outer <:+ place → tree.get? outer = other.get? outer ∧
      ∀ target, tree.get? outer ≠ some (.link target)) :
    tree.status ⟨anchor, place.steps⟩ = other.status ⟨anchor, place.steps⟩ := by
  have spelled : place.reverse.reverse ++ [] = place := by simp
  have walks (jump jump' : Location → Text → List Step → Except SystemFault Location) :
      tree.walk true jump [] place.steps = other.walk true jump' [] place.steps ∧
        ∀ ending, tree.walk true jump [] place.steps = .ok ending → ending = place := by
    have walked := walk_names_congr true jump jump' (fun outer _ above => (passed outer (spelled ▸ above)).1)
      fun outer target _ above => (passed outer (spelled ▸ above)).2 target
    rwa [spelled] at walked
  have located : tree.locate true ⟨anchor, place.steps⟩ = other.locate true ⟨anchor, place.steps⟩ ∧
      ∀ ending, tree.locate true ⟨anchor, place.steps⟩ = .ok ending → ending = place := by
    rw [locate, locate]
    split
    · exact ⟨rfl, fun ending walked => by cases walked⟩
    · exact walks _ _
  rw [status, status, ← located.1]
  cases found : tree.locate true ⟨anchor, place.steps⟩ with
  | error fault => rfl
  | ok ending =>
    obtain rfl := located.2 ending found
    simp only [bind, Except.bind, (passed ending List.suffix_rfl).1]

/-- Paths into a root that holds the same lead to the same. -/
theorem AgreeWithin.sameWithin {root : Location} {tree other : FileTree} (agree : AgreeWithin root tree other) :
    SameWithin root tree other := by
  intro anchor place within
  refine status_congr anchor fun outer above => ?_
  rcases List.suffix_or_suffix_of_suffix above within with outside | inside
  · obtain ⟨first, second⟩ := agree.above outer outside
    rw [first, second]
    exact ⟨rfl, fun target same => by cases same⟩
  · exact ⟨agree.same outer inside, fun target => agree.noLink outer target inside⟩

end FileTree

/-! ## Texts without warnings -/

/-- Rules that give the words of a text the same texts give the whole the same text. -/
theorem Words.rewrite_text_congr {rule other : Text → Text × List Text} {source : Text}
    (agree : ∀ word ∈ (ofText source).list, (rule word).1 = (other word).1) :
    (rewrite rule source).1 = (rewrite other source).1 := by
  have first : (rule (ofText source).first).1 = (other (ofText source).first).1 := agree _ List.mem_cons_self
  have later : ((ofText source).later.map fun part => (part.1, (rule part.2).1)) =
      (ofText source).later.map fun part => (part.1, (other part.2).1) :=
    List.map_congr_left fun part member =>
      congrArg (Prod.mk part.1) (agree _ (List.mem_cons_of_mem _ (List.mem_map_of_mem member)))
  simp only [rewrite, first, later]

namespace References

variable {tree other : FileTree} {root document : Path}

/-- A reference that means a path where something is: written by the text of the path relative to the root, or
left as it stands if the path leads out of the root. -/
def textFor (root target : Path) (written : Text → Text) (reference : Text) : Text :=
  ((root.within? target).map written).getD reference

private theorem textFor_outside {target : Path} (outside : root.within? target = none) (written : Text → Text)
    (reference : Text) : textFor root target written reference = reference := by
  rw [textFor, outside]
  rfl

theorem rewriteParent_text (reference : Text) :
    (rewriteParent ⟨tree, root, document⟩ reference).1 =
      bif tree.present (document.parent.lexical reference) then
        textFor root (document.parent.lexical reference) (keepSlash reference) reference
      else reference := by
  cases there : tree.present (document.parent.lexical reference) with
  | false => simp [rewriteParent, Surroundings.directory, there]
  | true =>
    simp only [rewriteParent, Surroundings.directory, there, textFor, if_true, cond_true]
    cases root.within? (document.parent.lexical reference) <;> rfl

theorem rewriteAnchored_text (signed : Text) :
    (rewriteAnchored ⟨tree, root, document⟩ signed).1 =
      bif tree.present (root.lexical signed.tail) then
        textFor root (root.lexical signed.tail) (fun relative => '@' :: keepSlash signed.tail relative) signed
      else bif tree.present (document.parent.lexical signed.tail) then
        textFor root (document.parent.lexical signed.tail) (fun relative => '@' :: keepSlash signed.tail relative) signed
      else signed := by
  simp only [rewriteAnchored, anchoredTarget?, Surroundings.directory, textFor, List.map_cons, List.map_nil]
  cases fromRoot : tree.present (root.lexical signed.tail) with
  | true =>
    rw [List.find?_cons_of_pos fromRoot]
    simp only [cond_true]
    cases root.within? (root.lexical signed.tail) <;> rfl
  | false =>
    rw [List.find?_cons_of_neg (by simp [fromRoot])]
    cases fromDirectory : tree.present (document.parent.lexical signed.tail) with
    | true =>
      rw [List.find?_cons_of_pos fromDirectory]
      simp only [cond_true, cond_false]
      cases root.within? (document.parent.lexical signed.tail) <;> rfl
    | false =>
      rw [List.find?_cons_of_neg (by simp [fromDirectory])]
      rfl

/-- The references after an at sign in a text, as they are once those that step out of the directory are
rewritten. -/
def anchored (surroundings : Surroundings) (text : Text) : List Text :=
  (Words.ofText (Words.rewrite (rewriteWord beginsParent (rewriteParent surroundings)) text).1).list.filterMap
    fun word => (cut? beginsAnchored word).map (·.reference.tail)

/-- A reference that leads out of the root from the root, and to something within the root from the directory. -/
structure Wavers (surroundings : Surroundings) (reference : Text) : Prop where
  outside : surroundings.root.within? (surroundings.root.lexical reference) = none
  inside : surroundings.root.within? (surroundings.directory.lexical reference) ≠ none
  present : surroundings.tree.present (surroundings.directory.lexical reference) = true

section Same

variable (same : FileTree.SameWithin root.location tree other)

include same

/-- Whether something is at a path within the root is the same. -/
theorem present_eq {base : Path} (absolute : base.anchor ≠ .here) {reference : Text}
    (inside : root.within? (base.lexical reference) ≠ none) :
    tree.present (base.lexical reference) = other.present (base.lexical reference) := by
  obtain ⟨relative, found⟩ := Option.ne_none_iff_exists'.mp inside
  have within := Path.location_of_within? found
  obtain ⟨anchor, place, spelled⟩ := Path.lexical_spells absolute reference
  have location : (⟨anchor, place.steps⟩ : Path).location = place := Path.location_ofLocation place
  rw [spelled, location] at within
  rw [spelled, FileTree.present, FileTree.present, same anchor place within]

private theorem rewriteParent_text_congr (absolute : document.anchor ≠ .here) (reference : Text) :
    (rewriteParent ⟨tree, root, document⟩ reference).1 = (rewriteParent ⟨other, root, document⟩ reference).1 := by
  rw [rewriteParent_text, rewriteParent_text]
  by_cases outside : root.within? (document.parent.lexical reference) = none
  · -- Outside the root the reference stays, whether something is there or not.
    rw [textFor_outside outside, Bool.cond_self, Bool.cond_self]
  · have answer : tree.present (document.parent.lexical reference) =
        other.present (document.parent.lexical reference) :=
      present_eq same (show document.parent.anchor ≠ .here from absolute) outside
    rw [answer]

private theorem rewriteAnchored_text_congr (absolute : root.anchor ≠ .here) (absolute' : document.anchor ≠ .here)
    {signed : Text} (steady : Wavers ⟨tree, root, document⟩ signed.tail →
      tree.present (root.lexical signed.tail) = other.present (root.lexical signed.tail)) :
    (rewriteAnchored ⟨tree, root, document⟩ signed).1 = (rewriteAnchored ⟨other, root, document⟩ signed).1 := by
  rw [rewriteAnchored_text, rewriteAnchored_text]
  by_cases outside' : root.within? (document.parent.lexical signed.tail) = none
  · -- What is at the second path is never written, so that only an answer about the first one counts.
    rw [textFor_outside outside', Bool.cond_self, Bool.cond_self]
    by_cases outside : root.within? (root.lexical signed.tail) = none
    · rw [textFor_outside outside, Bool.cond_self, Bool.cond_self]
    · rw [present_eq same absolute outside]
  · have fromDirectory : tree.present (document.parent.lexical signed.tail) =
        other.present (document.parent.lexical signed.tail) :=
      present_eq same (show document.parent.anchor ≠ .here from absolute') outside'
    rw [← fromDirectory]
    by_cases outside : root.within? (root.lexical signed.tail) = none
    · cases there : tree.present (document.parent.lexical signed.tail) with
      | true => rw [steady ⟨outside, outside', there⟩]
      | false => rw [textFor_outside outside, cond_false, Bool.cond_self, Bool.cond_self]
    · rw [present_eq same absolute outside]

/-- Apart from references that waver, the text that the rewriting gives depends on what is within the root. -/
theorem rewrite_text_congr (absolute : root.anchor ≠ .here) (absolute' : document.anchor ≠ .here) {text : Text}
    (steady : ∀ reference ∈ anchored ⟨tree, root, document⟩ text, Wavers ⟨tree, root, document⟩ reference →
      tree.present (root.lexical reference) = other.present (root.lexical reference)) :
    (rewrite ⟨tree, root, document⟩ text).1 = (rewrite ⟨other, root, document⟩ text).1 := by
  have parents : (Words.rewrite (rewriteWord beginsParent (rewriteParent ⟨tree, root, document⟩)) text).1 =
      (Words.rewrite (rewriteWord beginsParent (rewriteParent ⟨other, root, document⟩)) text).1 := by
    refine Words.rewrite_text_congr fun word _ => ?_
    rw [rewriteWord, rewriteWord]
    cases cut? beginsParent word with
    | none => rfl
    | some cut => simp only [rewriteParent_text_congr same absolute' cut.reference]
  simp only [rewrite]
  rw [← parents]
  refine Words.rewrite_text_congr fun word member => ?_
  rw [rewriteWord, rewriteWord]
  cases cutting : cut? beginsAnchored word with
  | none => rfl
  | some cut =>
    have listed : cut.reference.tail ∈ anchored ⟨tree, root, document⟩ text :=
      List.mem_filterMap.mpr ⟨word, member, by rw [cutting]; rfl⟩
    simp only [rewriteAnchored_text_congr same absolute absolute' (steady _ listed)]

end Same

end References

/-! ## Artifacts -/

namespace Project

/-- A document compiles alike but for its warnings in trees that hold the same within the root, whatever they hold
outside, if something is there in both or in neither where a reference that wavers leads out of the root. The
artifact is the same also with other sums of the run so far. -/
theorem compile_within {tree other : FileTree} {root document : Path} (absolute : root.anchor ≠ .here)
    (absolute' : document.anchor ≠ .here) (same : FileTree.SameWithin root.location tree other) (table : ToolTable)
    (source : Text) (tally tally' : Tally)
    (steady : ∀ reference ∈ References.anchored ⟨tree, root, document⟩ (Draft.referringBody source),
      References.Wavers ⟨tree, root, document⟩ reference →
        tree.present (root.lexical reference) = other.present (root.lexical reference)) :
    (∃ warnings, compile ⟨other, root, table⟩ document source tally =
      (compile ⟨tree, root, table⟩ document source tally).withWarnings warnings) ∧
      (compile ⟨tree, root, table⟩ document source tally).output =
        (compile ⟨other, root, table⟩ document source tally').output := by
  have text := References.rewrite_text_congr same absolute absolute' steady
  exact ⟨compile_eq_of_text rfl text, compile_output_congr rfl rfl text⟩

namespace Neighboured

def root : Location := [⟨"proj".toList, by decide⟩]

def commands : Location := (Layout.commandsPlace root).tail

/-- The name of a directory of commands, and of a directory beside the project. -/
def shared : Name := ⟨"shared".toList, by decide⟩

/-- The name of a file in such a directory. -/
def note : Name := ⟨"note.md".toList, by decide⟩

def document : Location := ⟨"see.md".toList, by decide⟩ :: Layout.commandsPlace root

/-- A document that leads to the file in the commands from its directory, and out of the root from the root. -/
def source : Text := "See @./../shared/note.md here\n".toList

/-- A project with the document and the file, and an empty directory beside it. -/
def tree : FileTree where
  entries :=
    [(root, .directory), (commands, .directory), (document.tail, .directory),
     (document, .file (Text.utf8 source)), (shared :: commands, .directory),
     (note :: shared :: commands, .file (Text.utf8 "x".toList)), ([shared], .directory)]

/-- Entries that are put outside the project change nothing within it. -/
theorem agreeWithin_set {place : Location} (outside : ¬ root <:+ place) (entry : Entry) :
    FileTree.AgreeWithin root tree (tree.set place entry) where
  above := by
    intro outer above
    rcases List.suffix_cons_iff.mp above with same | top
    · have directory : tree.get? outer = some .directory := by
        rw [same]
        decide
      have apart : outer ≠ place := fun here => outside (here ▸ same ▸ List.suffix_rfl)
      rw [FileTree.get?_set, if_neg fun here => apart here.1]
      exact ⟨directory, directory⟩
    · rw [List.suffix_nil.mp top]
      exact ⟨rfl, rfl⟩
  same := by
    intro other within
    rw [FileTree.get?_set, if_neg fun here : other = place ∧ place ≠ [] => outside (here.1 ▸ within)]
  noLink := fun place target _ =>
    (FileTree.Plain.of_isPlain (show tree.isPlain = true by decide)).noLink place target

end Neighboured

theorem compile_within_sample :
    FileTree.AgreeWithin Neighboured.root Neighboured.tree (Neighboured.tree.set [Neighboured.note] (.file .empty)) ∧
      References.Wavers ⟨Neighboured.tree, .ofLocation Neighboured.root, .ofLocation Neighboured.document⟩
        "./../shared/note.md".toList ∧
      (∃ warnings, compile ⟨Neighboured.tree.set [Neighboured.note] (.file .empty), .ofLocation Neighboured.root, .empty⟩
          (.ofLocation Neighboured.document) Neighboured.source .empty =
        (compile ⟨Neighboured.tree, .ofLocation Neighboured.root, .empty⟩ (.ofLocation Neighboured.document)
          Neighboured.source .empty).withWarnings warnings) ∧
      (compile ⟨Neighboured.tree, .ofLocation Neighboured.root, .empty⟩ (.ofLocation Neighboured.document)
          Neighboured.source .empty).output =
        (compile ⟨Neighboured.tree.set [Neighboured.note] (.file .empty), .ofLocation Neighboured.root, .empty⟩
          (.ofLocation Neighboured.document) Neighboured.source .empty).output := by
  have agree := Neighboured.agreeWithin_set (show ¬ Neighboured.root <:+ [Neighboured.note] by decide) (.file .empty)
  have same : FileTree.SameWithin (Path.ofLocation Neighboured.root).location Neighboured.tree
      (Neighboured.tree.set [Neighboured.note] (.file .empty)) := by
    rw [Path.location_ofLocation]
    exact agree.sameWithin
  have listed : References.anchored
      ⟨Neighboured.tree, .ofLocation Neighboured.root, .ofLocation Neighboured.document⟩
      (Draft.referringBody Neighboured.source) = ["./../shared/note.md".toList] := by decide +kernel
  refine ⟨agree, ⟨by decide, by decide, by decide⟩, ?_⟩
  refine compile_within (by decide) (by decide) same .empty Neighboured.source .empty .empty ?_
  rw [listed]
  intro reference member _
  rw [List.mem_singleton.mp member]
  decide

/-- A file outside the root hides the one within it to which a reference of the document leads. -/
theorem compile_output_hidden :
    FileTree.AgreeWithin Neighboured.root Neighboured.tree
        (Neighboured.tree.set [Neighboured.note, Neighboured.shared] (.file .empty)) ∧
      Neighboured.root <:+ Neighboured.document ∧
      (compile ⟨Neighboured.tree, .ofLocation Neighboured.root, .empty⟩ (.ofLocation Neighboured.document)
          Neighboured.source .empty).output ≠
        (compile ⟨Neighboured.tree.set [Neighboured.note, Neighboured.shared] (.file .empty),
          .ofLocation Neighboured.root, .empty⟩ (.ofLocation Neighboured.document) Neighboured.source .empty).output :=
  ⟨Neighboured.agreeWithin_set (by decide) _, by decide, by decide +kernel⟩

end Project

end PromptCompiler
