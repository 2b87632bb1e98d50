import PromptCompiler.Proofs.ReferenceTokens
import PromptCompiler.Proofs.RelativePaths

/-! # Where rewritten references lead

A reference may mean a path or two, and it means the first one where there is something. If that is at or below
the root, the reference is replaced by a path that leads there from the root; if it is outside, the reference stays
and there is a warning; if there is nothing, it just stays. Both passes over a text do nothing else, the second
one over what the first has written.
-/

namespace PromptCompiler.References

/-! ## One token -/

/-- What becomes of a token, which is a sign and a reference, by the paths that the reference may mean. -/
inductive Becomes (surroundings : Surroundings) (sign : Text) (candidates : Text → List Path)
    (complaint : Text → Text) : Text → Text → List Text → Prop
  /-- There is nothing at any of the paths: the token stays. -/
  | missing {reference : Text} (nothing : ∀ path ∈ candidates reference, surroundings.tree.present path = false) :
    Becomes surroundings sign candidates complaint (sign ++ reference) (sign ++ reference) []
  /-- The first path where there is something is outside the root: the token stays, with a warning. -/
  | outside {reference : Text} {target : Path}
      (chosen : (candidates reference).find? surroundings.tree.present = some target)
      (outside : ¬ surroundings.root.location <:+ target.location) :
    Becomes surroundings sign candidates complaint (sign ++ reference) (sign ++ reference) [complaint reference]
  /-- It is at or below the root: a path that leads there takes the place of the reference. -/
  | inside {reference path : Text} {target : Path}
      (chosen : (candidates reference).find? surroundings.tree.present = some target)
      (leads : Path.LeadsTo surroundings.root target reference path) :
    Becomes surroundings sign candidates complaint (sign ++ reference) (sign ++ path) []

/-- What becomes of a reference that steps out of the directory: it is read from there. -/
def ParentBecomes (surroundings : Surroundings) : Text → Text → List Text → Prop :=
  Becomes surroundings [] (fun reference => [surroundings.directory.lexical reference]) fun reference =>
    surroundings.label ++ ": path resolves outside workspace root: ".toList ++ reference

/-- What becomes of a reference after an at sign: it is read from the root, and else from the directory. -/
def AnchoredBecomes (surroundings : Surroundings) : Text → Text → List Text → Prop :=
  Becomes surroundings ['@']
    (fun reference => [surroundings.root.lexical reference, surroundings.directory.lexical reference]) fun reference =>
    surroundings.label ++ ": @-reference resolves outside workspace root: ".toList ++ reference

/-- A reference rewritten by the paths that it may mean. -/
def resolve (surroundings : Surroundings) (sign : Text) (candidates : Text → List Path) (complaint : Text → Text)
    (reference : Text) : Text × List Text :=
  match (candidates reference).find? surroundings.tree.present with
  | none => (sign ++ reference, [])
  | some target =>
    match surroundings.root.within? target with
    | some relative => (sign ++ keepSlash reference relative, [])
    | none => (sign ++ reference, [complaint reference])

private theorem rewriteParent_eq (surroundings : Surroundings) (reference : Text) :
    rewriteParent surroundings reference =
      resolve surroundings [] (fun reference => [surroundings.directory.lexical reference])
        (fun reference => surroundings.label ++ ": path resolves outside workspace root: ".toList ++ reference)
        reference := by
  simp only [rewriteParent, resolve, List.find?_cons, List.find?_nil]
  cases surroundings.tree.present (surroundings.directory.lexical reference) with
  | false => rfl
  | true => rfl

private theorem rewriteAnchored_eq (surroundings : Surroundings) (reference : Text) :
    rewriteAnchored surroundings ('@' :: reference) =
      resolve surroundings ['@']
        (fun reference => [surroundings.root.lexical reference, surroundings.directory.lexical reference])
        (fun reference => surroundings.label ++ ": @-reference resolves outside workspace root: ".toList ++ reference)
        reference := rfl

variable {tree : FileTree} {root document : Path} {surroundings : Surroundings}

/-- Paths that a reference may mean, from which the names at or below the root have no backslash. -/
def Plain (root : Path) (candidates : Text → List Path) (reference : Text) : Prop :=
  ∀ target ∈ candidates reference, ∃ base : Path, base.anchor ≠ .here ∧ target = base.lexical reference ∧
    ∀ inner, target.location = inner ++ root.location → ∀ name ∈ inner, '\\' ∉ name.text

private theorem becomes_resolve (absolute : surroundings.root.anchor ≠ .here) {candidates : Text → List Path}
    {reference : Text}
    (plain : Plain surroundings.root candidates reference) (sign : Text) (complaint : Text → Text) :
    Becomes surroundings sign candidates complaint (sign ++ reference)
      (resolve surroundings sign candidates complaint reference).1
      (resolve surroundings sign candidates complaint reference).2 := by
  cases chosen : (candidates reference).find? surroundings.tree.present with
  | none =>
    simp only [resolve, chosen]
    refine .missing fun path member => ?_
    simpa using List.find?_eq_none.mp chosen path member
  | some target =>
    obtain ⟨base, absolute', rfl, names⟩ := plain target (List.mem_of_find?_eq_some chosen)
    cases found : surroundings.root.within? (base.lexical reference) with
    | none =>
      -- Below the root it would have had a text: without backslashes no name is written as a step up.
      simp only [resolve, chosen, found]
      refine .outside chosen fun ⟨inner, place⟩ => ?_
      rw [Path.within?_eq place.symm (names inner place.symm)] at found
      cases found
    | some relative =>
      simp only [resolve, chosen, found]
      obtain ⟨inner, place⟩ := Path.location_of_within? found
      rw [Path.within?_eq place.symm (names inner place.symm)] at found
      obtain rfl := Option.some.inj found
      exact .inside chosen (Path.leadsTo_keepSlash absolute absolute' place.symm reference)

private theorem becomes_rewriteParent (absolute : root.anchor ≠ .here) (absolute' : document.anchor ≠ .here)
    (plain : '\\' ∉ document.text) {reference : Text} (plain' : '\\' ∉ reference) :
    ParentBecomes ⟨tree, root, document⟩ reference (rewriteParent ⟨tree, root, document⟩ reference).1
      (rewriteParent ⟨tree, root, document⟩ reference).2 := by
  rw [rewriteParent_eq]
  refine becomes_resolve absolute (fun target member => ?_) [] _
  rw [List.mem_singleton.mp member]
  exact ⟨document.parent, absolute', rfl, fun inner place =>
    Path.not_mem_lexical plain' (.inr fun _ => Path.not_mem_parent plain) place⟩

private theorem becomes_rewriteAnchored (absolute : root.anchor ≠ .here) (absolute' : document.anchor ≠ .here)
    (plain : '\\' ∉ document.text) {reference : Text} (plain' : '\\' ∉ reference) :
    AnchoredBecomes ⟨tree, root, document⟩ ('@' :: reference) (rewriteAnchored ⟨tree, root, document⟩ ('@' :: reference)).1
      (rewriteAnchored ⟨tree, root, document⟩ ('@' :: reference)).2 := by
  rw [rewriteAnchored_eq]
  refine becomes_resolve absolute (fun target member => ?_) ['@'] _
  simp only [List.mem_cons, List.not_mem_nil, or_false] at member
  rcases member with rfl | rfl
  · exact ⟨root, absolute, rfl, fun inner place => Path.not_mem_lexical plain' (.inl rfl) place⟩
  · exact ⟨document.parent, absolute', rfl, fun inner place =>
      Path.not_mem_lexical plain' (.inr fun _ => Path.not_mem_parent plain) place⟩

/-! ## Both passes -/

theorem noBackslash_rewriteParent {reference : Text} (plain : '\\' ∉ reference) :
    '\\' ∉ (rewriteParent ⟨tree, root, document⟩ reference).1 := by
  rw [rewriteParent_text]
  cases tree.present (document.parent.lexical reference) with
  | false => exact plain
  | true =>
    rw [cond_true, textFor]
    cases found : root.within? (document.parent.lexical reference) with
    | none => exact plain
    | some relative => exact not_mem_keepSlash (Path.noBackslash_within? found) (by decide)

/-- The first pass brings no backslash into a text. -/
theorem noBackslash_rewriteParents {text : Text} (plain : '\\' ∉ text) :
    '\\' ∉ (Words.rewrite (rewriteWord beginsParent (rewriteParent ⟨tree, root, document⟩)) text).1 := by
  refine Words.not_mem_rewrite (fun word absent => ?_) plain
  rw [rewriteWord]
  cases cutting : cut? beginsParent word with
  | none => exact absent
  | some cut =>
    rw [(cutAfter?_spec cutting).1, List.mem_append, not_or] at absent
    exact List.not_mem_append absent.1 (noBackslash_rewriteParent absent.2)

/-- In a text without backslashes, of a document whose path has none, references are rewritten in two passes. Each
of them replaces tokens and nothing else, and every reference that is replaced leads to the same from the root as
it did before. -/
theorem rewrite_keeps_targets (absolute : root.anchor ≠ .here) (absolute' : document.anchor ≠ .here)
    (plain : '\\' ∉ document.text) {text : Text} (plain' : '\\' ∉ text) :
    ∃ middle told told',
      Rewrites IsParent (ParentBecomes ⟨tree, root, document⟩) none text middle told ∧
      Rewrites IsAnchored (AnchoredBecomes ⟨tree, root, document⟩) none middle
        (rewrite ⟨tree, root, document⟩ text).1 told' ∧
      (rewrite ⟨tree, root, document⟩ text).2 = told ++ told' := by
  refine ⟨_, _, _, finds_parent.rewrites (fun _ _ _ => becomes_rewriteParent absolute absolute' plain) plain',
    finds_anchored.rewrites (fun previous token begun absent => ?_) (noBackslash_rewriteParents plain'), rfl⟩
  obtain ⟨reference, rfl⟩ := List.head?_eq_some_iff.mp (head?_of_beginsAnchored previous token begun)
  exact becomes_rewriteAnchored absolute absolute' plain fun inside => absent (List.mem_cons_of_mem _ inside)

/-- A text that refers to a file, a directory, something outside the root and nothing, in this order, and to the file
once more. -/
def referringText : Text :=
  "See ../shared/note.md and ../shared/ and ../../../shared/ and ../none.md or @./../shared/note.md\n".toList

open Project in
theorem rewrite_keeps_targets_sample :
    (Path.ofLocation Neighboured.root).anchor ≠ .here ∧ (Path.ofLocation Neighboured.document).anchor ≠ .here ∧
      '\\' ∉ (Path.ofLocation Neighboured.document).text ∧ '\\' ∉ referringText ∧
      rewrite ⟨Neighboured.tree, .ofLocation Neighboured.root, .ofLocation Neighboured.document⟩ referringText =
        ("See commands/shared/note.md and commands/shared/ and ../../../shared/ and ../none.md or @commands/shared/note.md\n".toList,
          ["see.md: path resolves outside workspace root: ../../../shared/".toList]) ∧
      ∃ middle told told',
        Rewrites IsParent
          (ParentBecomes ⟨Neighboured.tree, .ofLocation Neighboured.root, .ofLocation Neighboured.document⟩)
          none referringText middle told ∧
        Rewrites IsAnchored
          (AnchoredBecomes ⟨Neighboured.tree, .ofLocation Neighboured.root, .ofLocation Neighboured.document⟩)
          none middle
          (rewrite ⟨Neighboured.tree, .ofLocation Neighboured.root, .ofLocation Neighboured.document⟩ referringText).1
          told' ∧
        (rewrite ⟨Neighboured.tree, .ofLocation Neighboured.root, .ofLocation Neighboured.document⟩ referringText).2 =
          told ++ told' :=
  have absolute : (Path.ofLocation Neighboured.root).anchor ≠ .here := by decide
  have absolute' : (Path.ofLocation Neighboured.document).anchor ≠ .here := by decide
  have plain : '\\' ∉ (Path.ofLocation Neighboured.document).text := by decide
  have plain' : '\\' ∉ referringText := by decide
  ⟨absolute, absolute', plain, plain', by decide +kernel, rewrite_keeps_targets absolute absolute' plain plain'⟩

end PromptCompiler.References
