import PromptCompiler.Proofs.ReferenceEndings
import PromptCompiler.Proofs.ToolComments

/-! # Bodies line by line

No rewriting of a body looks across a line feed. An include stands on one line; the directory of a runtime
holds no line feed, and after a line feed it stands as it does at the beginning of a text; a line feed ends
every reference. So the lines before a line feed and those after it are rewritten as two texts
(`rewrites_by_line`). The warnings are those of the two texts, but their order differs: all references that
step out of the directory come before all that follow an at sign.
-/

namespace PromptCompiler

/-! ## Includes -/

theorem Includes.convert_append (before after : Text) :
    convert (before ++ '\n' :: after) = convert before ++ '\n' :: convert after := by
  have notEmpty (text : Text) : (Text.lines text).map convertLine ≠ [] :=
    List.map_eq_nil_iff.not.mpr (Text.lines_ne_nil text)
  rw [convert, Text.lines_append, List.map_append, Text.joinLines_append (notEmpty before) (notEmpty after)]
  rfl

/-! ## Runtime directories -/

namespace RuntimePaths

/-- The directory of a runtime holds no line feed. -/
theorem startsDirectory_append (before after : Text) :
    startsDirectory (before ++ '\n' :: after) = startsDirectory before := by
  simp only [startsDirectory, runtimes, List.any_cons, List.any_nil]
  rw [isPrefixOf_append_cons (by decide), isPrefixOf_append_cons (by decide), isPrefixOf_append_cons (by decide)]

private theorem fromHome_append_feed (before after : Text) :
    fromHome (before ++ '\n' :: after) = fromHome before ++ '\n' :: fromHome after := by
  induction before with
  | nil => rfl
  | cons c before ih => rw [List.cons_append, fromHome, startsDirectory_append, ih, fromHome, List.cons_append]

/-- After a character that does not glue, a text begins anew. -/
theorem fromRootAfter_of_not_glues {c : Char} (apart : glues c = false) (text : Text) :
    fromRootAfter (some c) text = fromRootAfter none text := by
  cases text with
  | nil => rfl
  | cons d text => simp [fromRootAfter, apart]

private theorem fromRootAfter_append_feed (previous : Option Char) (before after : Text) :
    fromRootAfter previous (before ++ '\n' :: after) = fromRootAfter previous before ++ '\n' :: fromRootAfter none after := by
  induction before generalizing previous with
  | nil =>
    have apart : glues '\n' = false := by decide +kernel
    have other : startsDirectory ('\n' :: after) = false := startsDirectory_cons (by decide) after
    simp [fromRootAfter, other, fromRootAfter_of_not_glues apart]
  | cons c before ih =>
    have starts := startsDirectory_append (c :: before) after
    rw [List.cons_append] at starts ⊢
    rw [fromRootAfter, starts, ih, fromRootAfter]
    split <;> rfl

theorem normalize_append (before after : Text) :
    normalize (before ++ '\n' :: after) = normalize before ++ '\n' :: normalize after := by
  rw [normalize, fromHome_append_feed, fromRootAfter_append_feed]
  rfl

end RuntimePaths

/-! ## References -/

namespace References

private theorem rewrite_append (surroundings : Surroundings) (before after : Text) :
    (rewrite surroundings (before ++ '\n' :: after)).1 =
        (rewrite surroundings before).1 ++ '\n' :: (rewrite surroundings after).1 ∧
      (rewrite surroundings (before ++ '\n' :: after)).2.Perm
        ((rewrite surroundings before).2 ++ (rewrite surroundings after).2) := by
  have separates : isReferenceCharacter '\n' = false := by decide
  simp only [rewrite, Words.rewrite_append_cons _ separates, List.append_assoc, true_and]
  exact List.Perm.append_left _ (List.perm_append_comm_assoc ..)

end References

/-- The lines before a line feed and those after it are rewritten as two texts, with the warnings of both. -/
theorem rewrites_by_line (surroundings : Surroundings) (before after : Text) :
    Includes.convert (before ++ '\n' :: after) = Includes.convert before ++ '\n' :: Includes.convert after ∧
    RuntimePaths.normalize (before ++ '\n' :: after) =
      RuntimePaths.normalize before ++ '\n' :: RuntimePaths.normalize after ∧
    (References.rewrite surroundings (before ++ '\n' :: after)).1 =
      (References.rewrite surroundings before).1 ++ '\n' :: (References.rewrite surroundings after).1 ∧
    (References.rewrite surroundings (before ++ '\n' :: after)).2.Perm
      ((References.rewrite surroundings before).2 ++ (References.rewrite surroundings after).2) :=
  ⟨Includes.convert_append before after, RuntimePaths.normalize_append before after,
    References.rewrite_append surroundings before after⟩

end PromptCompiler
