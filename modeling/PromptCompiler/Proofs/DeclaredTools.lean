import PromptCompiler.Proofs.HeaderFields
import PromptCompiler.Proofs.LowerCase

/-! # Tools that a header declares

The names of declared tools are cut out of header lines, so that they stand on one line each, also in lower
case. Tools are declared exactly if the header has a field under one of the two keys; the names may
come from another line than the field if a key comes twice.
-/

namespace PromptCompiler.ToolDeclaration

/-- The characters of an item are characters of the line. -/
theorem mem_of_mem_inlineItems {c : Char} {text item : Text} (member : item ∈ inlineItems text) (inside : c ∈ item) :
    c ∈ text := by
  obtain ⟨piece, pieces, rfl⟩ := List.mem_map.mp (List.mem_filter.mp member).1
  have inItems := Text.mem_of_mem_splitOn pieces ((Text.trim_sublist piece).subset inside)
  -- Brackets are taken off the ends of the value.
  refine (Text.trim_sublist text).subset ?_
  split at inItems <;> split at inItems
  · exact (List.tail_sublist _).subset ((List.dropLast_sublist _).subset inItems)
  · exact (List.tail_sublist _).subset inItems
  · exact (List.dropLast_sublist _).subset inItems
  · exact inItems

private theorem mem_of_itemName? {line : Text × Nat} {name : Text} (item : itemName? line = some name) {c : Char}
    (inside : c ∈ name) :
    c ∈ line.1 := by
  rw [itemName?, classify] at item
  split at item
  · rename_i name' found
    cases item
    split at found
    · rename_i c' blanks rest indented
      split at found
      · cases found
      · rename_i gap first later more spaced
        cases found
        rw [List.span_eq_takeWhile_dropWhile] at indented spaced
        have dashed : ('-' :: rest).Sublist line.1 := (Prod.mk.inj indented).2 ▸ List.dropWhile_sublist _
        have named : (first :: later).Sublist rest := (Prod.mk.inj spaced).2 ▸ List.dropWhile_sublist _
        have trimmed := (Text.isPrefix_dropEndWhile Text.isBlank (first :: later)).subset inside
        exact dashed.subset (List.mem_cons_of_mem _ (named.subset trimmed))
      · cases found
      · cases found
    · cases found
  · cases item

theorem value?_isSome_iff {line : Text} :
    (value? line).isSome ↔ ∃ key ∈ keys, ∃ value, Header.field? line = some (key, value) := by
  rw [value?, Header.field?]
  cases keyed : Header.keyed? line with
  | none => simp
  | some found =>
    obtain ⟨key, rest⟩ := found
    by_cases declares : key ∈ keys <;> simp [declares]

private theorem sublist_of_value? {line value : Text} (found : value? line = some value) : value.Sublist line := by
  obtain ⟨⟨key, rest⟩, keyed, declares⟩ := Option.bind_eq_some_iff.mp found
  obtain ⟨-, same⟩ := Option.ite_none_right_eq_some.mp declares
  obtain rfl := Option.some.inj same
  exact Header.sublist_of_keyed? keyed

/-- Every character of a declared name is a character of some line. -/
theorem exists_mem_of_names {lines names : List Text} (declared : (ofLines lines).names = some names) {name : Text}
    (member : name ∈ names) {c : Char} (inside : c ∈ name) : ∃ line ∈ lines, c ∈ line := by
  rw [ofLines] at declared
  have inLines {line : Text × Nat} {later : List (Text × Nat)}
      (rest : ((lines.zipIdx 1).dropWhile fun line => (value? line.1).isNone) = line :: later) :
      ∀ other ∈ line :: later, other.1 ∈ lines := by
    intro other listed
    have zipped := (List.dropWhile_sublist _).subset (rest ▸ listed)
    exact (List.mem_zipIdx zipped).2.2 ▸ List.getElem_mem _
  split at declared
  · cases declared
  · rename_i line later rest
    have below := inLines rest
    simp only at declared
    split at declared
    · cases declared
      have inValue := (Text.trim_sublist _).subset (mem_of_mem_inlineItems member inside)
      refine ⟨line.1, below line List.mem_cons_self, ?_⟩
      cases found : value? line.1 with
      | none =>
        rw [found] at inValue
        cases inValue
      | some value =>
        rw [found] at inValue
        exact (sublist_of_value? found).subset inValue
    · cases declared
      obtain ⟨other, listed, item⟩ := List.mem_filterMap.mp member
      exact ⟨other.1, below other (List.mem_cons_of_mem line ((List.takeWhile_sublist _).subset listed)),
        mem_of_itemName? item inside⟩

/-- The first line with a declaring key decides, and after it the lines below it. -/
theorem ofLines_append {before : List Text} (undeclared : ∀ line ∈ before, value? line = none) {line value : Text}
    (declares : value? line = some value) (later : List Text) :
    ofLines (before ++ line :: later) =
      if Text.trim value ≠ [] then ⟨some (inlineItems (Text.trim value)), []⟩
      else
        let block := (later.zipIdx (before.length + 2)).takeWhile fun line => continues line.1
        ⟨some (block.filterMap itemName?), block.filterMap anomaly?⟩ := by
  have passed : ∀ other ∈ before.zipIdx 1, (value? other.1).isNone = true := by
    intro other member
    have listed : other.1 ∈ before := (List.mem_zipIdx member).2.2 ▸ List.getElem_mem _
    rw [undeclared _ listed]
    rfl
  rw [ofLines, List.zipIdx_append, List.dropWhile_append_of_pos passed, List.zipIdx_cons,
    List.dropWhile_cons_of_neg (by simp [declares])]
  simp only [declares, Option.getD_some]
  rw [Nat.add_comm 1, Nat.add_assoc]

theorem ofLines_isSome_iff {lines : List Text} :
    (ofLines lines).names.isSome ↔ ∃ line ∈ lines, (value? line).isSome := by
  have numbered : (lines.zipIdx 1).map Prod.fst = lines := List.zipIdx_map_fst 1 lines
  have undeclared : ((lines.zipIdx 1).dropWhile fun line => (value? line.1).isNone) = [] ↔
      ∀ line ∈ lines, (value? line).isNone := by
    rw [List.dropWhile_eq_nil_iff, ← numbered, List.forall_mem_map, numbered]
  rw [ofLines]
  split
  · rename_i absent
    simpa using undeclared.mp absent
  · rename_i line later rest
    have declared : ¬∀ line ∈ lines, (value? line).isNone := fun valueless => by simpa [rest] using undeclared.mpr valueless
    have found : ∃ line ∈ lines, (value? line).isSome := by simpa [Option.isSome_iff_ne_none] using declared
    refine iff_of_true ?_ found
    dsimp only
    split <;> rfl

/-- Tools are declared exactly if the header has a declaring key. -/
theorem names_isSome_iff {source : Text} :
    (ofText source).names.isSome ↔ ∃ key ∈ keys, key ∈ (Header.parts source).fields.keys := by
  rw [ofText, Header.parts]
  cases Header.split? source with
  | none =>
    refine iff_of_false Bool.false_ne_true ?_
    rintro ⟨key, -, member⟩
    cases member
  | some header =>
    obtain ⟨lines, rest⟩ := header
    simp only [OrderedMap.mem_keys_ofList, ofLines_isSome_iff, value?_isSome_iff, List.mem_map, List.mem_filterMap]
    constructor
    · rintro ⟨line, member, key, declares, value, field⟩
      exact ⟨key, declares, (key, value), ⟨line, member, field⟩, rfl⟩
    · rintro ⟨key, declares, ⟨_, value⟩, ⟨line, member, field⟩, rfl⟩
      exact ⟨line, member, _, declares, value, field⟩

end PromptCompiler.ToolDeclaration
