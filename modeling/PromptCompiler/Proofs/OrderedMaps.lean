import Mathlib.Data.List.Induction
import PromptCompiler.OrderedMap

/-! # Maps that grow at the end

A key that a map does not have is appended to it. So entries with distinct keys are inserted as they
stand, and merging in keys that a map lacks puts them after its own, in their order. Of any entries the
map has the keys in the order of their first occurrence, and for each the value of its last entry.
-/

namespace PromptCompiler

/-- One more text is kept if it is new. -/
theorem Text.distinct_concat (texts : List Text) (text : Text) :
    distinct (texts ++ [text]) = if text ∈ texts then distinct texts else distinct texts ++ [text] := by
  rw [distinct, distinct, List.eraseDups_append, List.removeAll]
  split
  · rename_i there
    rw [List.filter_cons_of_neg (by simpa using there)]
    simp
  · rename_i fresh
    rw [List.filter_cons_of_pos (by simpa using fresh)]
    rfl

namespace OrderedMap

variable {α : Type}

private theorem insertEntry_of_not_mem {key : Text} {entries : List (Text × α)}
    (absent : key ∉ entries.map Prod.fst) (value : α) :
    insertEntry key value entries = entries ++ [(key, value)] := by
  induction entries with
  | nil => rfl
  | cons entry rest ih =>
    obtain ⟨other, later⟩ : key ≠ entry.1 ∧ key ∉ rest.map Prod.fst := by
      simpa only [List.map_cons, List.mem_cons, not_or] using absent
    rw [insertEntry, if_neg (Ne.symm other), ih later, List.cons_append]

theorem insert_entries_of_not_mem {map : OrderedMap α} {key : Text} (absent : key ∉ map.keys)
    (value : α) : (map.insert key value).entries = map.entries ++ [(key, value)] :=
  insertEntry_of_not_mem absent value

theorem get?_eq_none_iff {map : OrderedMap α} {key : Text} : map.get? key = none ↔ key ∉ map.keys := by
  simp only [get?, keys, Option.map_eq_none_iff, List.find?_eq_none, decide_eq_true_eq, List.mem_map]
  exact ⟨fun apart member => member.elim fun entry found => apart entry found.1 found.2,
    fun absent entry member same => absent ⟨entry, member, same⟩⟩

/-- What a key has is an entry of the map. -/
theorem mem_of_get? {map : OrderedMap α} {key : Text} {value : α} (found : map.get? key = some value) :
    (key, value) ∈ map.entries := by
  obtain ⟨entry, first, rfl⟩ := Option.map_eq_some_iff.mp found
  have same : entry.1 = key := by simpa using List.find?_some first
  exact same ▸ List.mem_of_find?_eq_some first

theorem mem_keys_of_get? {map : OrderedMap α} {key : Text} {value : α} (found : map.get? key = some value) :
    key ∈ map.keys := List.mem_map_of_mem (mem_of_get? found)

/-- An entry of a map is what its key has. -/
theorem get?_of_mem {map : OrderedMap α} {key : Text} {value : α} (member : (key, value) ∈ map.entries) :
    map.get? key = some value := by
  have distinct := map.distinct
  rw [get?]
  generalize map.entries = entries at member distinct ⊢
  induction entries with
  | nil => cases member
  | cons entry rest ih =>
    rw [List.map_cons, List.nodup_cons] at distinct
    rcases List.mem_cons.mp member with rfl | later
    · simp
    · have apart : entry.1 ≠ key := fun same => distinct.1 (same ▸ List.mem_map_of_mem later)
      rw [List.find?_cons_of_neg (by simpa using apart)]
      exact ih later distinct.2

/-- A step that appends an entry with a new key appends all entries whose keys are distinct and new. -/
theorem foldl_entries (step : OrderedMap α → Text × α → OrderedMap α)
    (appends : ∀ map entry, entry.1 ∉ map.keys → (step map entry).entries = map.entries ++ [entry])
    {entries : List (Text × α)} {map : OrderedMap α} (distinct : (entries.map Prod.fst).Nodup)
    (fresh : ∀ entry ∈ entries, entry.1 ∉ map.keys) :
    (entries.foldl step map).entries = map.entries ++ entries := by
  induction entries generalizing map with
  | nil => simp only [List.foldl_nil, List.append_nil]
  | cons entry rest ih =>
    obtain ⟨apart, distinct⟩ := List.nodup_cons.mp distinct
    have appended := appends map entry (fresh entry List.mem_cons_self)
    have later : ∀ other ∈ rest, other.1 ∉ (step map entry).keys := by
      intro other member found
      simp only [keys, appended, List.map_append, List.mem_append, List.map_cons, List.map_nil,
        List.mem_singleton] at found
      rcases found with old | same
      · exact fresh other (List.mem_cons_of_mem entry member) old
      · exact apart (same ▸ List.mem_map_of_mem member)
    rw [List.foldl_cons, ih distinct later, appended, List.append_assoc, List.singleton_append]

/-- The map that entries with distinct keys give has these entries. -/
theorem ofList_entries {entries : List (Text × α)} (distinct : (entries.map Prod.fst).Nodup) :
    (ofList entries).entries = entries := by
  have fresh : ∀ entry ∈ entries, entry.1 ∉ (empty : OrderedMap α).keys := fun _ _ => List.not_mem_nil
  exact foldl_entries _ (fun _ entry absent => insert_entries_of_not_mem absent entry.2) distinct fresh

@[simp] theorem ofList_self (map : OrderedMap α) : ofList map.entries = map :=
  ext (ofList_entries map.distinct)

/-- Keys that a map lacks are merged in after its own. -/
theorem mergeMissing_entries {map added : OrderedMap α} (fresh : ∀ key ∈ added.keys, key ∉ map.keys) :
    (map.mergeMissing added).entries = map.entries ++ added.entries := by
  refine foldl_entries _ ?_ added.distinct fun entry member => fresh _ (List.mem_map_of_mem member)
  intro merged entry absent
  rw [contains, get?_eq_none_iff.mpr absent, Option.isSome_none, if_neg Bool.false_ne_true]
  exact insert_entries_of_not_mem absent entry.2

/-! ## Maps from entries -/

theorem ofList_concat (entries : List (Text × α)) (key : Text) (value : α) :
    ofList (entries ++ [(key, value)]) = (ofList entries).insert key value := by
  rw [ofList, List.foldl_append]
  rfl

/-- The keys come in the order of their first occurrence. -/
theorem keys_ofList (entries : List (Text × α)) : (ofList entries).keys = Text.distinct (entries.map Prod.fst) := by
  induction entries using List.reverseRecOn with
  | nil => rfl
  | append_singleton before entry ih =>
    have inserted : (ofList (before ++ [entry])).keys =
        if entry.1 ∈ (ofList before).keys then (ofList before).keys else (ofList before).keys ++ [entry.1] := by
      rw [ofList_concat, keys, insert, map_fst_insertEntry]
      rfl
    have known : entry.1 ∈ Text.distinct (before.map Prod.fst) ↔ entry.1 ∈ before.map Prod.fst := List.mem_eraseDups
    rw [inserted, ih, List.map_append, List.map_singleton, Text.distinct_concat]
    exact if_congr known rfl rfl

/-- The keys of a map are those of the entries that were inserted. -/
theorem mem_keys_ofList {entries : List (Text × α)} {key : Text} :
    key ∈ (ofList entries).keys ↔ key ∈ entries.map Prod.fst := by
  rw [keys_ofList]
  exact List.mem_eraseDups

/-- What a key has is decided by the entries with this key. -/
theorem get?_ofList_filter (entries : List (Text × α)) (key : Text) :
    (ofList (entries.filter fun entry => entry.1 = key)).get? key = (ofList entries).get? key := by
  induction entries using List.reverseRecOn with
  | nil => rfl
  | append_singleton before entry ih =>
    rw [ofList_concat, get?_insert, List.filter_append]
    by_cases same : key = entry.1
    · rw [List.filter_cons_of_pos (by simpa using same.symm), List.filter_nil, ofList_concat, get?_insert, if_pos same,
        if_pos same]
    · rw [List.filter_cons_of_neg (by simpa using Ne.symm same), List.filter_nil, List.append_nil, ih, if_neg same]

/-- A key has the value of its last entry. -/
theorem get?_ofList_eq_some_iff {entries : List (Text × α)} {key : Text} {value : α} :
    (ofList entries).get? key = some value ↔
      ∃ before after, entries = before ++ (key, value) :: after ∧ ∀ entry ∈ after, entry.1 ≠ key := by
  induction entries using List.reverseRecOn with
  | nil => simp [ofList]
  | append_singleton front entry ih =>
    rw [ofList_concat, get?_insert]
    split
    · rename_i same
      constructor
      · rintro ⟨⟩
        exact ⟨front, [], by rw [same], by simp⟩
      · rintro ⟨before, after, whole, last⟩
        rcases List.eq_nil_or_concat after with rfl | ⟨after, final, rfl⟩
        · obtain ⟨-, whole⟩ := List.append_inj' whole rfl
          cases whole
          rfl
        · rw [List.concat_eq_append, ← List.cons_append, ← List.append_assoc] at whole
          obtain ⟨-, whole⟩ := List.append_inj' whole rfl
          cases whole
          exact absurd same.symm (last entry (by simp))
    · rename_i other
      rw [ih]
      constructor
      · rintro ⟨before, after, rfl, last⟩
        refine ⟨before, after ++ [entry], by simp, ?_⟩
        simp only [List.forall_mem_append, List.forall_mem_singleton]
        exact ⟨last, Ne.symm other⟩
      · rintro ⟨before, after, whole, last⟩
        rcases List.eq_nil_or_concat after with rfl | ⟨after, final, rfl⟩
        · obtain ⟨-, whole⟩ := List.append_inj' whole rfl
          cases whole
          exact absurd rfl other
        · rw [List.concat_eq_append, ← List.cons_append, ← List.append_assoc] at whole
          obtain ⟨rfl, whole⟩ := List.append_inj' whole rfl
          exact ⟨before, after, rfl, fun other member => last other (by simp [member])⟩

/-- What a key has is one of the entries that were inserted. -/
theorem mem_of_get?_ofList {entries : List (Text × α)} {key : Text} {value : α}
    (found : (ofList entries).get? key = some value) : (key, value) ∈ entries := by
  obtain ⟨before, after, rfl, -⟩ := get?_ofList_eq_some_iff.mp found
  exact List.mem_append_right _ List.mem_cons_self

end OrderedMap

end PromptCompiler
