import PromptCompiler.Proofs.ToolTables

/-! # Tables that grow by the stubs of a run

A run collects one stub for all unknown tools that are alike and enters the stubs after the entries of
the table. The grown table maps every list of tools as before, and the lists that left the stubs leave
none when they are mapped with it: a second run has nothing to enter.
-/

namespace PromptCompiler.ToolTable

variable {table stubs : ToolTable}

/-- Whether no two names of a table are alike. -/
def Distinct (table : ToolTable) : Prop := table.keys.Pairwise fun first second => alike first second = false

/-- A stub is entered only if no stub is alike, so that none become alike. -/
theorem Distinct.stub (distinct : Distinct stubs) (name : Text) : Distinct (table.stub stubs name) := by
  rw [Distinct, OrderedMap.keys, stub_entries]
  split
  · rename_i fresh
    rw [List.map_append, List.pairwise_append]
    refine ⟨distinct, List.pairwise_singleton _ _, fun key old other new => ?_⟩
    obtain rfl := List.mem_singleton.mp new
    exact lookup?_eq_none_iff.mp fresh.2 key old
  · exact distinct

private theorem distinct_empty : Distinct .empty := List.Pairwise.nil

theorem Distinct.stubAll (distinct : Distinct stubs) (names : List Text) :
    Distinct (table.stubAll stubs names) := by
  induction names generalizing stubs with
  | nil => exact distinct
  | cons name rest ih => exact ih (distinct.stub name)

/-- Mapping lists one after the other leaves the stubs of one long list. -/
theorem foldl_stubAll (table stubs : ToolTable) (calls : List (List Text)) :
    calls.foldl table.stubAll stubs = table.stubAll stubs calls.flatten := by
  rw [ToolTable.stubAll, List.foldl_flatten]
  rfl

/-- What a table is that has grown from another by some entries without a counterpart. -/
structure GrownBy (table grown : ToolTable) (added : List (Text × Text)) : Prop where
  /-- The entries of the old table come first, unchanged and in their order. -/
  entries : grown.entries = table.entries ++ added
  /-- Every added entry says that there is no counterpart. -/
  declined : ∀ entry ∈ added, entry.2 = unmapped
  /-- No added name is equal in lower case to a name of the old table. -/
  new : ∀ entry ∈ added, ∀ key ∈ table.keys, Text.lower entry.1 ≠ Text.lower key
  /-- No two added names are equal in lower case. -/
  distinct : added.Pairwise fun first second => Text.lower first.1 ≠ Text.lower second.1

private theorem AreStubs.grownBy (new : AreStubs table stubs) (distinct : Distinct stubs) :
    GrownBy table (table.withStubs stubs) stubs.entries where
  entries := new.entries_withStubs
  declined := new.declined
  new := by
    intro entry member key present same
    have apart := lookup?_eq_none_iff.mp (new.lookup?_of_mem (List.mem_map_of_mem member)) key present
    rw [alike, decide_eq_false_iff_not] at apart
    exact apart same.symm
  distinct := by
    refine (List.pairwise_map.mp distinct).imp fun apart => ?_
    rwa [alike, decide_eq_false_iff_not] at apart

/-- However many lists of tools are mapped with a table, entering the stubs that they leave changes no
mapping, the lists leave no stubs when they are mapped again, and the stubs are new entries at the end of
the table. -/
theorem withStubs_changes_no_mapping (table : ToolTable) (calls : List (List Text)) :
    let stubs := calls.foldl table.stubAll .empty
    let grown := table.withStubs stubs
    (∀ label names, (grown.mapTools label names).tools = (table.mapTools label names).tools ∧
      (grown.mapTools label names).omitted = (table.mapTools label names).omitted) ∧
      calls.foldl grown.stubAll .empty = .empty ∧ GrownBy table grown stubs.entries := by
  intro stubs grown
  have collected : stubs = table.stubAll .empty calls.flatten := foldl_stubAll table .empty calls
  have new : AreStubs table stubs := collected ▸ (areStubs_empty table).stubAll _
  have distinct : Distinct stubs := collected ▸ distinct_empty.stubAll _
  refine ⟨new.mapTools_withStubs, ?_, new.grownBy distinct⟩
  rw [foldl_stubAll]
  refine stubAll_of_known .empty fun name member => ?_
  have known : (table.withStubs (table.stubAll .empty calls.flatten)).fate name ≠ .unknown :=
    fate_withStubs_ne_unknown member
  rwa [← collected] at known

end PromptCompiler.ToolTable
