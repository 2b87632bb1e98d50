import PromptCompiler.Proofs.Json
import PromptCompiler.Proofs.OrderedMaps
import PromptCompiler.Run.Storage
import PromptCompiler.ToolTable.Mapping

/-! # Tool tables with stubs

A table is read back from its file as it was written. Entering the stubs of a run into the table
changes no mapping: a stub is found only for names that the table does not know, and both an unknown
name and one without a counterpart are omitted. In the grown table no name of the run is unknown.
-/

namespace PromptCompiler.ToolTable

/-! ## The file of a table -/

/-- The entries of a table as they are read. -/
def stringEntries (entries : List (Text × Text)) : List (Text × Json) :=
  entries.map fun entry => (entry.1, .string (some entry.2))

private theorem keyed_members (entries : List (Text × Text)) :
    keyed (Json.members entries) = stringEntries entries := by
  rw [keyed, Json.members, List.filterMap_map]
  exact congrFun List.filterMap_eq_map entries

private theorem filterMap_stringEntries (entries : List (Text × Text)) :
    (stringEntries entries).filterMap (fun entry => entry.2.text?.map (entry.1, ·)) = entries := by
  rw [stringEntries, List.filterMap_map]
  exact List.filterMap_some

private theorem ofJson_members (table : ToolTable) : ofJson (.object (Json.members table.entries)) = .ok table := by
  have distinct : ((stringEntries table.entries).map Prod.fst).Nodup := by
    rw [stringEntries, List.map_map]
    exact table.distinct
  have allStrings : firstNotText? (stringEntries table.entries) = none := by
    simp [firstNotText?, stringEntries, Json.isString]
  have whole : ((Json.members table.entries).all (·.1.isSome) &&
      (stringEntries table.entries).all (·.2.text?.isSome)) = true := by
    simp [Json.members, stringEntries, Json.text?]
  simp only [ofJson, keyed_members, OrderedMap.ofList_entries distinct, allStrings, whole, if_true,
    filterMap_stringEntries, OrderedMap.ofList_self]

/-- A table survives being written to a file. -/
theorem ofBytes_fileText (table : ToolTable) : ofBytes (Text.utf8 table.fileText) = .ok table := by
  have decoded : Text.ofUtf8? (Text.utf8 table.fileText) = some table.fileText :=
    (Text.ofUtf8?_eq_some_iff _ _).mpr rfl
  have value : Json.read fileCalls table.fileText = .ok (.object (Json.members table.entries)) :=
    Json.read_ofEntries (by decide) table.entries
  simp only [ofBytes, decoded, value, ofJson_members]

/-! ## Stubs -/

/-- What a run enters into the table: names that the table does not know, without a counterpart. -/
structure AreStubs (table stubs : ToolTable) : Prop where
  unknown : ∀ name ∈ stubs.keys, table.fate name = .unknown
  /-- Every value says that there is no counterpart. -/
  declined : ∀ entry ∈ stubs.entries, entry.2 = unmapped

/-- Names are alike if they are equal in lower case. -/
def alike (first second : Text) : Bool := decide (Text.lower first = Text.lower second)

/-- A name is found exactly if there is an entry for a name that is alike. -/
theorem lookup?_eq_none_iff {table : ToolTable} {name : Text} :
    table.lookup? name = none ↔ ∀ key ∈ table.keys, alike key name = false := by
  have insensitive : (table.entries.find? fun entry => Text.lower entry.1 = Text.lower name) = none ↔
      ∀ key ∈ table.keys, alike key name = false := by
    simp [OrderedMap.keys, alike]
  rw [← insensitive, lookup?]
  cases exact : table.get? name with
  | none => rfl
  | some value =>
    have present : name ∈ table.keys := OrderedMap.mem_keys_of_get? exact
    rw [insensitive]
    refine iff_of_false (by simp) fun apart => ?_
    simpa [alike] using apart name present

theorem fate_eq_unknown_iff {table : ToolTable} {name : Text} :
    table.fate name = .unknown ↔ isPassedOn name = false ∧ table.lookup? name = none := by
  unfold fate
  cases isPassedOn name with
  | true => simp
  | false =>
    cases table.lookup? name with
    | none => simp
    | some entry => by_cases declined : entry.2 = unmapped <;> simp [declined]

namespace AreStubs

variable {table stubs : ToolTable}

theorem lookup?_of_mem (new : AreStubs table stubs) {name : Text} (member : name ∈ stubs.keys) :
    table.lookup? name = none :=
  (fate_eq_unknown_iff.mp (new.unknown name member)).2

theorem entries_withStubs (new : AreStubs table stubs) :
    (table.withStubs stubs).entries = table.entries ++ stubs.entries := by
  refine OrderedMap.mergeMissing_entries fun name member present => ?_
  have apart := lookup?_eq_none_iff.mp (new.lookup?_of_mem member) name present
  simp [alike] at apart

/-- A name is looked up among the stubs only if the table does not know it. -/
theorem lookup?_withStubs (new : AreStubs table stubs) (name : Text) :
    (table.withStubs stubs).lookup? name = (table.lookup? name).or (stubs.lookup? name) := by
  have found : (table.withStubs stubs).get? name = (table.get? name).or (stubs.get? name) := by
    simp only [OrderedMap.get?, new.entries_withStubs, List.find?_append, Option.map_or]
  cases known : table.get? name with
  | some value => simp [lookup?, found, known]
  | none =>
    cases stubbed : stubs.get? name with
    | some value =>
      have member : name ∈ stubs.keys := OrderedMap.mem_keys_of_get? stubbed
      rw [new.lookup?_of_mem member, Option.none_or]
      simp [lookup?, found, known, stubbed]
    | none => simp [lookup?, found, known, stubbed, new.entries_withStubs, List.find?_append]

/-- A name found among stubs has the value that says that there is no counterpart. -/
theorem value_of_lookup? (new : AreStubs table stubs) {name : Text} {entry : Text × Text}
    (found : stubs.lookup? name = some entry) : entry.2 = unmapped := by
  unfold lookup? at found
  split at found
  · rename_i value exact
    obtain ⟨entry, first, rfl⟩ := Option.map_eq_some_iff.mp exact
    cases found
    exact new.declined entry (List.mem_of_find?_eq_some first)
  · exact new.declined entry (List.mem_of_find?_eq_some found)

/-- With the stubs in it, a table declines the stubbed names and treats every other name as before. -/
theorem fate_withStubs (new : AreStubs table stubs) (name : Text) :
    (table.withStubs stubs).fate name =
      if table.fate name = .unknown ∧ stubs.lookup? name ≠ none then .declined else table.fate name := by
  simp only [fate_eq_unknown_iff]
  rw [fate, fate, new.lookup?_withStubs]
  cases isPassedOn name with
  | true => simp
  | false =>
    cases table.lookup? name with
    | some entry => simp
    | none =>
      cases stubbed : stubs.lookup? name with
      | none => simp
      | some entry => simp [new.value_of_lookup? stubbed]

private theorem target?_withStubs (new : AreStubs table stubs) (name : Text) :
    (table.withStubs stubs).target? name = table.target? name := by
  rw [target?, target?, new.fate_withStubs]
  by_cases stubbed : table.fate name = .unknown ∧ stubs.lookup? name ≠ none
  · rw [if_pos stubbed, stubbed.1]
  · rw [if_neg stubbed]

/-- The stubs change neither the mapped nor the omitted tools of any list. -/
theorem mapTools_withStubs (new : AreStubs table stubs) (label : Text) (names : List Text) :
    ((table.withStubs stubs).mapTools label names).tools = (table.mapTools label names).tools ∧
      ((table.withStubs stubs).mapTools label names).omitted = (table.mapTools label names).omitted := by
  have omits : (table.withStubs stubs).omits = table.omits := by
    funext name
    rw [ToolTable.omits, ToolTable.omits, new.target?_withStubs]
  have targets : (table.withStubs stubs).target? = table.target? := funext new.target?_withStubs
  simp only [mapTools, omits, targets, and_self]

end AreStubs

/-! ## Collecting stubs -/

theorem areStubs_empty (table : ToolTable) : AreStubs table .empty where
  unknown := fun _ member => nomatch member
  declined := fun _ member => nomatch member

/-- A stub is appended if the name is unknown and no stub is alike. -/
theorem stub_entries (table stubs : ToolTable) (name : Text) :
    (table.stub stubs name).entries =
      if table.fate name = .unknown ∧ stubs.lookup? name = none then stubs.entries ++ [(name, unmapped)]
      else stubs.entries := by
  unfold stub
  split
  · rename_i new
    refine OrderedMap.insert_entries_of_not_mem (fun present => ?_) unmapped
    have apart := lookup?_eq_none_iff.mp new.2 name present
    simp [alike] at apart
  · rfl

theorem lookup?_stub_eq_none_iff {table stubs : ToolTable} {name other : Text} :
    (table.stub stubs name).lookup? other = none ↔
      stubs.lookup? other = none ∧
        (table.fate name = .unknown → stubs.lookup? name = none → alike name other = false) := by
  simp only [@lookup?_eq_none_iff _ other, OrderedMap.keys, stub_entries]
  by_cases new : table.fate name = .unknown ∧ stubs.lookup? name = none
  · simp [new, or_imp, forall_and]
  · simp only [new, if_false, iff_self_and]
    exact fun _ unknown fresh => absurd ⟨unknown, fresh⟩ new

private theorem alike_comm (first second : Text) : alike first second = alike second first := by
  simp only [alike, eq_comm]

/-- The stubs after a list of tools: the names of the unknown tools are appended in the order in which
they are first seen, one of all that are alike. -/
theorem stubAll_entries (table stubs : ToolTable) (names : List Text) :
    (table.stubAll stubs names).entries = stubs.entries ++
      ((names.filter fun name => table.fate name = .unknown ∧ stubs.lookup? name = none).eraseDupsBy
        alike).map (·, unmapped) := by
  induction names generalizing stubs with
  | nil => simp [stubAll]
  | cons name rest ih =>
    have step : table.stubAll stubs (name :: rest) = table.stubAll (table.stub stubs name) rest := rfl
    rw [step, ih, stub_entries]
    by_cases new : table.fate name = .unknown ∧ stubs.lookup? name = none
    · have later : (rest.filter fun other =>
            table.fate other = .unknown ∧ (table.stub stubs name).lookup? other = none) =
          (rest.filter fun other => table.fate other = .unknown ∧ stubs.lookup? other = none).filter
            fun other => alike other name = false := by
        rw [List.filter_filter]
        refine List.filter_congr fun other _ => ?_
        simp [lookup?_stub_eq_none_iff, new, alike_comm name other, and_comm, and_left_comm]
      rw [later, List.filter_cons_of_pos (by simpa using new), List.eraseDupsBy_cons]
      simp [new]
    · have later : (rest.filter fun other =>
            table.fate other = .unknown ∧ (table.stub stubs name).lookup? other = none) =
          rest.filter fun other => table.fate other = .unknown ∧ stubs.lookup? other = none := by
        simp [stub, new]
      rw [later, List.filter_cons_of_neg (by simpa using new)]
      simp [new]

theorem AreStubs.stub {table stubs : ToolTable} (new : AreStubs table stubs) (name : Text) :
    AreStubs table (table.stub stubs name) := by
  by_cases fresh : table.fate name = .unknown ∧ stubs.lookup? name = none
  · constructor
    · intro other member
      simp only [OrderedMap.keys, stub_entries, fresh, and_self, if_true, List.map_append,
        List.map_cons, List.map_nil, List.mem_append, List.mem_singleton] at member
      rcases member with old | rfl
      · exact new.unknown other old
      · exact fresh.1
    · intro entry member
      simp only [stub_entries, fresh, and_self, if_true, List.mem_append, List.mem_singleton] at member
      rcases member with old | rfl
      · exact new.declined entry old
      · rfl
  · rwa [ToolTable.stub, if_neg fresh]

theorem AreStubs.stubAll {table stubs : ToolTable} (new : AreStubs table stubs) (names : List Text) :
    AreStubs table (table.stubAll stubs names) := by
  induction names generalizing stubs with
  | nil => exact new
  | cons name rest ih => exact ih (new.stub name)

/-- After a list of tools every unknown one is among the stubs. -/
theorem lookup?_stubAll {table stubs : ToolTable} {names : List Text} {name : Text}
    (unknown : table.fate name = .unknown) (member : name ∈ names ∨ stubs.lookup? name ≠ none) :
    (table.stubAll stubs names).lookup? name ≠ none := by
  induction names generalizing stubs with
  | nil => exact member.resolve_left List.not_mem_nil
  | cons first rest ih =>
    refine ih ?_
    rw [Ne, lookup?_stub_eq_none_iff]
    rcases member with now | found
    · rcases List.mem_cons.mp now with rfl | later
      · right
        rintro ⟨fresh, apart⟩
        simpa [alike] using apart unknown fresh
      · exact .inl later
    · exact .inr fun absent => found absent.1

/-- With the stubs of a list of tools in it, a table knows every tool of the list. -/
theorem fate_withStubs_ne_unknown {table : ToolTable} {names : List Text} {name : Text} (member : name ∈ names) :
    (table.withStubs (table.stubAll .empty names)).fate name ≠ .unknown := by
  rw [((areStubs_empty table).stubAll names).fate_withStubs]
  split
  · simp
  · rename_i notStubbed
    exact fun unknown => notStubbed ⟨unknown, lookup?_stubAll unknown (.inl member)⟩

/-- A table that knows every tool of a list leaves the stubs as they are. -/
theorem stubAll_of_known {table : ToolTable} (stubs : ToolTable) {names : List Text}
    (known : ∀ name ∈ names, table.fate name ≠ .unknown) : table.stubAll stubs names = stubs := by
  induction names with
  | nil => rfl
  | cons name rest ih =>
    have same : table.stub stubs name = stubs := if_neg fun new => known name List.mem_cons_self new.1
    have step : table.stubAll stubs (name :: rest) = table.stubAll (table.stub stubs name) rest := rfl
    rw [step, same, ih fun other member => known other (List.mem_cons_of_mem name member)]

end PromptCompiler.ToolTable
