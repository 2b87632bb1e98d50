import PromptCompiler.Text.Basic

/-! # Maps that keep the order of insertion

A map from texts lists its entries in the order in which their keys first came; giving a key a new
value leaves it in its place. That no key occurs twice is part of the type. The laws of `get?` say
what each operation does to the view of a map as a function.
-/

namespace PromptCompiler

/-- Entries with distinct keys, in order of insertion. -/
structure OrderedMap (α : Type) where
  entries : List (Text × α)
  distinct : (entries.map Prod.fst).Nodup

namespace OrderedMap

variable {α : Type}

def empty : OrderedMap α := ⟨[], List.nodup_nil⟩

instance : Inhabited (OrderedMap α) := ⟨empty⟩

@[ext] theorem ext {first second : OrderedMap α} (same : first.entries = second.entries) :
    first = second := by
  cases first; cases second; cases same; rfl

instance [DecidableEq α] : DecidableEq (OrderedMap α) := fun first second =>
  if same : first.entries = second.entries then isTrue (ext same)
  else isFalse fun equal => same (equal ▸ rfl)

def keys (map : OrderedMap α) : List Text := map.entries.map Prod.fst

def get? (map : OrderedMap α) (key : Text) : Option α :=
  (map.entries.find? fun entry => entry.1 = key).map Prod.snd

def contains (map : OrderedMap α) (key : Text) : Bool := (map.get? key).isSome

/-- Entries with a key set to a value: in its place if it is there, else at the end. -/
def insertEntry (key : Text) (value : α) : List (Text × α) → List (Text × α)
  | [] => [(key, value)]
  | entry :: rest =>
    if entry.1 = key then (key, value) :: rest else entry :: insertEntry key value rest

theorem map_fst_insertEntry (key : Text) (value : α) (entries : List (Text × α)) :
    (insertEntry key value entries).map Prod.fst =
      if key ∈ entries.map Prod.fst then entries.map Prod.fst else entries.map Prod.fst ++ [key] := by
  induction entries with
  | nil => simp [insertEntry]
  | cons entry rest ih =>
    by_cases same : entry.1 = key
    · simp [insertEntry, same]
    · have other : ¬ key = entry.1 := fun equal => same equal.symm
      by_cases later : key ∈ rest.map Prod.fst <;> simp_all [insertEntry]

/-- The map with a key set to a value. -/
def insert (map : OrderedMap α) (key : Text) (value : α) : OrderedMap α where
  entries := insertEntry key value map.entries
  distinct := by
    rw [map_fst_insertEntry]
    split
    · exact map.distinct
    · rename_i absent
      simpa [List.nodup_append, map.distinct] using fun k value member equal =>
        absent (List.mem_map.mpr ⟨(k, value), member, equal⟩)

def ofList (entries : List (Text × α)) : OrderedMap α :=
  entries.foldl (fun map entry => map.insert entry.1 entry.2) empty

/-- The first map, with the keys of the second that it lacks appended. -/
def mergeMissing (map added : OrderedMap α) : OrderedMap α :=
  added.entries.foldl
    (fun merged entry => if merged.contains entry.1 then merged else merged.insert entry.1 entry.2) map

@[simp] theorem get?_empty (key : Text) : (empty : OrderedMap α).get? key = none := rfl

theorem get?_insert (map : OrderedMap α) (key other : Text) (value : α) :
    (map.insert key value).get? other = if other = key then some value else map.get? other := by
  simp only [get?, insert]
  induction map.entries with
  | nil => by_cases same : other = key <;> simp [insertEntry, same, eq_comm]
  | cons entry rest ih =>
    by_cases here : entry.1 = key
    · by_cases same : other = key
      · simp [insertEntry, here, same]
      · have apart : ¬ key = other := fun equal => same equal.symm
        simp [insertEntry, here, same, apart]
    · by_cases found : entry.1 = other
      · have apart : ¬ other = key := fun equal => here (found.trans equal)
        simp [insertEntry, found, apart]
      · simp [insertEntry, here, found, ih]

end OrderedMap

end PromptCompiler
