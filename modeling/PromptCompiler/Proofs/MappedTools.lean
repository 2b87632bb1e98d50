import Mathlib.Data.List.Forall2
import PromptCompiler.Proofs.ExitCodes
import PromptCompiler.Proofs.ToolFields

/-! # Mapping name by name

A list of tools is mapped in one pass over its names. Every name takes one of four ways: it is passed on, has a
value in the table, is declined by the table, or is unknown, and an unknown name may leave a stub. The pass
keeps each target and each omitted name once; what it has collected after some names is what the mapping of these
names says (`covers_run`), whatever stubs it began with. The mapping is the only one that meets its
specification (`maps_iff`), which asks for each name whether it occurs, not where or how often, except that
omitted names and their warnings come in the order of first occurrence.
-/

namespace PromptCompiler

/-! ## First occurrences and increasing texts -/

namespace Text

theorem mem_distinct {texts : List Text} {text : Text} : text ∈ distinct texts ↔ text ∈ texts := List.mem_eraseDups

/-- The distinct texts among those that are kept come in the order in which they first occur. -/
theorem pairwise_distinct_filter (keeps : Text → Bool) (texts : List Text) :
    (distinct (texts.filter keeps)).Pairwise fun first second => texts.idxOf first < texts.idxOf second := by
  induction texts using List.reverseRecOn with
  | nil => exact List.Pairwise.nil
  | append_singleton texts text ih =>
    have old {other : Text} (member : other ∈ distinct (texts.filter keeps)) : other ∈ texts :=
      List.mem_of_mem_filter (mem_distinct.mp member)
    have before : (distinct (texts.filter keeps)).Pairwise fun first second =>
        (texts ++ [text]).idxOf first < (texts ++ [text]).idxOf second := by
      refine ih.imp_of_mem fun first second below => ?_
      rwa [List.idxOf_append_of_mem (old first), List.idxOf_append_of_mem (old second)]
    rw [List.filter_append, List.filter_singleton]
    cases kept : keeps text with
    | false => rwa [cond_false, List.append_nil]
    | true =>
      rw [cond_true, distinct_concat]
      split
      · exact before
      · rename_i fresh
        refine List.pairwise_append.mpr ⟨before, List.pairwise_singleton _ _, fun other member last same => ?_⟩
        obtain rfl := List.mem_singleton.mp same
        have absent : last ∉ texts := fun there => fresh (List.mem_filter.mpr ⟨there, kept⟩)
        rw [List.idxOf_append_of_mem (old member), List.idxOf_append_of_notMem absent]
        exact Nat.lt_add_right _ (List.idxOf_lt_length_of_mem (old member))

theorem mem_sortedDistinct {texts : List Text} {text : Text} : text ∈ sortedDistinct texts ↔ text ∈ texts := by
  rw [sortedDistinct, sorted, List.mem_mergeSort, mem_distinct]

theorem pairwise_sortedDistinct (texts : List Text) : (sortedDistinct texts).Pairwise (· < ·) := by
  have apart : (sortedDistinct texts).Nodup := (sorted_perm _).nodup_iff.mpr (nodup_eraseDups _)
  refine (pairwise_sorted (distinct texts)).imp₂ (fun first second below other => ?_) apart
  exact (List.le_iff_lt_or_eq.mp (le_iff.mp below)).resolve_right other

/-- Lists that a strict order arranges are equal if they have the same members. -/
theorem eq_of_pairwise {below : Text → Text → Prop} (asymm : ∀ first second, below first second → ¬ below second first)
    {texts others : List Text} (arranged : texts.Pairwise below) (arranged' : others.Pairwise below)
    (same : ∀ text, text ∈ texts ↔ text ∈ others) : texts = others := by
  have nodup {texts : List Text} (arranged : texts.Pairwise below) : texts.Nodup :=
    arranged.imp fun one => fun same => asymm _ _ one (same ▸ one)
  exact List.Perm.eq_of_pairwise (fun first second _ _ one other => absurd other (asymm first second one)) arranged arranged'
    ((List.perm_ext_iff_of_nodup (nodup arranged) (nodup arranged')).mpr same)

end Text

namespace ToolTable

variable {table : ToolTable} {label name : Text} {names : List Text} {pending : Option ToolTable}

private theorem stubAll_concat (table stubs : ToolTable) (names : List Text) (name : Text) :
    table.stubAll stubs (names ++ [name]) = table.stub (table.stubAll stubs names) name := List.foldl_concat ..

/-- A tool that is not unknown leaves no stub. -/
theorem stub_of_known (known : table.fate name ≠ .unknown) : (table.stub · name) = id :=
  funext fun _ => if_neg fun new => known new.1

/-! ## One pass over the names -/

def opening (label name : Text) : Text :=
  "unknown tool \"".toList ++ name ++ "\" in ".toList ++ label ++ "; omitted".toList

/-- The end of the warning for a tool that the table declines. -/
def declinedEnding : Text := " (".toList ++ unmapped ++ " in tool map)".toList

private theorem warning_eq (table : ToolTable) (label name : Text) :
    table.warning label name = opening label name ++ if table.fate name = .declined then declinedEnding else [] := rfl

/-- What a pass over names has collected. -/
structure Progress where
  /-- The targets, each once. -/
  mapped : List Text
  omitted : List Text
  warnings : List Text
  /-- The stubs, if they are collected. -/
  pending : Option ToolTable

namespace Progress

/-- A target is added unless it is there. -/
def add (progress : Progress) (target : Text) : Progress :=
  { progress with mapped := if target ∈ progress.mapped then progress.mapped else progress.mapped ++ [target] }

/-- A name is omitted with a warning unless it is omitted already. -/
def leaveOut (progress : Progress) (name warning : Text) : Progress :=
  if name ∈ progress.omitted then progress
  else { progress with omitted := progress.omitted ++ [name], warnings := progress.warnings ++ [warning] }

/-- A name is entered unless an equal name in lower case is. -/
def enter (progress : Progress) (name : Text) : Progress :=
  { progress with
    pending := progress.pending.map fun stubs => if stubs.lookup? name = none then stubs.insert name unmapped else stubs }

def next (table : ToolTable) (label : Text) (progress : Progress) (name : Text) : Progress :=
  if isPassedOn name then progress.add name
  else match table.lookup? name with
    | none => (progress.enter name).leaveOut name (opening label name)
    | some (_, value) =>
      if value = unmapped then progress.leaveOut name (opening label name ++ declinedEnding) else progress.add value

def run (table : ToolTable) (label : Text) (pending : Option ToolTable) (names : List Text) : Progress :=
  names.foldl (next table label) ⟨[], [], [], pending⟩

def mapping (progress : Progress) : Mapping := ⟨Text.sorted progress.mapped, progress.omitted, progress.warnings⟩

/-- An unknown name is entered as the stub that it leaves. -/
theorem enter_eq (unknown : table.fate name = .unknown) (progress : Progress) :
    progress.enter name = { progress with pending := progress.pending.map (table.stub · name) } := by
  have same : (fun stubs : ToolTable => if stubs.lookup? name = none then stubs.insert name unmapped else stubs) =
      (table.stub · name) := by
    funext stubs
    simp [stub, unknown]
  rw [enter, same]

/-- A name that is not omitted adds its target; any other one leaves its stub, if any, and is left out. -/
theorem next_eq (table : ToolTable) (label : Text) (progress : Progress) (name : Text) :
    next table label progress name =
      match table.target? name with
      | some target => progress.add target
      | none => { progress with pending := progress.pending.map (table.stub · name) }.leaveOut name
          (table.warning label name) := by
  rw [warning_eq]
  cases passed : isPassedOn name with
  | true =>
    have fate : table.fate name = .passedOn := if_pos passed
    simp only [next, passed, target?, fate, if_true]
  | false =>
    cases found : table.lookup? name with
    | none =>
      have fate : table.fate name = .unknown := fate_eq_unknown_iff.mpr ⟨passed, found⟩
      simp [next, passed, found, target?, fate, enter_eq fate]
    | some entry =>
      by_cases declined : entry.2 = unmapped
      · have fate : table.fate name = .declined := by simp [ToolTable.fate, passed, found, declined]
        have known : table.fate name ≠ .unknown := by simp [fate]
        simp [next, passed, found, declined, target?, fate, stub_of_known known]
      · have fate : table.fate name = .mapped entry.2 := by simp [ToolTable.fate, passed, found, declined]
        simp [next, passed, found, declined, target?, fate]

/-- What has been collected after some names is what the mapping of these names says. -/
structure Covers (table : ToolTable) (label : Text) (pending : Option ToolTable) (names : List Text) (progress : Progress) :
    Prop where
  mapped : progress.mapped = Text.distinct (names.filterMap table.target?)
  omitted : progress.omitted = Text.distinct (names.filter table.omits)
  /-- Every omitted name gives its warning. -/
  warnings : progress.warnings = progress.omitted.map (table.warning label)
  /-- The stubs are those of the names after those at the beginning. -/
  pending : progress.pending = pending.map (table.stubAll · names)

namespace Covers

variable {progress : Progress}

/-- A name that is not omitted adds its target and leaves no stub. -/
theorem add (covers : Covers table label pending names progress) {target : Text} (known : table.target? name = some target) :
    Covers table label pending (names ++ [name]) (progress.add target) := by
  have targets : (names ++ [name]).filterMap table.target? = names.filterMap table.target? ++ [target] := by
    rw [List.filterMap_append, List.filterMap_cons_some known, List.filterMap_nil]
  have kept : (names ++ [name]).filter table.omits = names.filter table.omits := by
    rw [List.filter_append, List.filter_singleton, omits, known]
    exact List.append_nil _
  have fate : table.fate name ≠ .unknown := by
    intro unknown
    rw [target?, unknown] at known
    cases known
  have stubs : (table.stubAll · (names ++ [name])) = (table.stubAll · names) :=
    funext fun stubs => (stubAll_concat table stubs names name).trans (congrFun (stub_of_known fate) _)
  have there : target ∈ progress.mapped ↔ target ∈ names.filterMap table.target? := by rw [covers.mapped, Text.mem_distinct]
  refine ⟨?_, kept ▸ covers.omitted, covers.warnings, stubs ▸ covers.pending⟩
  rw [targets, Text.distinct_concat, ← covers.mapped]
  exact if_congr there rfl rfl

/-- An omitted name is left out, with its warning, and leaves its stub, if any. -/
theorem leaveOut (covers : Covers table label pending names progress) (omits : table.target? name = none) :
    Covers table label pending (names ++ [name])
      ({ progress with pending := progress.pending.map (table.stub · name) }.leaveOut name (table.warning label name)) := by
  have targets : (names ++ [name]).filterMap table.target? = names.filterMap table.target? := by
    rw [List.filterMap_append, List.filterMap_cons_none omits, List.filterMap_nil, List.append_nil]
  have kept : (names ++ [name]).filter table.omits = names.filter table.omits ++ [name] := by
    rw [List.filter_append, List.filter_singleton, ToolTable.omits, omits]
    rfl
  have there : name ∈ progress.omitted ↔ name ∈ names.filter table.omits := by rw [covers.omitted, Text.mem_distinct]
  have stubs : progress.pending.map (table.stub · name) = pending.map (table.stubAll · (names ++ [name])) := by
    rw [covers.pending, Option.map_map]
    exact congrArg (pending.map ·) (funext fun stubs => (stubAll_concat table stubs names name).symm)
  rw [Progress.leaveOut]
  split
  · rename_i again
    refine ⟨targets ▸ covers.mapped, ?_, covers.warnings, stubs⟩
    rw [kept, Text.distinct_concat, if_pos (there.mp again)]
    exact covers.omitted
  · rename_i fresh
    refine ⟨targets ▸ covers.mapped, ?_, ?_, stubs⟩
    · rw [kept, Text.distinct_concat, if_neg (there.not.mp fresh), ← covers.omitted]
    · rw [List.map_append, ← covers.warnings]
      rfl

theorem next (covers : Covers table label pending names progress) (name : Text) :
    Covers table label pending (names ++ [name]) (progress.next table label name) := by
  rw [next_eq]
  cases mapped : table.target? name with
  | some target => exact covers.add mapped
  | none => exact covers.leaveOut mapped

end Covers

private theorem covers_run (table : ToolTable) (label : Text) (pending : Option ToolTable) (names : List Text) :
    Covers table label pending names (run table label pending names) := by
  induction names using List.reverseRecOn with
  | nil => exact ⟨rfl, rfl, rfl, by cases pending <;> rfl⟩
  | append_singleton names name ih =>
    rw [run, List.foldl_concat]
    exact ih.next name

end Progress

/-- A pass comes to the mapping of the names, whatever stubs it begins with, and leaves the stubs of the names. -/
theorem Progress.mapping_run (table : ToolTable) (label : Text) (pending : Option ToolTable) (names : List Text) :
    (run table label pending names).mapping = table.mapTools label names ∧
      (run table label pending names).pending = pending.map (table.stubAll · names) := by
  have covers := covers_run table label pending names
  refine ⟨?_, covers.pending⟩
  rw [mapping, covers.warnings, covers.mapped, covers.omitted]
  rfl

/-! ## What becomes of a name -/

theorem isPassedOn_iff : isPassedOn name = true ↔ passedOnMark <+: name := List.isPrefixOf_iff_prefix

theorem target?_eq_some_iff {target : Text} :
    table.target? name = some target ↔
      passedOnMark <+: name ∧ target = name ∨
        ¬ passedOnMark <+: name ∧ target ≠ unmapped ∧ ∃ key, table.Selects name (key, target) := by
  simp only [selects_iff, ← isPassedOn_iff, target?, fate]
  cases isPassedOn name with
  | true => simp [eq_comm]
  | false =>
    cases table.lookup? name with
    | none => simp
    | some entry =>
      by_cases declined : entry.2 = unmapped
      · have other : ¬ (target ≠ unmapped ∧ ∃ key, entry = (key, target)) := by
          rintro ⟨other, key, rfl⟩
          exact other declined
        simpa [declined] using other
      · have selected : entry.2 = target ↔ target ≠ unmapped ∧ ∃ key, entry = (key, target) := by
          constructor
          · rintro rfl
            exact ⟨declined, entry.1, rfl⟩
          · rintro ⟨-, key, rfl⟩
            rfl
        simpa [declined] using selected

theorem omits_iff : table.omits name = true ↔
    ¬ passedOnMark <+: name ∧ ∀ entry, table.Selects name entry → entry.2 = unmapped := by
  rw [← Bool.not_eq_false, ← knows_iff, Knows, isPassedOn_iff]
  push Not
  rfl

/-- The warning for a name that is omitted says whether the table has an entry. -/
theorem warning_of_omits (label : Text) (omits : table.omits name = true) :
    (∀ entry, ¬ table.Selects name entry) ∧ table.warning label name = opening label name ∨
      (∃ key, table.Selects name (key, unmapped)) ∧ table.warning label name = opening label name ++ declinedEnding := by
  obtain ⟨own, unmapped⟩ := omits_iff.mp omits
  have passed : isPassedOn name = false := Bool.eq_false_iff.mpr (isPassedOn_iff.not.mpr own)
  simp only [selects_iff] at unmapped ⊢
  cases found : table.lookup? name with
  | none =>
    have fate : table.fate name = .unknown := fate_eq_unknown_iff.mpr ⟨passed, found⟩
    refine .inl ⟨nofun, ?_⟩
    rw [warning_eq, fate, if_neg (by decide), List.append_nil]
  | some entry =>
    have declined := unmapped entry found
    have fate : table.fate name = .declined := by simp [ToolTable.fate, passed, found, declined]
    refine .inr ⟨⟨entry.1, declined ▸ rfl⟩, ?_⟩
    rw [warning_eq, fate, if_pos rfl]

/-! ## The specification -/

/-- What a mapping of names has to be. -/
structure Mapping.Maps (table : ToolTable) (label : Text) (names : List Text) (mapping : Mapping) : Prop where
  /-- The tools are strictly increasing by code points. -/
  increasing : mapping.tools.Pairwise (· < ·)
  /-- The tools are the names that are passed on, and the values of the entries selected for the others. -/
  mem_tools : ∀ tool, tool ∈ mapping.tools ↔
    tool ∈ names ∧ passedOnMark <+: tool ∨
      ∃ name ∈ names, ¬ passedOnMark <+: name ∧ tool ≠ unmapped ∧ ∃ key, table.Selects name (key, tool)
  /-- The omitted names are those that have no selected entry, or one without a counterpart. -/
  mem_omitted : ∀ name, name ∈ mapping.omitted ↔
    name ∈ names ∧ ¬ passedOnMark <+: name ∧ ∀ entry, table.Selects name entry → entry.2 = unmapped
  /-- They come in the order of first occurrence. -/
  firstOccurrences : mapping.omitted.Pairwise fun first second => names.idxOf first < names.idxOf second
  /-- Each omitted name gives one warning, in the same order, which says whether the table has an entry. -/
  warned : mapping.omitted.Forall₂ (fun name warning =>
    (∀ entry, ¬ table.Selects name entry) ∧ warning = opening label name ∨
      (∃ key, table.Selects name (key, unmapped)) ∧ warning = opening label name ++ declinedEnding) mapping.warnings

theorem maps_mapTools (table : ToolTable) (label : Text) (names : List Text) :
    (table.mapTools label names).Maps table label names where
  increasing := Text.pairwise_sortedDistinct _
  mem_tools := by
    intro tool
    rw [mapTools, Text.mem_sortedDistinct, List.mem_filterMap]
    simp only [target?_eq_some_iff]
    constructor
    · rintro ⟨name, member, ⟨mark, rfl⟩ | selected⟩
      · exact .inl ⟨member, mark⟩
      · exact .inr ⟨name, member, selected⟩
    · rintro (⟨member, mark⟩ | ⟨name, member, selected⟩)
      · exact ⟨tool, member, .inl ⟨mark, rfl⟩⟩
      · exact ⟨name, member, .inr selected⟩
  mem_omitted := by
    intro name
    rw [mapTools, Text.mem_distinct, List.mem_filter, omits_iff]
  firstOccurrences := Text.pairwise_distinct_filter table.omits names
  warned := by
    refine List.forall₂_map_right_iff.mpr (List.forall₂_same.mpr fun name member => ?_)
    exact warning_of_omits label (List.mem_filter.mp (Text.mem_distinct.mp member)).2

/-- The specification leaves no choice. -/
theorem maps_iff {mapping : Mapping} : mapping.Maps table label names ↔ mapping = table.mapTools label names := by
  constructor
  · intro maps
    have meets := maps_mapTools table label names
    obtain ⟨tools, omitted, warnings⟩ := mapping
    have sameTools : tools = (table.mapTools label names).tools :=
      Text.eq_of_pairwise (fun _ _ below => List.lt_asymm below) maps.increasing meets.increasing fun tool =>
        (maps.mem_tools tool).trans (meets.mem_tools tool).symm
    have sameOmitted : omitted = (table.mapTools label names).omitted :=
      Text.eq_of_pairwise (fun _ _ below => Nat.lt_asymm below) maps.firstOccurrences meets.firstOccurrences fun name =>
        (maps.mem_omitted name).trans (meets.mem_omitted name).symm
    have sameWarnings : warnings = (table.mapTools label names).warnings := by
      refine List.right_unique_forall₂' (fun name first second one other => ?_) maps.warned (sameOmitted ▸ meets.warned)
      rcases one with ⟨unlisted, rfl⟩ | ⟨⟨key, listed⟩, rfl⟩ <;> rcases other with ⟨unlisted', rfl⟩ | ⟨⟨key', listed'⟩, rfl⟩
      · rfl
      · exact absurd listed' (unlisted _)
      · exact absurd listed (unlisted' _)
      · rfl
    rw [sameTools, sameOmitted, sameWarnings]
  · rintro rfl
    exact maps_mapTools table label names

/-- The mapping meets its specification, and nothing else does; a pass over the names comes to it with any stubs at the
beginning or none; and names with the same members have the same tools and omit the same names. -/
theorem mapTools_spec (table : ToolTable) (label : Text) (names : List Text) :
    (∀ mapping : Mapping, mapping.Maps table label names ↔ mapping = table.mapTools label names) ∧
    (∀ pending, (Progress.run table label pending names).mapping = table.mapTools label names ∧
      (Progress.run table label pending names).pending = pending.map (table.stubAll · names)) ∧
    ∀ others, (∀ name, name ∈ others ↔ name ∈ names) →
      (table.mapTools label others).tools = (table.mapTools label names).tools ∧
        ∀ name, name ∈ (table.mapTools label others).omitted ↔ name ∈ (table.mapTools label names).omitted := by
  refine ⟨fun mapping => maps_iff, fun pending => Progress.mapping_run table label pending names, fun others same => ?_⟩
  have meets := maps_mapTools table label names
  have meets' := maps_mapTools table label others
  refine ⟨Text.eq_of_pairwise ?_ meets'.increasing meets.increasing fun tool => ?_, fun name => ?_⟩
  · exact fun first second below => List.lt_asymm below
  · simp only [meets'.mem_tools, meets.mem_tools, same]
  · rw [meets'.mem_omitted, meets.mem_omitted, same]

end ToolTable

end PromptCompiler
