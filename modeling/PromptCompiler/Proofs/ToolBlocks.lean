import PromptCompiler.Proofs.HeaderGrammar

/-! # Blocks of tools

Below a declaring key without a value the header lists tools one to a line, up to a blank line or a line with a
key. Each line of the block is an item with a name or an anomaly, with one exception: a dash that at least two
blanks follow is taken for an item, but names nothing, and the line is lost. So the names and the anomalies
account for the whole block exactly if it has no such line (`BlockDeclaration.accounted_iff`).
-/

namespace PromptCompiler.ToolDeclaration

/-! ## Lines of a block -/

/-- A line with a name: an indent, a dash, blanks and the name. Blanks may follow. -/
inductive IsItem : Text → Text → Prop
  | intro {indent gap name rest : Text} (indented : indent ≠ []) (spaced : gap ≠ []) (named : name ≠ [])
      (blank : ∀ c ∈ indent ++ gap ++ rest, Text.isBlank c = true) (trimmed : Text.trim name = name) :
      IsItem (indent ++ '-' :: (gap ++ (name ++ rest))) name

/-- A line with an indent, a dash and at least two blanks. -/
inductive IsNameless : Text → Prop
  | intro {indent gap : Text} (indented : indent ≠ []) (spaced : 2 ≤ gap.length)
      (blank : ∀ c ∈ indent ++ gap, Text.isBlank c = true) : IsNameless (indent ++ '-' :: gap)

private theorem span_blank {front rest : Text} (blank : ∀ c ∈ front, Text.isBlank c = true)
    (solid : rest.head?.any Text.isBlank = false) : (front ++ rest).span Text.isBlank = (front, rest) := by
  have stops : rest.takeWhile Text.isBlank = [] ∧ rest.dropWhile Text.isBlank = rest := by
    cases rest with
    | nil => exact ⟨rfl, rfl⟩
    | cons c rest =>
      have kept : Text.isBlank c = false := solid
      exact ⟨List.takeWhile_cons_of_neg (by simp [kept]), List.dropWhile_cons_of_neg (by simp [kept])⟩
  rw [List.span_eq_takeWhile_dropWhile, List.takeWhile_append_of_pos blank, List.dropWhile_append_of_pos blank, stops.1,
    stops.2, List.append_nil]

/-- What an indented line with a dash is depends on the blanks after the dash and on what follows them. -/
theorem classify_dashed {indent gap rest : Text} (indented : indent ≠ [])
    (blank : ∀ c ∈ indent ++ gap, Text.isBlank c = true) (solid : rest.head?.any Text.isBlank = false) :
    classify (indent ++ '-' :: (gap ++ rest)) =
      if gap = [] then .stray
      else if rest ≠ [] then .item (Text.trimEnd rest)
      else if gap.length = 1 then .stray
      else .blankItem := by
  obtain ⟨blank, blank'⟩ := List.forall_mem_append.mp blank
  obtain ⟨c, indent, rfl⟩ := List.exists_cons_of_ne_nil indented
  rw [classify, span_blank blank (by rfl)]
  simp only [span_blank blank' solid]
  rcases gap with _ | ⟨d, gap⟩
  · rfl
  · rcases rest with _ | ⟨e, rest⟩
    · cases gap with
      | nil => rfl
      | cons e gap => simp
    · rfl

/-- Every line that is not stray is indented and has a dash. -/
theorem exists_dashed {line : Text} (known : classify line ≠ .stray) :
    ∃ indent gap rest, line = indent ++ '-' :: (gap ++ rest) ∧ indent ≠ [] ∧
      (∀ c ∈ indent ++ gap, Text.isBlank c = true) ∧ rest.head?.any Text.isBlank = false := by
  rw [classify] at known
  split at known
  · rename_i c indent rest indented
    rw [List.span_eq_takeWhile_dropWhile] at indented
    obtain ⟨front, back⟩ := Prod.mk.inj indented
    have whole : line = (c :: indent) ++ '-' :: rest := by
      rw [← front, ← back, List.takeWhile_append_dropWhile]
    refine ⟨c :: indent, rest.takeWhile Text.isBlank, rest.dropWhile Text.isBlank, ?_, List.cons_ne_nil _ _, ?_,
      Text.head?_dropWhile _ rest⟩
    · rw [List.takeWhile_append_dropWhile, whole]
    · rw [List.forall_mem_append, ← front]
      exact ⟨fun _ => List.mem_takeWhile_imp, fun _ => List.mem_takeWhile_imp⟩
  · exact absurd rfl known

theorem classify_eq_item_iff {line name : Text} : classify line = .item name ↔ IsItem line name := by
  constructor
  · intro item
    have known : classify line ≠ .stray := by simp [item]
    obtain ⟨indent, gap, rest, rfl, indented, blank, solid⟩ := exists_dashed known
    rw [classify_dashed indented blank solid] at item
    split_ifs at item with spaced named
    obtain ⟨removed, whole, blank', last⟩ := Text.dropEndWhile_eq_iff.mp (BlockLine.item.inj item)
    have notEmpty : name ≠ [] := by
      rintro rfl
      -- A text of blanks would have begun with one.
      obtain ⟨c, more, cons⟩ := List.exists_cons_of_ne_nil named
      rw [List.nil_append] at whole
      have first : Text.isBlank c = true := blank' c (whole ▸ cons ▸ List.mem_cons_self)
      rw [cons] at solid
      exact Bool.noConfusion (first.symm.trans solid)
    have first : name.head?.any Text.isBlank = false := by
      obtain ⟨c, more, rfl⟩ := List.exists_cons_of_ne_nil notEmpty
      rw [whole] at solid
      exact solid
    rw [whole]
    refine .intro indented spaced notEmpty ?_ (Text.trim_eq_self_iff.mpr ⟨first, last⟩)
    exact List.forall_mem_append.mpr ⟨blank, blank'⟩
  · intro item
    cases item with
    | @intro indent gap _ rest indented spaced named blank trimmed =>
      obtain ⟨blank, blank'⟩ := List.forall_mem_append.mp blank
      obtain ⟨first, last⟩ := Text.trim_eq_self_iff.mp trimmed
      have solid : (name ++ rest).head?.any Text.isBlank = false := by rwa [List.head?_append_of_ne_nil _ named]
      rw [classify_dashed indented blank solid, if_neg spaced, if_pos (List.append_ne_nil_of_left_ne_nil named rest)]
      exact congrArg BlockLine.item (Text.dropEndWhile_eq_iff.mpr ⟨rest, rfl, blank', last⟩)

theorem classify_eq_blankItem_iff {line : Text} : classify line = .blankItem ↔ IsNameless line := by
  constructor
  · intro item
    have known : classify line ≠ .stray := by simp [item]
    obtain ⟨indent, gap, rest, rfl, indented, blank, solid⟩ := exists_dashed known
    rw [classify_dashed indented blank solid] at item
    split_ifs at item with apart unnamed single
    obtain rfl := not_not.mp unnamed
    rw [List.append_nil]
    refine .intro indented ?_ blank
    have long := List.length_pos_of_ne_nil apart
    omega
  · intro nameless
    cases nameless with
    | @intro indent gap indented spaced blank =>
      have notEmpty : gap ≠ [] := List.ne_nil_of_length_pos (by omega)
      have solid : ([] : Text).head?.any Text.isBlank = false := rfl
      have dashed := classify_dashed indented blank solid
      rwa [List.append_nil, if_neg notEmpty, if_neg (not_not.mpr rfl), if_neg (by omega)] at dashed

instance (line : Text) : Decidable (IsNameless line) := decidable_of_iff _ classify_eq_blankItem_iff

/-! ## What a block accounts for -/

/-- Each line of a block gives its name, or an anomaly with its number and the line. -/
inductive Accounts : List (Text × Nat) → List Text → List Anomaly → Prop
  | nil : Accounts [] [] []
  | item {line name : Text} {number : Nat} {block : List (Text × Nat)} {names : List Text} {anomalies : List Anomaly}
      (item : IsItem line name) (later : Accounts block names anomalies) :
      Accounts ((line, number) :: block) (name :: names) anomalies
  | anomaly {line : Text} {number : Nat} {block : List (Text × Nat)} {names : List Text} {anomalies : List Anomaly}
      (stray : ∀ name, ¬ IsItem line name) (later : Accounts block names anomalies) :
      Accounts ((line, number) :: block) names (⟨number, line⟩ :: anomalies)

/-- There are as many names and anomalies together as lines. -/
theorem Accounts.length_eq {block : List (Text × Nat)} {names : List Text} {anomalies : List Anomaly}
    (accounts : Accounts block names anomalies) : names.length + anomalies.length = block.length := by
  induction accounts with
  | nil => rfl
  | item _ _ ih | anomaly _ _ ih =>
    simp only [List.length_cons]
    omega

/-- All lines are accounted for but those that name nothing. -/
theorem accounts_filter (block : List (Text × Nat)) :
    Accounts (block.filter fun line => ¬ IsNameless line.1) (block.filterMap itemName?) (block.filterMap anomaly?) := by
  induction block with
  | nil => exact .nil
  | cons line rest ih =>
    obtain ⟨line, number⟩ := line
    rw [List.filter_cons, List.filterMap_cons, List.filterMap_cons, itemName?, anomaly?]
    simp only [← classify_eq_blankItem_iff] at ih ⊢
    cases classified : classify line with
    | item name => exact .item (classify_eq_item_iff.mp classified) ih
    | blankItem => exact ih
    | stray =>
      refine .anomaly (fun name item => ?_) ih
      rw [classify_eq_item_iff.mpr item] at classified
      cases classified

/-- The whole block is accounted for exactly if no line names nothing. -/
theorem accounts_iff (block : List (Text × Nat)) :
    Accounts block (block.filterMap itemName?) (block.filterMap anomaly?) ↔ ∀ line ∈ block, ¬ IsNameless line.1 := by
  have kept := accounts_filter block
  constructor
  · intro accounts
    have lengths := kept.length_eq.symm.trans accounts.length_eq
    simpa using List.length_filter_eq_length_iff.mp lengths
  · intro named
    rwa [List.filter_eq_self.mpr (by simpa using named)] at kept

/-! ## Declarations in blocks -/

/-- A line that declares tools, with what follows the colon. -/
def Declares (line value : Text) : Prop := ∃ key ∈ keys, Header.IsField line key value

/-- A line that ends a block: it is blank or has a key. -/
def EndsBlock (line : Text) : Prop :=
  (∀ c ∈ line, Text.isBlank c = true) ∨ ∃ key value, Header.IsField line key value

theorem value?_eq_some_iff {line value : Text} : value? line = some value ↔ Declares line value := by
  simp only [value?, Option.bind_eq_some_iff, Prod.exists, Header.keyed?_eq_some_iff, Option.ite_none_right_eq_some,
    Option.some.injEq, Declares, Header.IsField]
  constructor
  · rintro ⟨key, _, field, declares, rfl⟩
    exact ⟨key, declares, field⟩
  · rintro ⟨key, declares, field⟩
    exact ⟨key, value, field, declares, rfl⟩

theorem value?_eq_none_iff {line : Text} : value? line = none ↔ ∀ value, ¬ Declares line value := by
  simp only [← value?_eq_some_iff, Option.eq_none_iff_forall_ne_some, ne_eq]

theorem continues_eq_false_iff {line : Text} : continues line = false ↔ EndsBlock line := by
  have keyed : (Header.keyed? line).isNone = false ↔ ∃ key value, Header.IsField line key value := by
    rw [Option.isNone_eq_false_iff, Option.isSome_iff_exists, Prod.exists]
    exact exists_congr fun key => exists_congr fun value => Header.keyed?_eq_some_iff
  rw [continues, Bool.and_eq_false_iff, decide_eq_false_iff_not, not_not, Text.trim_eq_nil_iff, keyed]
  rfl

instance (line : Text) : Decidable (∀ value, ¬ Declares line value) := decidable_of_iff _ value?_eq_none_iff

instance (line : Text) : Decidable (EndsBlock line) := decidable_of_iff _ continues_eq_false_iff

/-- Header lines of which the first that declares tools has no value, with the block below it. -/
structure BlockDeclaration where
  before : List Text
  /-- The line with the declaring key. -/
  declaring : Text
  block : List Text
  after : List Text
  undeclared : ∀ line ∈ before, ∀ value, ¬ Declares line value
  declares : ∃ value, Declares declaring value ∧ ∀ c ∈ value, Text.isBlank c = true
  inside : ∀ line ∈ block, ¬ EndsBlock line
  ended : ∀ line ∈ after.head?, EndsBlock line

namespace BlockDeclaration

def lines (declaration : BlockDeclaration) : List Text :=
  declaration.before ++ declaration.declaring :: (declaration.block ++ declaration.after)

/-- The lines of the block with their numbers in the header, from one. -/
def numbered (declaration : BlockDeclaration) : List (Text × Nat) :=
  declaration.block.zipIdx (declaration.before.length + 2)

private theorem ofLines_lines (declaration : BlockDeclaration) :
    ofLines declaration.lines =
      ⟨some (declaration.numbered.filterMap itemName?), declaration.numbered.filterMap anomaly?⟩ := by
  obtain ⟨value, declares, blank⟩ := declaration.declares
  have undeclared : ∀ line ∈ declaration.before, value? line = none := fun line member =>
    value?_eq_none_iff.mpr (declaration.undeclared line member)
  have empty : ¬ Text.trim value ≠ [] := not_not.mpr (Text.trim_eq_nil_iff.mpr blank)
  have inside : ∀ line ∈ declaration.numbered, continues line.1 = true := by
    intro line member
    have listed : line.1 ∈ declaration.block := (List.mem_zipIdx member).2.2 ▸ List.getElem_mem _
    by_contra ends
    exact declaration.inside line.1 listed (continues_eq_false_iff.mp (Bool.eq_false_iff.mpr ends))
  have ended (start : Nat) : (declaration.after.zipIdx start).takeWhile (fun line => continues line.1) = [] := by
    have ended := declaration.ended
    cases later : declaration.after with
    | nil => rfl
    | cons line rest =>
      rw [later] at ended
      have stops : continues line = false := continues_eq_false_iff.mpr (ended line rfl)
      rw [List.zipIdx_cons, List.takeWhile_cons_of_neg (by simp [stops])]
  have cut : ((declaration.block ++ declaration.after).zipIdx (declaration.before.length + 2)).takeWhile
      (fun line => continues line.1) = declaration.numbered := by
    rw [List.zipIdx_append]
    refine (List.takeWhile_append_of_pos inside).trans ?_
    rw [ended, List.append_nil, numbered]
  rw [lines, ofLines_append undeclared (value?_eq_some_iff.mpr declares), if_neg empty]
  simp only [cut]

/-- The names and the anomalies that are read from a block account for all of its lines but those that name
nothing, and so for the whole block exactly if it has no such line. -/
theorem accounted_iff (declaration : BlockDeclaration) {text rest : Text}
    (header : Header.split? text = some (declaration.lines, rest)) :
    ∃ names anomalies, ofText text = ⟨some names, anomalies⟩ ∧
      Accounts (declaration.numbered.filter fun line => ¬ IsNameless line.1) names anomalies ∧
      (Accounts declaration.numbered names anomalies ↔ ∀ line ∈ declaration.block, ¬ IsNameless line) := by
  refine ⟨_, _, ?_, accounts_filter declaration.numbered, ?_⟩
  · rw [ofText, header]
    exact declaration.ofLines_lines
  · have lines : declaration.numbered.map Prod.fst = declaration.block := List.zipIdx_map_fst _ _
    rw [accounts_iff, ← lines, List.forall_mem_map]

/-- A block with items and anomalies of many kinds. -/
def sample : BlockDeclaration where
  before := ["  - Zip".toList, "name: tools".toList]
  declaring := "tools \t:\u2003".toList
  block := ["  - Read".toList, "- Zap".toList, "\u00a0-\u2003\u2003a - b: c\t".toList, "  -".toList, "\t- ".toList, " --".toList]
  after := ["\u2028".toList, "  - Zop".toList]
  undeclared := by decide
  declares := ⟨"\u2003".toList, ⟨"tools".toList, by decide, Header.keyed?_eq_some_iff.mp rfl⟩, by decide⟩
  inside := by decide
  ended := by decide

def sampleText : Text := "---\n".toList ++ Text.joinLines sample.lines ++ "\r\n---\n".toList

theorem accounted_iff_sample :
    Header.split? sampleText = some (sample.lines, []) ∧
      ofText sampleText = ⟨some ["Read".toList, "a - b: c".toList],
        [⟨5, "- Zap".toList⟩, ⟨7, "  -".toList⟩, ⟨8, "\t- ".toList⟩, ⟨9, " --".toList⟩]⟩ ∧
      Accounts sample.numbered ["Read".toList, "a - b: c".toList]
        [⟨5, "- Zap".toList⟩, ⟨7, "  -".toList⟩, ⟨8, "\t- ".toList⟩, ⟨9, " --".toList⟩] := by
  have header : Header.split? sampleText = some (sample.lines, []) := by decide
  have read : ofText sampleText = ⟨some ["Read".toList, "a - b: c".toList],
      [⟨5, "- Zap".toList⟩, ⟨7, "  -".toList⟩, ⟨8, "\t- ".toList⟩, ⟨9, " --".toList⟩]⟩ := by decide
  obtain ⟨names, anomalies, read', -, accounted⟩ := sample.accounted_iff header
  rw [read] at read'
  cases read'
  exact ⟨header, read, accounted.mpr (by decide)⟩

/-- A block of one line that names nothing. -/
def nameless : BlockDeclaration where
  before := []
  declaring := "tools:".toList
  block := ["  -  ".toList]
  after := []
  undeclared := by decide
  declares := ⟨[], ⟨"tools".toList, by decide, Header.keyed?_eq_some_iff.mp rfl⟩, by decide⟩
  inside := by decide
  ended := by decide

/-- Its line gives neither a name nor an anomaly. -/
theorem nameless_lost :
    Header.split? "---\ntools:\n  -  \n---\n".toList = some (nameless.lines, []) ∧
      ofText "---\ntools:\n  -  \n---\n".toList = ⟨some [], []⟩ ∧ ¬ Accounts nameless.numbered [] [] := by
  refine ⟨by decide, by decide, fun accounts => ?_⟩
  have lengths : 0 = 1 := accounts.length_eq
  cases lengths

end BlockDeclaration

end PromptCompiler.ToolDeclaration
