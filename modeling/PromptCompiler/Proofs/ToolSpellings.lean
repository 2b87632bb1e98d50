import PromptCompiler.Proofs.ToolAccuracy

/-! # Spellings of a tool list

A header may declare the same tools on one line, with or without brackets, or one to a line below the key.
Whatever the spelling and the key, the same names are read, nothing else in the header is read differently,
and no reader of the rest of the document notices. So documents that differ in the spelling only compile alike
(`compile_spelled`). A list without brackets must not be empty, since an empty value announces a block, and
must not look as if it stood in brackets.
-/

namespace PromptCompiler

/-! ## Lines with a key -/

namespace Header

private theorem exists_returns (line : Text) : ∃ ending, line = withoutReturns line ++ ending := by
  obtain ⟨ending, whole⟩ := Text.isPrefix_dropEndWhile (· == '\r') line
  exact ⟨ending, whole.symm⟩

/-- Carriage returns at the end of a line are not part of its key. -/
theorem keyed?_withoutReturns (line : Text) :
    keyed? (withoutReturns line) = (keyed? line).map fun found => (found.1, withoutReturns found.2) := by
  cases keyed : keyed? line with
  | none =>
    -- A key of the shorter line would be one of the line.
    rw [Option.map_none, Option.eq_none_iff_forall_ne_some]
    rintro ⟨key, rest⟩ found
    obtain ⟨named, allowed, gap, blank, whole⟩ := keyed?_eq_some_iff.mp found
    obtain ⟨ending, line_eq⟩ := exists_returns line
    have keyed' : keyed? line = some (key, rest ++ ending) := by
      refine keyed?_eq_some_iff.mpr ⟨named, allowed, gap, blank, ?_⟩
      rw [line_eq, whole, List.append_assoc, List.append_assoc, List.cons_append]
    rw [keyed] at keyed'
    cases keyed'
  | some found =>
    obtain ⟨named, allowed, gap, blank, rfl⟩ := keyed?_eq_some_iff.mp keyed
    refine keyed?_eq_some_iff.mpr ⟨named, allowed, gap, blank, ?_⟩
    rw [← List.append_assoc, ← List.append_assoc]
    exact Text.dropEndWhile_append_cons (by decide) _ _

end Header

namespace ToolDeclaration

private theorem value?_withoutReturns {line : Text} (undeclared : value? line = none) :
    value? (Header.withoutReturns line) = none := by
  rw [value?] at undeclared ⊢
  rw [Header.keyed?_withoutReturns]
  cases keyed : Header.keyed? line with
  | none => rfl
  | some found =>
    rw [keyed] at undeclared
    simpa using undeclared

private theorem continues_withoutReturns {line : Text} (ended : continues line = false) :
    continues (Header.withoutReturns line) = false := by
  rw [continues, Bool.and_eq_false_iff, decide_eq_false_iff_not, not_not] at ended ⊢
  rcases ended with blank | keyed
  · have inside := (Text.isPrefix_dropEndWhile (· == '\r') line).subset
    exact .inl (Text.trim_eq_nil_iff.mpr fun c member => Text.trim_eq_nil_iff.mp blank c (inside member))
  · rw [Header.keyed?_withoutReturns, Option.isNone_map]
    exact .inr keyed

/-! ## Names and their spellings -/

/-- A name that is the same in every spelling. -/
structure Spellable (name : Text) : Prop where
  notEmpty : name ≠ []
  /-- It holds no comma, which would end it on one line. -/
  noComma : ',' ∉ name
  /-- It holds no line feed, which would end its line. -/
  noFeed : '\n' ∉ name
  /-- It neither begins nor ends with a blank, which would be taken away. -/
  trimmed : Text.trim name = name

instance (name : Text) : Decidable (Spellable name) :=
  decidable_of_iff (name ≠ [] ∧ ',' ∉ name ∧ '\n' ∉ name ∧ Text.trim name = name)
    ⟨fun ⟨notEmpty, noComma, noFeed, trimmed⟩ => ⟨notEmpty, noComma, noFeed, trimmed⟩,
      fun ⟨notEmpty, noComma, noFeed, trimmed⟩ => ⟨notEmpty, noComma, noFeed, trimmed⟩⟩

/-- The ways of declaring a list of names. -/
inductive Spelling where
  /-- On the line of the key, in brackets. -/
  | bracketed
  /-- One to a line below the key. -/
  | block
  /-- On the line of the key, without brackets. -/
  | plain
deriving DecidableEq

/-- A line of a block with a name. -/
def itemLine (name : Text) : Text := ' ' :: ' ' :: '-' :: ' ' :: name

namespace Spelling

/-- What follows the colon of the key. -/
def value (names : List Text) : Spelling → Text
  | .bracketed => ' ' :: '[' :: Text.listed names ++ [']']
  | .block => []
  | .plain => ' ' :: Text.listed names

/-- The lines below the line of the key. -/
def items (names : List Text) : Spelling → List Text
  | .block => names.map itemLine
  | .bracketed | .plain => []

/-- The header lines that declare names under a key. -/
def lines (spelling : Spelling) (key : Text) (names : List Text) : List Text :=
  (key ++ ':' :: spelling.value names) :: spelling.items names

/-- Whether a list of names can be declared in a spelling: without brackets there must be a name, and the list
must neither begin nor end with a bracket. -/
def Allows (names : List Text) : Spelling → Prop
  | .plain => names ≠ [] ∧ (∀ first ∈ names.head?, first.head? ≠ some '[') ∧
      ∀ last ∈ names.getLast?, last.getLast? ≠ some ']'
  | .bracketed | .block => True

instance (names : List Text) : (spelling : Spelling) → Decidable (spelling.Allows names)
  | .plain => inferInstanceAs (Decidable (_ ∧ _ ∧ _))
  | .bracketed | .block => isTrue trivial

end Spelling

namespace Spellable

variable {name : Text} {names : List Text}

theorem begins (spellable : Spellable name) : name.head?.any Text.isBlank = false :=
  (Text.trim_eq_self_iff.mp spellable.trimmed).1

theorem ends (spellable : Spellable name) : name.getLast?.any Text.isBlank = false :=
  (Text.trim_eq_self_iff.mp spellable.trimmed).2

end Spellable

/-! ## Lists on one line -/

theorem listed_cons (name next : Text) (names : List Text) :
    Text.listed (name :: next :: names) = name ++ ',' :: ' ' :: Text.listed (next :: names) := by
  simp only [Text.listed, List.intercalate_cons_cons, List.append_assoc, List.cons_append, List.nil_append]

private theorem listed_singleton (name : Text) : Text.listed [name] = name := List.intercalate_singleton

private theorem head?_listed {name : Text} (notEmpty : name ≠ []) (names : List Text) :
    (Text.listed (name :: names)).head? = name.head? := by
  obtain ⟨tail, begins⟩ := Text.intercalate_begins [',', ' '] name names
  obtain ⟨c, rest, rfl⟩ := List.exists_cons_of_ne_nil notEmpty
  rw [Text.listed, begins]
  rfl

private theorem getLast?_listed {names : List Text} {last : Text} (final : last ∈ names.getLast?)
    (notEmpty : last ≠ []) :
    (Text.listed names).getLast? = last.getLast? := by
  obtain ⟨before, rfl⟩ := List.getLast?_eq_some_iff.mp final
  obtain ⟨front, whole⟩ := Text.suffix_intercalate [',', ' '] last before
  rw [Text.listed, ← whole, List.getLast?_append_of_ne_nil _ notEmpty]

private theorem commaItems_listed {names : List Text} (spellable : ∀ name ∈ names, Spellable name) :
    Artifact.commaItems (Text.listed names) = names := by
  induction names with
  | nil => rfl
  | cons name rest ih =>
    have first := spellable name List.mem_cons_self
    have later := ih fun other member => spellable other (List.mem_cons_of_mem name member)
    have own : Artifact.commaItems name = [name] := by
      rw [Artifact.commaItems, List.splitOn_eq_singleton first.noComma, List.map_singleton, first.trimmed]
      simp [first.notEmpty]
    cases rest with
    | nil => rw [listed_singleton, own]
    | cons next more =>
      rw [listed_cons, Artifact.commaItems_append, Artifact.commaItems_blank, later, own, List.singleton_append]

/-- A list of names neither begins nor ends with a blank. -/
theorem trim_listed {names : List Text} (spellable : ∀ name ∈ names, Spellable name) :
    Text.trim (Text.listed names) = Text.listed names := by
  cases names with
  | nil => rfl
  | cons name rest =>
    have first := spellable name List.mem_cons_self
    have final : (name :: rest).getLast (List.cons_ne_nil name rest) ∈ (name :: rest).getLast? :=
      List.getLast?_eq_some_getLast _
    have last := spellable _ (List.getLast_mem (List.cons_ne_nil name rest))
    rw [Text.trim_eq_self_iff, head?_listed first.notEmpty, getLast?_listed final last.notEmpty]
    exact ⟨first.begins, last.ends⟩

/-- A list in brackets consists of its names. -/
theorem inlineItems_bracketed {names : List Text} (spellable : ∀ name ∈ names, Spellable name) :
    inlineItems ('[' :: Text.listed names ++ [']']) = names := by
  rw [Artifact.Parts.inlineItems_between, commaItems_listed spellable]

/-- So does a list without brackets that does not look as if it had some. -/
theorem inlineItems_plain {names : List Text} (spellable : ∀ name ∈ names, Spellable name)
    (allowed : Spelling.plain.Allows names) : inlineItems (Text.listed names) = names := by
  obtain ⟨notEmpty, opens, closes⟩ := allowed
  obtain ⟨name, rest, rfl⟩ := List.exists_cons_of_ne_nil notEmpty
  have first := (spellable name List.mem_cons_self).notEmpty
  have final : (name :: rest).getLast notEmpty ∈ (name :: rest).getLast? := List.getLast?_eq_some_getLast _
  have last := (spellable _ (List.getLast_mem notEmpty)).notEmpty
  have notOpened : (Text.listed (name :: rest)).head? ≠ some '[' := by
    rw [head?_listed first]
    exact opens name rfl
  have notClosed : (Text.listed (name :: rest)).getLast? ≠ some ']' := by
    rw [getLast?_listed final last]
    exact closes _ final
  have items := commaItems_listed spellable
  rw [inlineItems, trim_listed spellable, if_neg notOpened, if_neg notClosed]
  exact items

/-! ## The declaration that is read -/

theorem classify_itemLine {name : Text} (spellable : Spellable name) : classify (itemLine name) = .item name := by
  obtain ⟨c, rest, rfl⟩ := List.exists_cons_of_ne_nil spellable.notEmpty
  have solid : Text.isBlank c = false := spellable.begins
  have indented : (itemLine (c :: rest)).span Text.isBlank = ([' ', ' '], '-' :: ' ' :: c :: rest) := rfl
  have spaced : (' ' :: c :: rest).span Text.isBlank = ([' '], c :: rest) := by
    rw [List.span_eq_takeWhile_dropWhile, List.takeWhile_cons_of_pos (by decide), List.dropWhile_cons_of_pos (by decide),
      List.takeWhile_cons_of_neg (by simp [solid]), List.dropWhile_cons_of_neg (by simp [solid])]
  have whole : Text.trimEnd (c :: rest) = c :: rest := by
    have starts : Text.trimStart (c :: rest) = c :: rest := List.dropWhile_cons_of_neg (by simp [solid])
    have trimmed := spellable.trimmed
    rwa [Text.trim, starts] at trimmed
  rw [classify, indented]
  simp only [spaced, whole]

private theorem keyed?_itemLine (name : Text) : Header.keyed? (itemLine name) = none := rfl

private theorem continues_itemLine (name : Text) : continues (itemLine name) = true := by
  have dash : '-' ∈ itemLine name := by simp [itemLine]
  have notEmpty : Text.trim (itemLine name) ≠ [] := List.ne_nil_of_mem (Text.mem_trimOf dash (by decide))
  rw [continues, keyed?_itemLine, decide_eq_true notEmpty]
  rfl

/-- A block of names up to a line that does not belong to it gives the names, and no anomalies. -/
theorem block_eq {names after : List Text} (spellable : ∀ name ∈ names, Spellable name)
    (ended : ∀ line ∈ after.head?, continues line = false) (start : Nat) :
    let block := ((names.map itemLine ++ after).zipIdx start).takeWhile fun line => continues line.1
    block.filterMap itemName? = names ∧ block.filterMap anomaly? = [] := by
  induction names generalizing start with
  | nil =>
    cases after with
    | nil => exact ⟨rfl, rfl⟩
    | cons line more =>
      have stops : continues line = false := ended line rfl
      rw [List.map_nil, List.nil_append, List.zipIdx_cons, List.takeWhile_cons_of_neg (by simp [stops])]
      exact ⟨rfl, rfl⟩
  | cons name names ih =>
    obtain ⟨first, later⟩ := List.forall_mem_cons.mp spellable
    obtain ⟨found, strays⟩ := ih later (start + 1)
    rw [List.map_cons, List.cons_append, List.zipIdx_cons,
      List.takeWhile_cons_of_pos (by simp [continues_itemLine])]
    simp only [List.filterMap_cons, itemName?, anomaly?, classify_itemLine first]
    exact ⟨congrArg _ found, strays⟩

private theorem keyed?_keyLine {key : Text} (declares : key ∈ keys) (value : Text) :
    Header.keyed? (key ++ ':' :: value) = some (key, value) := by
  have allowed : ∀ key ∈ keys, key ≠ [] ∧ ∀ c ∈ key, Header.isKeyCharacter c = true := by decide
  exact Header.keyed?_eq_some_iff.mpr ⟨(allowed key declares).1, (allowed key declares).2, [], by simp, rfl⟩

private theorem value?_keyLine {key : Text} (declares : key ∈ keys) (value : Text) :
    value? (key ++ ':' :: value) = some value := by
  rw [value?, keyed?_keyLine declares]
  exact if_pos declares

/-- In every spelling the names are read as they are, and every line is understood. -/
theorem ofLines_spelled {before after names : List Text} {key : Text} {spelling : Spelling}
    (undeclared : ∀ line ∈ before, value? line = none) (declares : key ∈ keys)
    (spellable : ∀ name ∈ names, Spellable name) (allowed : spelling.Allows names)
    (ended : ∀ line ∈ after.head?, continues line = false) :
    ofLines (before ++ spelling.lines key names ++ after) = ⟨some names, []⟩ := by
  rw [Spelling.lines, List.append_assoc, List.cons_append, ofLines_append undeclared (value?_keyLine declares _)]
  cases spelling with
  | bracketed =>
    have trimmed : Text.trim (Spelling.bracketed.value names) = '[' :: Text.listed names ++ [']'] :=
      Artifact.Parts.trim_bracketed (Text.listed names)
    have notEmpty : '[' :: Text.listed names ++ [']'] ≠ [] := List.cons_ne_nil _ _
    rw [trimmed, if_pos notEmpty, inlineItems_bracketed spellable]
  | block =>
    obtain ⟨found, strays⟩ := block_eq spellable ended (before.length + 2)
    have empty : ¬ Text.trim (Spelling.block.value names) ≠ [] := not_not.mpr rfl
    rw [if_neg empty]
    exact congrArg₂ mk (congrArg some found) strays
  | plain =>
    have trimmed : Text.trim (Spelling.plain.value names) = Text.listed names := trim_listed spellable
    have items := inlineItems_plain spellable allowed
    have notEmpty : Text.listed names ≠ [] := by
      intro empty
      rw [empty] at items
      exact allowed.1 items.symm
    rw [trimmed, if_pos notEmpty, items]

/-! ## Declarations in a document -/

/-- A line that stays as it is between the delimiters of a header. -/
structure Stays (line : Text) : Prop where
  unbroken : '\n' ∉ line
  notDash : line.head? ≠ some '-'
  /-- Nothing is taken off its end. -/
  ends : ∃ front last, line = front ++ [last] ∧ last ≠ '\r'

theorem Stays.withoutReturns {line ending : Text} (stays : Stays line) (returns : ∀ c ∈ ending, c = '\r') :
    Header.withoutReturns (line ++ ending) = line := by
  obtain ⟨front, last, rfl, other⟩ := stays.ends
  have gone : Text.dropEndWhile (· == '\r') ending = [] := by
    rw [Text.dropEndWhile, List.dropWhile_eq_nil_iff.mpr, List.reverse_nil]
    intro c member
    exact beq_iff_eq.mpr (returns c (List.mem_reverse.mp member))
  have kept : (last == '\r') = false := beq_eq_false_iff_ne.mpr other
  have stops : Text.dropEndWhile (· == '\r') (front ++ last :: ending) =
      front ++ last :: Text.dropEndWhile (· == '\r') ending :=
    Text.dropEndWhile_append_cons (c := last) kept front ending
  rw [gone] at stops
  rw [Header.withoutReturns, List.append_assoc]
  exact stops

theorem Stays.isDelimiter {line : Text} (stays : Stays line) (ending : Text) :
    Header.isDelimiter (line ++ ending) = false := by
  refine Header.isDelimiter_eq_false ?_
  obtain ⟨front, last, rfl, -⟩ := stays.ends
  have dash := stays.notDash
  cases front with
  | nil => exact dash
  | cons c front => exact dash

theorem Spellable.last {name : Text} (spellable : Spellable name) : ∃ front last, name = front ++ [last] ∧ last ≠ '\r' := by
  obtain ⟨front, last, whole⟩ := (List.eq_nil_or_concat name).resolve_left spellable.notEmpty
  rw [List.concat_eq_append] at whole
  refine ⟨front, last, whole, ?_⟩
  rintro rfl
  have blank := spellable.ends
  rw [whole, List.getLast?_concat] at blank
  cases blank

private theorem stays_itemLine {name : Text} (spellable : Spellable name) : Stays (itemLine name) where
  unbroken := by simp [itemLine, spellable.noFeed]
  notDash := by simp [itemLine]
  ends := by
    obtain ⟨front, last, rfl, other⟩ := spellable.last
    exact ⟨itemLine front, last, rfl, other⟩

/-- What follows the colon holds no line feed, and no carriage return ends it. -/
theorem stays_keyLine {key : Text} (declares : key ∈ keys) {names : List Text}
    (spellable : ∀ name ∈ names, Spellable name) {spelling : Spelling} (allowed : spelling.Allows names) :
    Stays (key ++ ':' :: spelling.value names) := by
  have unbroken : '\n' ∉ Text.listed names :=
    Artifact.Parts.not_mem_listed fun name member => (spellable name member).noFeed
  have plain : ∀ key ∈ keys, key ≠ [] ∧ '\n' ∉ key ∧ key.head? ≠ some '-' := by decide
  obtain ⟨notEmpty, ownLine, notDash⟩ := plain key declares
  refine ⟨?_, ?_, ?_⟩
  · cases spelling <;> simp [Spelling.value, unbroken, ownLine]
  · obtain ⟨c, rest, rfl⟩ := List.exists_cons_of_ne_nil notEmpty
    exact notDash
  · cases spelling with
    | bracketed => exact ⟨key ++ ':' :: ' ' :: '[' :: Text.listed names, ']', by simp [Spelling.value], by decide⟩
    | block => exact ⟨key, ':', rfl, by decide⟩
    | plain =>
      have final : names.getLast allowed.1 ∈ names.getLast? := List.getLast?_eq_some_getLast _
      obtain ⟨before, whole⟩ := List.getLast?_eq_some_iff.mp final
      obtain ⟨front, listed⟩ := Text.suffix_intercalate [',', ' '] (names.getLast allowed.1) before
      obtain ⟨inner, last, name, other⟩ := (spellable _ (List.getLast_mem allowed.1)).last
      refine ⟨key ++ ':' :: ' ' :: (front ++ inner), last, ?_, other⟩
      rw [← whole, name] at listed
      simp [Spelling.value, Text.listed, ← listed]

private theorem Spelling.stays_lines {key : Text} (declares : key ∈ keys) {names : List Text}
    (spellable : ∀ name ∈ names, Spellable name) {spelling : Spelling} (allowed : spelling.Allows names) :
    ∀ line ∈ spelling.lines key names, Stays line := by
  intro line member
  rcases List.mem_cons.mp member with rfl | below
  · exact stays_keyLine declares spellable allowed
  · cases spelling with
    | bracketed | plain => cases below
    | block =>
      obtain ⟨name, listed, rfl⟩ := List.mem_map.mp below
      exact stays_itemLine (spellable name listed)

/-- The keys of declarations are the only ones on the lines of a declaration. -/
theorem Spelling.mem_keys_of_field? {key : Text} (declares : key ∈ keys) {names : List Text} {spelling : Spelling}
    {line : Text} (member : line ∈ spelling.lines key names) {entry : Text × Text}
    (found : Header.field? line = some entry) : entry.1 ∈ keys := by
  rcases List.mem_cons.mp member with rfl | below
  · rw [Header.field?, keyed?_keyLine declares, Option.map_some] at found
    exact Option.some.inj found ▸ declares
  · cases spelling with
    | bracketed | plain => cases below
    | block =>
      obtain ⟨name, -, rfl⟩ := List.mem_map.mp below
      cases found

end ToolDeclaration

/-- What stands around a declaration in a document. -/
structure Setting where
  opening : Text
  before : List Text
  /-- The carriage returns at the ends of the lines of the declaration. -/
  ending : Text
  after : List Text
  closing : Text
  rest : List Text
  opens : Header.isDelimiter opening = true
  closes : Header.isDelimiter closing = true
  inner : ∀ line ∈ before ++ after, Header.isDelimiter line = false
  unbroken : ∀ line ∈ opening :: (before ++ after ++ closing :: rest), '\n' ∉ line
  returns : ∀ c ∈ ending, c = '\r'
  /-- No tools are declared before the declaration. -/
  undeclared : ∀ line ∈ before, ToolDeclaration.value? line = none
  /-- A blank line or a line with a key comes after the declaration, if any. -/
  ended : ∀ line ∈ after.head?, ToolDeclaration.continues line = false

namespace Setting

open ToolDeclaration

variable (setting : Setting)

/-- The document in which the lines of a declaration stand in their setting. -/
def document (declaration : List Text) : Text :=
  Text.joinLines (setting.opening :: ((setting.before ++ declaration.map (· ++ setting.ending) ++ setting.after) ++
    setting.closing :: setting.rest))

variable {setting : Setting} {declaration names : List Text} {key : Text} {spelling : Spelling}

/-- All lines of a document are lines. -/
theorem unbroken_document (stays : ∀ line ∈ declaration, Stays line) :
    ∀ line ∈ setting.opening :: ((setting.before ++ declaration.map (· ++ setting.ending) ++ setting.after) ++
      setting.closing :: setting.rest), '\n' ∉ line := by
  have declared : ∀ line ∈ declaration.map (· ++ setting.ending), '\n' ∉ line := by
    intro line member feed
    obtain ⟨plain, listed, rfl⟩ := List.mem_map.mp member
    rcases List.mem_append.mp feed with here | last
    · exact (stays plain listed).unbroken here
    · exact absurd (setting.returns _ last) (by decide)
  have unbroken := setting.unbroken
  simp only [List.forall_mem_append, List.forall_mem_cons] at unbroken ⊢
  exact ⟨unbroken.1, ⟨⟨unbroken.2.1.1, declared⟩, unbroken.2.1.2⟩, unbroken.2.2⟩

/-- The declaration stands in the header as it is. -/
theorem split?_document (stays : ∀ line ∈ declaration, Stays line) :
    Header.split? (setting.document declaration) =
      some (setting.before.map Header.withoutReturns ++ declaration ++ setting.after.map Header.withoutReturns,
        Text.joinLines setting.rest) := by
  have declared : ∀ line ∈ declaration.map (· ++ setting.ending), Header.isDelimiter line = false := by
    intro line member
    obtain ⟨plain, listed, rfl⟩ := List.mem_map.mp member
    exact (stays plain listed).isDelimiter setting.ending
  have kept : (declaration.map (· ++ setting.ending)).map Header.withoutReturns = declaration := by
    rw [List.map_map]
    exact (List.map_congr_left fun line member => (stays line member).withoutReturns setting.returns).trans
      (List.map_id declaration)
  have inner := setting.inner
  rw [document, Header.split?_joinLines setting.opens setting.closes _ (unbroken_document stays), List.map_append,
    List.map_append, kept]
  simp only [List.forall_mem_append] at inner ⊢
  exact ⟨⟨inner.1, declared⟩, inner.2⟩

/-- The tools are the names, whatever the spelling. -/
theorem ofText_document (setting : Setting) (declares : key ∈ keys) (spellable : ∀ name ∈ names, Spellable name)
    (allowed : spelling.Allows names) :
    ToolDeclaration.ofText (setting.document (spelling.lines key names)) = ⟨some names, []⟩ := by
  have undeclared : ∀ line ∈ setting.before.map Header.withoutReturns, value? line = none := by
    rintro line member
    obtain ⟨raw, listed, rfl⟩ := List.mem_map.mp member
    exact value?_withoutReturns (setting.undeclared raw listed)
  have ended : ∀ line ∈ (setting.after.map Header.withoutReturns).head?, continues line = false := by
    rw [List.head?_map]
    rintro line member
    obtain ⟨raw, first, rfl⟩ := Option.map_eq_some_iff.mp member
    exact continues_withoutReturns (setting.ended raw first)
  rw [ToolDeclaration.ofText, split?_document (Spelling.stays_lines declares spellable allowed)]
  exact ofLines_spelled undeclared declares spellable allowed ended

/-- The body is what follows the header. -/
theorem body_document (stays : ∀ line ∈ declaration, Stays line) :
    (Header.parts (setting.document declaration)).body = Text.trimStart (Text.joinLines setting.rest) := by
  rw [Header.parts, split?_document stays]

/-- A declaration has no part in the other fields. -/
theorem get?_document (stays : ∀ line ∈ declaration, Stays line)
    (own : ∀ line ∈ declaration, ∀ entry, Header.field? line = some entry → entry.1 ∈ keys) {key : Text}
    (other : key ∉ keys) :
    (Header.parts (setting.document declaration)).fields.get? key =
      (OrderedMap.ofList ((setting.before.map Header.withoutReturns ++
        setting.after.map Header.withoutReturns).filterMap Header.field?)).get? key := by
  have passed : (declaration.filterMap Header.field?).filter (fun entry => entry.1 = key) = [] := by
    rw [List.filter_eq_nil_iff]
    intro entry member same
    obtain ⟨line, listed, found⟩ := List.mem_filterMap.mp member
    exact other (of_decide_eq_true same ▸ own line listed entry found)
  rw [Header.parts, split?_document stays, ← OrderedMap.get?_ofList_filter]
  simp only [List.filterMap_append, List.filter_append, passed, List.append_nil]
  rw [← List.filter_append, ← List.filterMap_append, OrderedMap.get?_ofList_filter, List.filterMap_append]

/-- The line ending of a document is the same for all declarations. -/
theorem detect_document (stays : ∀ line ∈ declaration, Stays line)
    (notEmpty : declaration ≠ []) :
    LineEnding.detect (setting.document declaration) =
      if setting.ending ≠ [] ∨ ∃ line ∈ setting.opening :: (setting.before ++ setting.after ++
        (setting.closing :: setting.rest).dropLast), line.getLast? = some '\r' then .crlf else .lf := by
  have declared : (∃ line ∈ declaration.map (· ++ setting.ending), line.getLast? = some '\r') ↔ setting.ending ≠ [] := by
    constructor
    · rintro ⟨line, member, returned⟩ empty
      obtain ⟨plain, listed, rfl⟩ := List.mem_map.mp member
      obtain ⟨front, last, rfl, other⟩ := (stays plain listed).ends
      rw [empty, List.append_nil, List.getLast?_concat] at returned
      exact other (Option.some.inj returned)
    · intro returned
      obtain ⟨line, more, rfl⟩ := List.exists_cons_of_ne_nil notEmpty
      refine ⟨line ++ setting.ending, List.mem_cons_self, ?_⟩
      rw [List.getLast?_append_of_ne_nil _ returned, List.getLast?_eq_some_getLast returned,
        setting.returns _ (List.getLast_mem returned)]
  have notLast : setting.closing :: setting.rest ≠ [] := List.cons_ne_nil _ _
  rw [document, LineEnding.detect_joinLines (unbroken_document stays), List.dropLast_cons_of_ne_nil (by simp),
    List.dropLast_append_of_ne_nil notLast]
  refine if_congr ?_ rfl rfl
  rw [← declared]
  simp only [List.mem_cons, List.mem_append, or_and_right, exists_or]
  simp only [or_left_comm, or_assoc]

/-- Documents that differ in the spelling of a declaration only compile alike, and the names are the tools they
declare. -/
theorem compile_spelled (project : Project) (path : Path) (tally : Tally) (setting : Setting) {names : List Text}
    (spellable : ∀ name ∈ names, Spellable name) {key key' : Text} (declares : key ∈ keys) (declares' : key' ∈ keys)
    {spelling spelling' : Spelling} (allowed : spelling.Allows names) (allowed' : spelling'.Allows names) :
    project.compile path (setting.document (spelling'.lines key' names)) tally =
        { project.compile path (setting.document (spelling.lines key names)) tally with
          source := setting.document (spelling'.lines key' names)
          fields := (Header.parts (setting.document (spelling'.lines key' names))).fields } ∧
      (project.compile path (setting.document (spelling.lines key names)) tally).declared = some names := by
  have stays := Spelling.stays_lines declares spellable allowed
  have stays' := Spelling.stays_lines declares' spellable allowed'
  have tools := ofText_document setting declares spellable allowed
  have tools' := ofText_document setting declares' spellable allowed'
  -- The fields under the keys of declarations differ, but they are not among those that are looked at.
  have apart : ∀ field ∈ Draft.fieldKeys, field ∉ keys := by decide
  refine ⟨project.compile_withHeader path tally ?_ ?_ (tools'.trans tools.symm) fun field member => ?_, ?_⟩
  · rw [body_document stays, body_document stays']
  · rw [detect_document stays (List.cons_ne_nil _ _), detect_document stays' (List.cons_ne_nil _ _)]
  · rw [get?_document stays (fun _ listed _ => Spelling.mem_keys_of_field? declares listed) (apart field member),
      get?_document stays' (fun _ listed _ => Spelling.mem_keys_of_field? declares' listed) (apart field member)]
  · exact (project.compile_declared path _ tally).trans (congrArg ToolDeclaration.names tools)

/-- A declaration among lines that look like parts of it. -/
def sample : Setting where
  opening := "--- \r".toList
  before := ["  - Zap\r".toList, "tools - none: x".toList]
  ending := "\r".toList
  after := ["\t\r".toList, "  - Zip".toList, "tools: Other\r".toList]
  closing := "---\t".toList
  rest := ["\r".toList, "@include x".toList]
  opens := by decide
  closes := by decide
  inner := by decide
  unbroken := by decide
  returns := by decide
  undeclared := by decide
  ended := by decide

/-- Names that hold the marks of lists and keys. -/
def sampleNames : List Text := ["- a".toList, "[b: 'c".toList, "d]e".toList]

theorem compile_spelled_sample :
    (∀ name ∈ sampleNames, Spellable name) ∧ "allowed-tools".toList ∈ keys ∧ "tools".toList ∈ keys ∧
      Spelling.plain.Allows sampleNames ∧ Spelling.block.Allows sampleNames ∧
      (⟨.empty, ⟨.root, []⟩, .empty⟩ : Project).compile ⟨.root, []⟩
          (sample.document (Spelling.block.lines "tools".toList sampleNames)) .empty =
        { (⟨.empty, ⟨.root, []⟩, .empty⟩ : Project).compile ⟨.root, []⟩
            (sample.document (Spelling.plain.lines "allowed-tools".toList sampleNames)) .empty with
          source := sample.document (Spelling.block.lines "tools".toList sampleNames)
          fields := (Header.parts (sample.document (Spelling.block.lines "tools".toList sampleNames))).fields } ∧
      ((⟨.empty, ⟨.root, []⟩, .empty⟩ : Project).compile ⟨.root, []⟩
        (sample.document (Spelling.plain.lines "allowed-tools".toList sampleNames)) .empty).declared =
          some sampleNames := by
  have spellable : ∀ name ∈ sampleNames, Spellable name := by decide
  have declares : "allowed-tools".toList ∈ keys := by decide
  have declares' : "tools".toList ∈ keys := by decide
  have allowed : Spelling.plain.Allows sampleNames := by decide
  have allowed' : Spelling.block.Allows sampleNames := by decide
  exact ⟨spellable, declares, declares', allowed, allowed',
    compile_spelled ⟨.empty, ⟨.root, []⟩, .empty⟩ ⟨.root, []⟩ .empty sample spellable declares declares' allowed allowed'⟩

end Setting

end PromptCompiler
