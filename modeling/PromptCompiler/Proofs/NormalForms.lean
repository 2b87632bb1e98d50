import PromptCompiler.Path.RootRelative
import PromptCompiler.Proofs.RelativePaths

/-! # Normal forms of root-relative paths

A root-relative path that is accepted is brought into a normal form: names with a slash between two of them, none of
which leaves a directory. The paths that are accepted and left as they are, are the normal forms without a drive
(`normalize_eq_self_iff`). But a drive is looked for before segments are left out. A path whose drive comes to the
front only then is accepted, and its normal form, which begins with the drive, is not.
-/

namespace PromptCompiler.RootRelative

variable {allowBackslashes : Bool} {text normal : Text}

/-! ## What is accepted -/

/-- A path with its backslashes read as slashes. -/
def slashed (text : Text) : Text := Text.substitute '\\' '/' text

/-- A path begins with a drive: its second character is a colon. -/
def HasDrive (text : Text) : Prop := text[1]? = some ':'

instance : Decidable (HasDrive text) := inferInstanceAs (Decidable (text[1]? = some ':'))

/-- What a path needs to be accepted. -/
structure Accepted (allowBackslashes : Bool) (text : Text) : Prop where
  notEmpty : text ≠ []
  /-- It has no character that ends paths in the system. -/
  noNul : '\x00' ∉ text
  /-- It has backslashes only where they are allowed. -/
  separated : '\\' ∈ text → allowBackslashes = true
  relative : (slashed text).head? ≠ some '/'
  /-- It does not begin with a drive. -/
  noDrive : ¬ HasDrive (slashed text)
  /-- It names something. -/
  named : pieces (slashed text) ≠ []
  /-- It does not leave a directory. -/
  inward : ['.', '.'] ∉ pieces (slashed text)

theorem isPrefixOf_slash_iff : ['/'].isPrefixOf text = true ↔ text.head? = some '/' := by
  cases text with
  | nil => exact iff_of_false Bool.false_ne_true nofun
  | cons c rest =>
    rw [List.isPrefixOf_cons_cons, List.isPrefixOf_nil_left, Bool.and_true, beq_iff_eq, List.head?_cons, Option.some.injEq]
    exact eq_comm

theorem ofSlashed_eq_ok_iff : ofSlashed text = .ok normal ↔
    text.head? ≠ some '/' ∧ ¬ HasDrive text ∧ pieces text ≠ [] ∧ ['.', '.'] ∉ pieces text ∧
      normal = ['/'].intercalate (pieces text) := by
  rw [ofSlashed, ne_eq, ← isPrefixOf_slash_iff, HasDrive]
  split_ifs with absolute drive empty parent
  · exact iff_of_false nofun fun accepted => accepted.1 absolute
  · exact iff_of_false nofun fun accepted => accepted.2.1 drive
  · exact iff_of_false nofun fun accepted => accepted.2.2.1 empty
  · exact iff_of_false nofun fun accepted => accepted.2.2.2.1 parent
  · simp [absolute, drive, empty, parent, eq_comm]

theorem normalize_eq_ok_iff : normalize allowBackslashes text = .ok normal ↔
    Accepted allowBackslashes text ∧ normal = ['/'].intercalate (pieces (slashed text)) := by
  rw [normalize, ← slashed]
  split_ifs with empty nul backslash
  · exact iff_of_false nofun fun accepted => accepted.1.notEmpty empty
  · exact iff_of_false nofun fun accepted => accepted.1.noNul nul
  · rw [Bool.and_eq_true, decide_eq_true_iff, Bool.not_eq_true'] at backslash
    refine iff_of_false nofun fun accepted => ?_
    have allowed := accepted.1.separated backslash.1
    rw [backslash.2] at allowed
    cases allowed
  · have separated : '\\' ∈ text → allowBackslashes = true := by simpa using backslash
    rw [ofSlashed_eq_ok_iff]
    constructor
    · rintro ⟨relative, noDrive, named, inward, rfl⟩
      exact ⟨⟨empty, nul, separated, relative, noDrive, named, inward⟩, rfl⟩
    · rintro ⟨accepted, rfl⟩
      exact ⟨accepted.relative, accepted.noDrive, accepted.named, accepted.inward, rfl⟩

/-! ## Normal forms -/

/-- A root-relative path in normal form. -/
structure IsNormal (text : Text) : Prop where
  notEmpty : text ≠ []
  relative : text.head? ≠ some '/'
  /-- It has no character that ends paths in the system. -/
  noNul : '\x00' ∉ text
  noBackslash : '\\' ∉ text
  /-- No segment between slashes is empty, a dot or two dots. -/
  proper : ∀ segment ∈ text.splitOn '/', segment ≠ [] ∧ segment ≠ ['.'] ∧ segment ≠ ['.', '.']

theorem mem_pieces_iff {piece : Text} : piece ∈ pieces text ↔ piece ∈ text.splitOn '/' ∧ piece ≠ [] ∧ piece ≠ ['.'] := by
  rw [pieces, List.mem_filter, Bool.and_eq_true, decide_eq_true_iff, decide_eq_true_iff]

private theorem mem_slashed {c : Char} (member : c ∈ slashed text) : c ≠ '\\' ∧ (c = '/' ∨ c ∈ text) := by
  obtain ⟨d, inside, rfl⟩ := List.mem_map.mp member
  split
  · exact ⟨by decide, .inl rfl⟩
  · rename_i other
    exact ⟨other, .inr inside⟩

/-- The pieces of an accepted path are names. -/
theorem Accepted.exists_names (accepted : Accepted allowBackslashes text) :
    ∃ names : List Name, names ≠ [] ∧ names.map Name.text = pieces (slashed text) := by
  have proper (piece : Text) (member : piece ∈ pieces (slashed text)) :
      piece ≠ [] ∧ piece ≠ ['.'] ∧ piece ≠ ['.', '.'] ∧ '/' ∉ piece := by
    obtain ⟨listed, notEmpty, notDot⟩ := mem_pieces_iff.mp member
    exact ⟨notEmpty, notDot, fun parent => accepted.inward (parent ▸ member), Text.notMem_of_mem_splitOn listed⟩
  have spelled : ((pieces (slashed text)).attach.map fun piece => (⟨piece.1, proper piece.1 piece.2⟩ : Name)).map
      Name.text = pieces (slashed text) := by
    rw [List.map_map]
    exact List.attach_map_subtype_val _
  refine ⟨_, fun empty => accepted.named ?_, spelled⟩
  rw [← spelled, empty]
  rfl

private theorem Accepted.isNormal (accepted : Accepted allowBackslashes text) :
    IsNormal (['/'].intercalate (pieces (slashed text))) := by
  obtain ⟨names, notEmpty, spelled⟩ := accepted.exists_names
  obtain ⟨c, rest, begins, noSlash⟩ := Name.joined_begins notEmpty
  have segments := Name.splitOn_joined notEmpty
  have characters {c : Char} (member : c ∈ Name.joined names) : c ≠ '\\' ∧ (c = '/' ∨ c ∈ text) := by
    rw [Name.joined, spelled] at member
    rcases Text.mem_of_mem_intercalate member with between | ⟨piece, listed, inside⟩
    · obtain rfl := List.mem_singleton.mp between
      exact ⟨by decide, .inl rfl⟩
    · exact mem_slashed (Text.mem_of_mem_splitOn (mem_pieces_iff.mp listed).1 inside)
  rw [← spelled, ← Name.joined]
  refine ⟨?_, ?_, fun nul => ?_, fun backslash => (characters backslash).1 rfl, fun segment member => ?_⟩
  · rw [begins]
    exact List.cons_ne_nil _ _
  · rw [begins]
    exact fun slash => noSlash (Option.some.inj slash)
  · rcases (characters nul).2 with slash | inside
    · cases slash
    · exact accepted.noNul inside
  · rw [segments] at member
    obtain ⟨name, -, rfl⟩ := List.mem_map.mp member
    exact ⟨name.proper.1, name.proper.2.1, name.proper.2.2.1⟩

namespace IsNormal

private theorem slashed_eq (isNormal : IsNormal text) : slashed text = text := by
  have other : ∀ c ∈ text, c ≠ '\\' := by
    rintro c member rfl
    exact isNormal.noBackslash member
  exact (List.map_congr_left fun c member => if_neg (other c member)).trans (List.map_id text)

private theorem pieces_eq (isNormal : IsNormal text) : pieces text = text.splitOn '/' := by
  rw [pieces, List.filter_eq_self]
  intro segment member
  obtain ⟨notEmpty, notDot, -⟩ := isNormal.proper segment member
  simp [notEmpty, notDot]

/-- A normal form without a drive is accepted, whether or not backslashes are allowed. -/
theorem accepted (isNormal : IsNormal text) (noDrive : ¬ HasDrive text) (allowBackslashes : Bool) :
    Accepted allowBackslashes text where
  notEmpty := isNormal.notEmpty
  noNul := isNormal.noNul
  separated := fun backslash => absurd backslash isNormal.noBackslash
  relative := by
    rw [isNormal.slashed_eq]
    exact isNormal.relative
  noDrive := by rwa [isNormal.slashed_eq]
  named := by
    rw [isNormal.slashed_eq, isNormal.pieces_eq]
    exact List.splitOn_ne_nil '/' text
  inward := by
    rw [isNormal.slashed_eq, isNormal.pieces_eq]
    exact fun parent => (isNormal.proper _ parent).2.2 rfl

private theorem normalize_eq_self (isNormal : IsNormal text) (noDrive : ¬ HasDrive text) (allowBackslashes : Bool) :
    normalize allowBackslashes text = .ok text := by
  refine normalize_eq_ok_iff.mpr ⟨isNormal.accepted noDrive allowBackslashes, ?_⟩
  rw [isNormal.slashed_eq, isNormal.pieces_eq]
  exact (List.intercalate_splitOn '/').symm

/-- A normal form with a drive is refused for its drive. -/
theorem normalize_eq_error (isNormal : IsNormal text) (drive : HasDrive text) (allowBackslashes : Bool) :
    normalize allowBackslashes text = .error .drive := by
  have separated : ¬ ('\\' ∈ text && !allowBackslashes) = true := by simp [isNormal.noBackslash]
  have relative : ¬ ['/'].isPrefixOf text = true := fun slash => isNormal.relative (isPrefixOf_slash_iff.mp slash)
  rw [normalize, if_neg isNormal.notEmpty, if_neg isNormal.noNul, if_neg separated, ← slashed, isNormal.slashed_eq,
    ofSlashed, if_neg relative]
  exact if_pos drive

end IsNormal

/-- The paths that are accepted and left as they are. -/
theorem normalize_eq_self_iff : normalize allowBackslashes text = .ok text ↔ IsNormal text ∧ ¬ HasDrive text := by
  constructor
  · intro known
    obtain ⟨accepted, same⟩ := normalize_eq_ok_iff.mp known
    have isNormal : IsNormal text := same ▸ accepted.isNormal
    refine ⟨isNormal, fun drive => ?_⟩
    rw [isNormal.normalize_eq_error drive] at known
    cases known
  · rintro ⟨isNormal, noDrive⟩
    exact isNormal.normalize_eq_self noDrive allowBackslashes

/-! ## Drives that come to the front -/

/-- A path hides a drive: the first segment that names something begins with a drive. -/
def HidesDrive (text : Text) : Prop :=
  ∃ skipped drive later, (slashed text).splitOn '/' = skipped ++ drive :: later ∧
    (∀ segment ∈ skipped, segment = [] ∨ segment = ['.']) ∧ HasDrive drive

/-- Segments begin with a drive if the first of them does: a colon after it would have a slash before it. -/
theorem hasDrive_intercalate {first : Text} (notEmpty : first ≠ []) (later : List Text) :
    HasDrive (['/'].intercalate (first :: later)) ↔ HasDrive first := by
  cases first with
  | nil => exact absurd rfl notEmpty
  | cons c rest =>
    cases later with
    | nil => rw [List.intercalate_singleton]
    | cons next more =>
      rw [List.intercalate_cons_cons]
      cases rest <;> simp [HasDrive]

theorem hidesDrive_iff : HidesDrive text ↔ ∃ drive, (pieces (slashed text)).head? = some drive ∧ HasDrive drive := by
  simp only [pieces, List.head?_filter, List.find?_eq_some_iff_append, HidesDrive]
  constructor
  · rintro ⟨skipped, drive, later, segments, nameless, hasDrive⟩
    refine ⟨drive, ⟨?_, skipped, later, segments, fun segment member => ?_⟩, hasDrive⟩
    · have notEmpty : drive ≠ [] := by
        rintro rfl
        cases hasDrive
      have notDot : drive ≠ ['.'] := by
        rintro rfl
        cases hasDrive
      simp [notEmpty, notDot]
    · rcases nameless segment member with rfl | rfl <;> rfl
  · rintro ⟨drive, ⟨-, skipped, later, segments, nameless⟩, hasDrive⟩
    refine ⟨skipped, drive, later, segments, fun segment member => ?_, hasDrive⟩
    have left := nameless segment member
    by_contra named
    rw [not_or] at named
    simp [named] at left

theorem Accepted.hasDrive_iff (accepted : Accepted allowBackslashes text) :
    HasDrive (['/'].intercalate (pieces (slashed text))) ↔ HidesDrive text := by
  obtain ⟨first, later, listed⟩ := List.exists_cons_of_ne_nil accepted.named
  have notEmpty : first ≠ [] := (mem_pieces_iff.mp (listed ▸ List.mem_cons_self)).2.1
  rw [hidesDrive_iff, listed, hasDrive_intercalate notEmpty]
  simp

/-- The normal form of an accepted path is in normal form. It has no drive, and is accepted and left as it is, exactly if
the path hides no drive; the normal form of a path that hides one is refused for it. -/
theorem normalize_again_iff (known : normalize allowBackslashes text = .ok normal) :
    IsNormal normal ∧
      ((¬ HasDrive normal ∧ ∀ allowed, normalize allowed normal = .ok normal) ↔ ¬ HidesDrive text) ∧
      (HidesDrive text → ∀ allowed, normalize allowed normal = .error .drive) := by
  obtain ⟨accepted, rfl⟩ := normalize_eq_ok_iff.mp known
  have isNormal := accepted.isNormal
  refine ⟨isNormal, ?_, fun hidden => isNormal.normalize_eq_error (accepted.hasDrive_iff.mpr hidden)⟩
  rw [← accepted.hasDrive_iff]
  constructor
  · exact fun again => again.1
  · exact fun noDrive => ⟨noDrive, isNormal.normalize_eq_self noDrive⟩

theorem normalize_again_iff_sample :
    normalize true ".\\.github//./a:b/".toList = .ok ".github/a:b".toList ∧ ¬ HidesDrive ".\\.github//./a:b/".toList ∧
      IsNormal ".github/a:b".toList ∧ ¬ HasDrive ".github/a:b".toList ∧
      normalize false ".github/a:b".toList = .ok ".github/a:b".toList := by
  have known : normalize true ".\\.github//./a:b/".toList = .ok ".github/a:b".toList := rfl
  have first : (pieces (slashed ".\\.github//./a:b/".toList)).head? = some ".github".toList := by decide
  have plain : ¬ HidesDrive ".\\.github//./a:b/".toList := by
    rw [hidesDrive_iff, first]
    rintro ⟨drive, same, hasDrive⟩
    cases same
    revert hasDrive
    decide
  obtain ⟨isNormal, again, -⟩ := normalize_again_iff known
  obtain ⟨noDrive, fixed⟩ := again.mpr plain
  exact ⟨known, plain, isNormal, noDrive, fixed false⟩

/-- A dot before a drive hides it: the path is accepted, though what it is brought into begins with a drive and is
refused. -/
theorem normalize_hidden_drive :
    normalize false "./C:/x".toList = .ok "C:/x".toList ∧ HasDrive "C:/x".toList ∧
      normalize false "C:/x".toList = .error .drive := by
  refine ⟨rfl, by decide, rfl⟩

end PromptCompiler.RootRelative
