import PromptCompiler.Proofs.Confinement
import PromptCompiler.Proofs.DeadEnds

/-! # Entries that get another name

An entry that gets another name in its directory is found there as it was found before. A file is, and a link
leads where it led, if the way does not end at the new name: the link's target is followed from the same
directory, and a way that ends never goes through the link that it follows. That nothing goes on through the entry
is needed for the paths to its directory, which could lead elsewhere otherwise.
-/

namespace PromptCompiler.FileTree

variable {tree small big before after : FileTree} {budget : Nat} {here outer place goal other : Location}
  {old new : Name} {entry : Entry} {path : Path} {steps : List Step}

/-! ## Walks that end anywhere -/

/-- Links are followed to the end. -/
theorem not_holdsLink_of_walkWithin (opens : tree.Opens here)
    (walked : tree.walkWithin true budget here steps = .ok place) : ¬ tree.HoldsLink place := by
  induction budget generalizing here steps with
  | zero => cases walked
  | succ budget ih =>
    rw [walkWithin_succ] at walked
    induction steps generalizing here with
    | nil =>
      cases walked
      exact fun link => link.ne_directory opens.directory
    | cons step rest ihSteps =>
      cases step with
      | up => exact ihSteps opens.tail walked
      | into name =>
        obtain ⟨-, ⟨passed, onward⟩ | ⟨target, -, -, jumped⟩ | ⟨-, rfl, -, noLink⟩⟩ := walk_into_ok walked
        · exact ihSteps (opens.cons passed) onward
        · exact ih (opens.linkStart target) (walkWithin_of_jumpWithin jumped)
        · exact noLink rfl

theorem Embeds.locate_end (embeds : Embeds small big) (located : small.locate true path = .ok place)
    (noLink : ¬ big.HoldsLink place) (same : big.isDirectoryAt place = small.isDirectoryAt place) :
    big.locate true path = .ok place := by
  obtain ⟨noNul, walked⟩ := locate_eq_ok_iff_walkWithin.mp located
  exact locate_eq_ok_iff_walkWithin.mpr ⟨noNul, embeds.walkWithin_end walked noLink same⟩

theorem not_holdsLink_of_locate (located : tree.locate true path = .ok place) : ¬ tree.HoldsLink place :=
  not_holdsLink_of_walkWithin (opens_root tree) (locate_eq_ok_iff_walkWithin.mp located).2

/-- Files have no part in where paths lead. -/
theorem locate_iff_of_embeds (onward : Embeds small big) (back : Embeds big small) :
    small.locate true path = .ok place ↔ big.locate true path = .ok place := by
  have links : small.HoldsLink place ↔ big.HoldsLink place :=
    ⟨fun ⟨target, link⟩ => ⟨target, onward.links place target link⟩,
      fun ⟨target, link⟩ => ⟨target, back.links place target link⟩⟩
  have directories : big.isDirectoryAt place = small.isDirectoryAt place := by
    rw [Bool.eq_iff_iff, isDirectoryAt_iff, isDirectoryAt_iff]
    exact ⟨back.directories place, onward.directories place⟩
  constructor
  · exact fun located => onward.locate_end located (links.not.mp (not_holdsLink_of_locate located)) directories
  · exact fun located => back.locate_end located (links.not.mpr (not_holdsLink_of_locate located)) directories.symm

theorem embeds_of_set_file (tree : FileTree) (place : Location) (content : ByteArray) :
    Embeds (tree.set place (.file content)) tree where
  directories := by
    intro other found
    rw [get?_set] at found
    split at found
    · cases found
    · exact found
  links := by
    intro other target found
    rw [get?_set] at found
    split at found
    · cases found
    · exact found

theorem Embeds.erase (embeds : Embeds small big) (other : Location) : Embeds (small.erase other) (big.erase other) where
  directories := by
    intro place found
    rw [get?_erase] at found ⊢
    split at found
    · cases found
    · rename_i apart
      rw [if_neg apart, embeds.directories place found]
  links := by
    intro place target found
    rw [get?_erase] at found ⊢
    split at found
    · cases found
    · rename_i apart
      rw [if_neg apart, embeds.links place target found]

/-- The way to where a link leads does not go through the link. -/
theorem walkWithin_target {target : Text} (link : tree.get? other = some (.link target))
    (opens : tree.Opens other.tail)
    (walked : tree.walkWithin true budget (Location.linkStart other.tail target) (stepsOf target) = .ok place) :
    (tree.erase other).walkWithin true budget (Location.linkStart other.tail target) (stepsOf target) = .ok place := by
  classical
  have reaching : ∃ least, tree.walkWithin true least (Location.linkStart other.tail target) (stepsOf target) = .ok place :=
    ⟨budget, walked⟩
  have few : Nat.find reaching ≤ budget := Nat.find_min' reaching walked
  -- With as few links as possible, none is left for following the link itself.
  refine walkWithin_mono few (walkWithin_erase (by simp [link]) le_rfl ?_ (opens.linkStart target) (Nat.find_spec reaching))
  intro target' link' _ less fewer rest again
  cases Option.some.inj (link.symm.trans link')
  by_cases last : rest = []
  · rw [last, List.append_nil] at again
    exact Nat.find_min reaching fewer again
  · obtain ⟨middle, reached, -⟩ := walkWithin_append (opens.linkStart target) last again
    obtain rfl := walkWithin_unique reached walked
    exact Nat.find_min reaching fewer reached

/-! ## Another name in the same directory -/

/-- Whether an entry of a directory has got another name there, and all else is as it was. -/
structure Renames (before after : FileTree) (outer : Location) (old new : Name) (entry : Entry) : Prop where
  there : before.get? (old :: outer) = some entry
  free : before.get? (new :: outer) = none
  moved : after.get? (new :: outer) = some entry
  gone : after.get? (old :: outer) = none
  kept : ∀ place, place ≠ old :: outer → place ≠ new :: outer → after.get? place = before.get? place

namespace Renames

theorem symm (renames : Renames before after outer old new entry) : Renames after before outer new old entry where
  there := renames.moved
  free := renames.gone
  moved := renames.there
  gone := renames.free
  kept := fun place apart apart' => (renames.kept place apart' apart).symm

/-- What is neither the entry nor a free place is as it was. -/
theorem get?_eq (renames : Renames before after outer old new entry) (apart : place ≠ old :: outer)
    (present : before.get? place ≠ none) : after.get? place = before.get? place := by
  refine renames.kept place apart ?_
  rintro rfl
  exact present renames.free

theorem embeds (renames : Renames before after outer old new entry) : Embeds (before.erase (old :: outer)) after := by
  have kept {place : Location} {found : Entry} (there : (before.erase (old :: outer)).get? place = some found) :
      after.get? place = some found := by
    rw [get?_erase] at there
    split at there
    · cases there
    · rename_i apart
      rw [renames.get?_eq (fun same => apart ⟨same, List.cons_ne_nil _ _⟩) (by simp [there]), there]
  exact ⟨fun _ => kept, fun _ _ => kept⟩

/-- Under its other name the entry leads to no directory either. -/
theorem deadEnd (renames : Renames before after outer old new entry) (opens : after.Opens outer)
    (dead : before.DeadEnd (old :: outer)) : after.DeadEnd (new :: outer) where
  notDirectory := by
    rw [renames.moved, ← renames.there]
    exact dead.notDirectory
  target := by
    intro target link budget goal walked directory
    have same : before.get? (old :: outer) = some (.link target) := by
      rw [renames.there, ← renames.moved, link]
    have onward := walkWithin_target link opens walked
    have there : (after.erase (new :: outer)).get? goal = some .directory := by
      rw [get?_erase, if_neg, directory]
      rintro ⟨rfl, -⟩
      rw [link] at directory
      cases directory
    exact dead.target target same budget goal (renames.symm.embeds.walkWithin le_rfl onward there)
      (renames.symm.embeds.directories goal there)

/-- Paths to directories lead where they led. -/
theorem leads (renames : Renames before after outer old new entry) (dead : before.DeadEnd (old :: outer))
    (leads : before.Leads path place) : after.Leads path place := renames.embeds.leads (dead.leads_erase leads)

/-- A link leads where it led, unless that is where it has been moved to. -/
theorem locate_link {target : Text} (renames : Renames before after outer old new (.link target))
    (dead : before.DeadEnd (old :: outer)) (leads : before.Leads path outer) (allowed : Allowed new)
    (located : before.locate true (path.child old) = .ok goal) (apart : goal ≠ new :: outer) :
    after.locate true (path.child new) = .ok goal := by
  obtain ⟨-, walked⟩ := locate_eq_ok_iff_walkWithin.mp located
  have notLink : ¬ before.HoldsLink goal := not_holdsLink_of_walkWithin (opens_root before) walked
  have apart' : goal ≠ old :: outer := by
    rintro rfl
    exact notLink ⟨target, renames.there⟩
  have same : after.get? goal = (before.erase (old :: outer)).get? goal := by
    rw [renames.kept goal apart' apart, get?_erase, if_neg fun here => apart' here.1]
  -- The same links are followed on the way to the directory, and as many are left for the target.
  have small := dead.leads_erase leads
  obtain ⟨noNul, reached⟩ := locate_eq_ok_iff_walkWithin.mp small.located
  obtain ⟨less, onward⟩ := exists_walkWithin_past reached small.directory
  have there : before.walkWithin true (less + 1) outer [.into old] = .ok goal :=
    (onward before (embeds_erase before _) true _ (List.cons_ne_nil _ _)).symm.trans walked
  have followed : before.jumpWithin true less outer target [] = .ok goal := by
    obtain ⟨fits, -⟩ := walk_into_ok there
    exact (walk_into_link fits renames.there).symm.trans there
  obtain ⟨through, accepted⟩ := jumpWithin_eq_ok_iff.mp followed
  rw [List.append_nil] at through
  have through' : after.walkWithin true less (Location.linkStart outer target) (stepsOf target) = .ok goal := by
    refine renames.embeds.walkWithin_end (walkWithin_target renames.there leads.opens through) ?_ ?_
    · rwa [HoldsLink, renames.kept goal apart' apart]
    · rw [isDirectoryAt, isDirectoryAt, same]
  have accepted' : wantsDirectory target = true → after.isDirectoryAt goal = true := by
    rw [isDirectoryAt, renames.kept goal apart' apart]
    exact accepted rfl
  refine locate_eq_ok_iff_walkWithin.mpr ⟨not_holdsNul_child noNul allowed, ?_⟩
  rw [Path.child, onward after renames.embeds true _ (List.cons_ne_nil _ _), walkWithin_succ,
    walk_into_link (Nat.not_lt.mpr allowed.1) renames.moved]
  exact jumpWithin_eq_ok_iff.mpr ⟨by rwa [List.append_nil], fun _ => accepted'⟩

end Renames

end PromptCompiler.FileTree
