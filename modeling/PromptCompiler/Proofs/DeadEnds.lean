import PromptCompiler.Proofs.Listings
import PromptCompiler.Proofs.LinkedPaths

/-! # Entries that lead to no directory

A directory may be reached through links, and links in it may lead anywhere. An entry that is a file, or a link
to one, is a dead end: no path to a directory passes it, since a walk that goes on after it is refused. So it can
be taken out of its directory without any such path noticing.
-/

namespace PromptCompiler.FileTree

/-- Whether an entry is no directory, and no link that can be followed to one. -/
structure DeadEnd (tree : FileTree) (place : Location) : Prop where
  notDirectory : tree.get? place ≠ some .directory
  /-- However many links may be followed, its target is none. -/
  target : ∀ target, tree.get? place = some (.link target) → ∀ budget goal,
    tree.walkWithin true budget (Location.linkStart place.tail target) (stepsOf target) = .ok goal →
      tree.get? goal ≠ some .directory

/-- Whether a path leads to a file, through links or not. -/
def LeadsToFile (tree : FileTree) (path : Path) : Prop :=
  ∃ place content, tree.locate true path = .ok place ∧ tree.get? place = some (.file content)

variable {tree : FileTree} {follow : Bool} {budget more : Nat} {here place goal other : Location} {name : Name}
  {path : Path} {rest steps : List Step}

/-! ## Walks that go further -/

theorem walk_past_link {jump : Location → Text → List Step → Except SystemFault Location} {target : Text}
    (fits : ¬ Name.sizeLimit < name.text.utf8.size) (link : tree.get? (name :: here) = some (.link target))
    (onward : rest ≠ []) : tree.walk follow jump here (.into name :: rest) = jump here target rest := by
  rw [walk, if_neg fits, link]
  simp [onward]

/-- A link on the way is followed whatever its target asks for. -/
theorem jumpWithin_of_ne_nil {target : Text} (onward : rest ≠ []) :
    tree.jumpWithin follow budget here target rest =
      tree.walkWithin follow budget (Location.linkStart here target) (stepsOf target ++ rest) := by
  rw [jumpWithin]
  cases tree.walkWithin follow budget (Location.linkStart here target) (stepsOf target ++ rest) <;>
    simp [bind, Except.bind, onward]

/-- Walks that end, end at the same place, however many links each may follow. -/
theorem walkWithin_unique (walked : tree.walkWithin true budget here steps = .ok place)
    (walked' : tree.walkWithin true more here steps = .ok goal) : place = goal :=
  Except.ok.inj ((walkWithin_mono (Nat.le_max_left budget more) walked).symm.trans
    (walkWithin_mono (Nat.le_max_right budget more) walked'))

/-- Where a walk gets to a directory, it goes on from there with as many links as are left, also in trees with more
directories and links. -/
theorem exists_walkWithin_past {first : List Step} (walked : tree.walkWithin true budget here first = .ok place)
    (directory : tree.get? place = some .directory) :
    ∃ less, ∀ big, Embeds tree big → ∀ follow rest, rest ≠ [] →
      big.walkWithin follow budget here (first ++ rest) = big.walkWithin follow (less + 1) place rest := by
  induction budget generalizing here first with
  | zero => cases walked
  | succ budget ih =>
    rw [walkWithin_succ] at walked
    induction first generalizing here with
    | nil =>
      cases walked
      exact ⟨budget, fun _ _ _ _ _ => rfl⟩
    | cons step first ihSteps =>
      cases step with
      | up => exact ihSteps walked
      | into name =>
        obtain ⟨fits, ⟨passed, onward⟩ | ⟨target, link, -, jumped⟩ | ⟨-, rfl, notDirectory, -⟩⟩ := walk_into_ok walked
        · obtain ⟨less, same⟩ := ihSteps onward
          refine ⟨less, fun big embeds follow rest notEmpty => ?_⟩
          rw [← same big embeds follow rest notEmpty, List.cons_append, walkWithin_succ,
            walk_into_directory fits (embeds.directories _ passed)]
          rfl
        · obtain ⟨less, same⟩ := ih (walkWithin_of_jumpWithin jumped)
          refine ⟨less, fun big embeds follow rest notEmpty => ?_⟩
          have onward : first ++ rest ≠ [] := List.append_ne_nil_of_right_ne_nil first notEmpty
          rw [← same big embeds follow rest notEmpty, List.append_assoc, List.cons_append, walkWithin_succ,
            walk_past_link fits (embeds.links _ target link) onward, jumpWithin_of_ne_nil onward]
        · exact absurd directory notDirectory

/-- A walk to a directory goes on to an entry of it, unless that is a link that is followed. -/
theorem walkWithin_concat (fits : ¬ Name.sizeLimit < name.text.utf8.size)
    (walked : tree.walkWithin true budget here steps = .ok place) (directory : tree.get? place = some .directory)
    (free : follow = true → ¬ tree.HoldsLink (name :: place)) :
    tree.walkWithin follow budget here (steps ++ [.into name]) = .ok (name :: place) := by
  obtain ⟨less, same⟩ := exists_walkWithin_past walked directory
  rw [same tree (Embeds.refl tree) follow _ (List.cons_ne_nil _ _)]
  exact walk_into_last fits free

theorem not_holdsNul_child (noNul : ¬ path.steps.any Step.holdsNul = true) (allowed : Allowed name) :
    ¬ (path.child name).steps.any Step.holdsNul = true := by
  have fresh : (Step.into name).holdsNul = false := by
    simpa [Step.holdsNul, Step.text] using allowed.2
  simpa [Path.child, List.any_append, fresh] using noNul

namespace Leads

/-- A path to a directory goes on to an entry of it, unless that is a link that is followed. -/
theorem locate_child (leads : tree.Leads path place) (allowed : Allowed name)
    (free : follow = true → ¬ tree.HoldsLink (name :: place)) :
    tree.locate follow (path.child name) = .ok (name :: place) := by
  obtain ⟨noNul, walked⟩ := locate_eq_ok_iff_walkWithin.mp leads.located
  exact locate_eq_ok_iff_walkWithin.mpr ⟨not_holdsNul_child noNul allowed,
    walkWithin_concat (Nat.not_lt.mpr allowed.1) walked leads.directory free⟩

/-- What a path to an entry leads to, is the entry or what the link there leads to. -/
theorem walk_child (leads : tree.Leads path place) (located : tree.locate true (path.child name) = .ok goal) :
    Allowed name ∧ (goal = name :: place ∨ ∃ target budget, tree.get? (name :: place) = some (.link target) ∧
      tree.walkWithin true budget (Location.linkStart place target) (stepsOf target) = .ok goal) := by
  obtain ⟨noNul, walked⟩ := locate_eq_ok_iff_walkWithin.mp located
  obtain ⟨middle, reached, -, less, -, last⟩ := walkWithin_append (opens_root tree) (List.cons_ne_nil _ _) walked
  obtain rfl : middle = place :=
    Except.ok.inj (reached.symm.trans (locate_eq_ok_iff_walkWithin.mp leads.located).2)
  cases less with
  | zero => cases last
  | succ less =>
    rw [walkWithin_succ] at last
    obtain ⟨fits, ending⟩ := walk_into_ok last
    have taken : '\x00' ∉ name.text := by
      intro nul
      refine noNul (List.any_eq_true.mpr ⟨.into name, ?_, ?_⟩)
      · exact List.mem_append_right _ (List.mem_singleton_self _)
      · simpa [Step.holdsNul, Step.text] using nul
    refine ⟨⟨Nat.not_lt.mp fits, taken⟩, ?_⟩
    rcases ending with ⟨-, ended⟩ | ⟨target, link, -, jumped⟩ | ⟨-, same, -⟩
    · exact .inl (Except.ok.inj ended).symm
    · have through := walkWithin_of_jumpWithin jumped
      rw [List.append_nil] at through
      exact .inr ⟨target, less, link, through⟩
    · exact .inl same

theorem isDirectory_eq (leads : tree.Leads path place) : tree.isDirectory path = .ok true := by
  have found : tree.status path = .ok .directory := by
    rw [status, leads.located]
    simp [bind, Except.bind, leads.directory]
  rw [isDirectory, probe, found]
  rfl

end Leads

/-! ## Files -/

theorem isFile_eq_ok_true_iff : tree.isFile path = .ok true ↔ tree.LeadsToFile path := by
  rw [isFile, probe, status, LeadsToFile]
  cases located : tree.locate true path with
  | error fault => cases fault <;> simp [bind, Except.bind, Except.map]
  | ok place =>
    rcases there : tree.get? place with _ | _ | _ | _ <;> simp [bind, Except.bind, Except.map, there]

/-- Whether a path leads to a file is answered, unless the path holds a name that is too long. -/
theorem exists_isFile_eq_ok_iff : (∃ answer, tree.isFile path = .ok answer) ↔ tree.locate true path ≠ .error .nameTooLong := by
  rw [isFile, probe, status]
  cases located : tree.locate true path with
  | error fault => cases fault <;> simp [bind, Except.bind, Except.map]
  | ok place =>
    rcases there : tree.get? place with _ | _ | _ | _ <;> simp [bind, Except.bind, Except.map, there]

/-- A link that leads to something else than a directory is a dead end. -/
theorem deadEnd_of_target {target : Text} (link : tree.get? place = some (.link target))
    (walked : tree.walkWithin true budget (Location.linkStart place.tail target) (stepsOf target) = .ok goal)
    (notDirectory : tree.get? goal ≠ some .directory) : tree.DeadEnd place where
  notDirectory := by simp [link]
  target := by
    intro other same more end_ walked' directory
    cases Option.some.inj (link.symm.trans same)
    obtain rfl := walkWithin_unique walked walked'
    exact notDirectory directory

/-- A file is a dead end, and so is a free place. -/
theorem deadEnd_of_not_holdsLink (notDirectory : tree.get? place ≠ some .directory) (noLink : ¬ tree.HoldsLink place) :
    tree.DeadEnd place where
  notDirectory := notDirectory
  target := fun target link => absurd ⟨target, link⟩ noLink

/-- An entry that leads to a file is there, has a name that the system takes, and is a dead end. -/
theorem Leads.deadEnd_of_file (leads : tree.Leads path place) (file : tree.LeadsToFile (path.child name)) :
    Allowed name ∧ tree.get? (name :: place) ≠ none ∧ tree.DeadEnd (name :: place) := by
  obtain ⟨goal, content, located, there⟩ := file
  obtain ⟨allowed, rfl | ⟨target, budget, link, walked⟩⟩ := leads.walk_child located
  · refine ⟨allowed, by simp [there], deadEnd_of_not_holdsLink (by simp [there]) ?_⟩
    rintro ⟨target, link⟩
    rw [there] at link
    cases link
  · exact ⟨allowed, by simp [link], deadEnd_of_target link walked (by simp [there])⟩

/-! ## Taking entries away -/

theorem embeds_erase (tree : FileTree) (place : Location) : Embeds (tree.erase place) tree where
  directories := by
    intro other directory
    rw [get?_erase] at directory
    split at directory
    · cases directory
    · exact directory
  links := by
    intro other target link
    rw [get?_erase] at link
    split at link
    · cases link
    · exact link

private theorem isDirectoryAt_erase (notDirectory : tree.get? other ≠ some .directory) (place : Location) :
    (tree.erase other).isDirectoryAt place = tree.isDirectoryAt place := by
  rw [isDirectoryAt, isDirectoryAt, get?_erase]
  split
  · rename_i here
    rw [here.1, beq_eq_false_iff_ne.mpr notDirectory]
    rfl
  · rfl

/-- A walk that does not go on through an entry does not notice that it is gone. -/
theorem walkWithin_erase (notDirectory : tree.get? other ≠ some .directory) (few : budget ≤ more)
    (unused : ∀ target, tree.get? other = some (.link target) → tree.Opens other.tail → ∀ less < more, ∀ rest,
      tree.walkWithin true less (Location.linkStart other.tail target) (stepsOf target ++ rest) ≠ .ok place)
    (opens : tree.Opens here) (walked : tree.walkWithin true budget here steps = .ok place) :
    (tree.erase other).walkWithin true budget here steps = .ok place := by
  have kept {entry : Location} (apart : entry ≠ other) : (tree.erase other).get? entry = tree.get? entry := by
    rw [get?_erase, if_neg fun same => apart same.1]
  induction budget generalizing here steps with
  | zero => cases walked
  | succ budget ih =>
    rw [walkWithin_succ] at walked ⊢
    induction steps generalizing here with
    | nil => exact walked
    | cons step rest ihSteps =>
      cases step with
      | up => exact ihSteps opens.tail walked
      | into name =>
        obtain ⟨fits, ⟨passed, onward⟩ | ⟨target, link, -, jumped⟩ | ⟨rfl, rfl, -, noLink⟩⟩ := walk_into_ok walked
        · have apart : name :: here ≠ other := by
            rintro rfl
            exact notDirectory passed
          rw [walk_into_directory fits ((kept apart).trans passed)]
          exact ihSteps (opens.cons passed) onward
        · obtain ⟨through, accepted⟩ := jumpWithin_eq_ok_iff.mp jumped
          have apart : name :: here ≠ other := by
            rintro rfl
            exact unused target link opens budget few rest through
          rw [walk_into_link fits ((kept apart).trans link)]
          refine jumpWithin_eq_ok_iff.mpr ⟨ih (Nat.le_of_succ_le few) (opens.linkStart target) through, ?_⟩
          rwa [isDirectoryAt_erase notDirectory]
        · refine walk_into_last fits fun _ => ?_
          rintro ⟨target, link⟩
          exact noLink rfl ⟨target, (embeds_erase tree other).links _ target link⟩

namespace DeadEnd

/-- An entry is a dead end also where there are fewer directories and links. -/
theorem of_embeds {big : FileTree} (dead : big.DeadEnd place) (embeds : Embeds tree big) : tree.DeadEnd place where
  notDirectory := fun directory => dead.notDirectory (embeds.directories place directory)
  target := by
    intro target link budget goal walked directory
    exact dead.target target (embeds.links place target link) budget goal (embeds.walkWithin le_rfl walked directory)
      (embeds.directories goal directory)

theorem erase (dead : tree.DeadEnd place) (other : Location) : (tree.erase other).DeadEnd place :=
  dead.of_embeds (embeds_erase tree other)

theorem walkWithin_erase (dead : tree.DeadEnd other) (opens : tree.Opens here)
    (walked : tree.walkWithin true budget here steps = .ok place) (directory : tree.get? place = some .directory) :
    (tree.erase other).walkWithin true budget here steps = .ok place := by
  refine FileTree.walkWithin_erase dead.notDirectory le_rfl (fun target link openOther less _ rest walked' => ?_) opens walked
  -- The walk gets to the target of the link first, so the link is no dead end.
  obtain ⟨middle, reached, opensMiddle, -⟩ := walkWithin_split (openOther.linkStart target) walked' directory
  exact dead.target target link less middle reached opensMiddle.directory

/-- A path to a directory passes no dead end. -/
theorem leads_erase (dead : tree.DeadEnd other) (leads : tree.Leads path place) :
    (tree.erase other).Leads path place where
  located := by
    obtain ⟨noNul, walked⟩ := locate_eq_ok_iff_walkWithin.mp leads.located
    exact locate_eq_ok_iff_walkWithin.mpr ⟨noNul, dead.walkWithin_erase (opens_root tree) walked leads.directory⟩
  directory := by
    rw [get?_erase, if_neg, leads.directory]
    rintro ⟨rfl, -⟩
    exact dead.notDirectory leads.directory

end DeadEnd

end PromptCompiler.FileTree
