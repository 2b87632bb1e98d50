import PromptCompiler.Proofs.PlainTrees
import Mathlib.Data.List.Perm.Subperm
import Mathlib.Data.Nat.Find

/-! # Paths through links

The system follows a path link by link, up to a greatest number of links, and needs a directory at every
step; the place without links that a path stands for is found by resolving each link for itself. Where the
system gets to a directory, both find the same place: a walk that ends can be cut after any step, so the target
of each link on the way leads to a directory as well, with fewer links to follow, and a link whose target led
through the link itself would need fewer links than it needs.

The place is found in a tree as it was, the walk is made in a tree as it is now. It is enough that the links
and directories of the tree now lead nowhere else than in the tree before.
-/

namespace PromptCompiler

namespace FileTree

def HoldsLink (tree : FileTree) (place : Location) : Prop := ∃ target, tree.get? place = some (.link target)

instance (tree : FileTree) (place : Location) : Decidable (tree.HoldsLink place) :=
  match found : tree.get? place with
  | some (.link target) => isTrue ⟨target, found⟩
  | some .directory | some (.file _) | none =>
    isFalse (by rintro ⟨target, link⟩; rw [found] at link; cases link)

/-- Whether a place and everything above it are directories. -/
def Opens (tree : FileTree) (here : Location) : Prop := ∀ outer, outer <:+ here → tree.get? outer = some .directory

/-- Whether a path leads to a directory, and to which one. -/
structure Leads (tree : FileTree) (path : Path) (place : Location) : Prop where
  located : tree.locate true path = .ok place
  directory : tree.get? place = some .directory

/-- Whether a path stands for a place without links, and no link on the way leads back to itself. -/
def Resolves (tree : FileTree) (path : Path) (place : Location) : Prop :=
  tree.resolveWithin (tree.entries.length + 1) [] [] path.steps = (true, place)

variable {tree before later small big : FileTree} {follow : Bool} {budget more : Nat}
  {here place outer : Location} {name : Name} {path : Path} {rest steps : List Step}

theorem Resolves.realLocation (resolves : tree.Resolves path place) : tree.realLocation path = place :=
  congrArg Prod.snd resolves

theorem opens_root (tree : FileTree) : tree.Opens [] := by
  intro outer above
  rw [List.suffix_nil.mp above, get?_root]

theorem Opens.directory (opens : tree.Opens here) : tree.get? here = some .directory := opens here List.suffix_rfl

theorem Opens.tail (opens : tree.Opens here) : tree.Opens here.tail :=
  fun outer above => opens outer (above.trans (List.tail_suffix here))

theorem Opens.cons (opens : tree.Opens here) (directory : tree.get? (name :: here) = some .directory) :
    tree.Opens (name :: here) := by
  intro outer above
  rcases List.suffix_cons_iff.mp above with rfl | above
  · exact directory
  · exact opens outer above

/-- The target of a link starts at a directory. -/
theorem Opens.linkStart (opens : tree.Opens here) (target : Text) : tree.Opens (here.linkStart target) := by
  rw [Location.linkStart]
  split
  · exact opens_root tree
  · exact opens

/-! ## Walks, step by step -/

/-- Where a walk goes on at a link, with a number of links that may be followed after it. -/
def jumpWithin (tree : FileTree) (follow : Bool) (budget : Nat) (directory : Location) (target : Text)
    (rest : List Step) : Except SystemFault Location := do
  let there ← tree.walkWithin follow budget (Location.linkStart directory target) (stepsOf target ++ rest)
  if rest.isEmpty && wantsDirectory target && !tree.isDirectoryAt there then
    .error (if (tree.get? there).isSome then .notDirectory else .notFound)
  else .ok there

theorem walkWithin_succ (tree : FileTree) (follow : Bool) (budget : Nat) (here : Location) (steps : List Step) :
    tree.walkWithin follow (budget + 1) here steps = tree.walk follow (tree.jumpWithin follow budget) here steps := rfl

/-- A link is followed to where its target leads, which must be a directory if the target asks for one. -/
theorem jumpWithin_eq_ok_iff {target : Text} : tree.jumpWithin follow budget here target rest = .ok place ↔
    tree.walkWithin follow budget (Location.linkStart here target) (stepsOf target ++ rest) = .ok place ∧
      (rest = [] → wantsDirectory target = true → tree.isDirectoryAt place = true) := by
  have refused : ∀ there, (rest.isEmpty && wantsDirectory target && !tree.isDirectoryAt there) = true ↔
      ¬ (rest = [] → wantsDirectory target = true → tree.isDirectoryAt there = true) := by
    intro there
    cases rest <;> cases wantsDirectory target <;> cases tree.isDirectoryAt there <;> simp
  constructor
  · intro jumped
    obtain ⟨there, walked, checked⟩ := except_bind_eq_ok_iff.mp jumped
    split at checked
    · cases checked
    · rename_i accepted
      cases checked
      exact ⟨walked, not_not.mp (mt (refused place).mpr accepted)⟩
  · rintro ⟨walked, accepted⟩
    exact except_bind_eq_ok_iff.mpr ⟨place, walked, if_neg fun bad => (refused place).mp bad accepted⟩

theorem walkWithin_of_jumpWithin {target : Text}
    (jumped : tree.jumpWithin follow budget here target rest = .ok place) :
    tree.walkWithin follow budget (Location.linkStart here target) (stepsOf target ++ rest) = .ok place :=
  (jumpWithin_eq_ok_iff.mp jumped).1

/-- A link that leads to a directory can be followed whatever its target asks for. -/
theorem jumpWithin_of_directory {target : Text}
    (walked : tree.walkWithin follow budget (Location.linkStart here target) (stepsOf target ++ rest) = .ok place)
    (directory : tree.get? place = some .directory) :
    tree.jumpWithin follow budget here target rest = .ok place :=
  jumpWithin_eq_ok_iff.mpr ⟨walked, fun _ _ => beq_iff_eq.mpr directory⟩

/-- A walk into an entry passes a directory, follows a link, or ends there. -/
theorem walk_into_ok {jump : Location → Text → List Step → Except SystemFault Location}
    (walked : tree.walk follow jump here (.into name :: rest) = .ok place) :
    ¬ Name.sizeLimit < name.text.utf8.size ∧
      ((tree.get? (name :: here) = some .directory ∧ tree.walk follow jump (name :: here) rest = .ok place) ∨
        (∃ target, tree.get? (name :: here) = some (.link target) ∧ (rest = [] → follow = true) ∧
          jump here target rest = .ok place) ∨
        (rest = [] ∧ place = name :: here ∧ tree.get? (name :: here) ≠ some .directory ∧
          (follow = true → ¬ tree.HoldsLink (name :: here)))) := by
  rw [walk] at walked
  split at walked
  · cases walked
  rename_i fits
  refine ⟨fits, ?_⟩
  split at walked
  · rename_i directory
    exact .inl ⟨directory, walked⟩
  · rename_i target link
    split at walked
    · rename_i stays
      simp only [Bool.and_eq_true, List.isEmpty_iff, Bool.not_eq_true'] at stays
      cases walked
      refine .inr (.inr ⟨stays.1, rfl, by rw [link]; simp, fun follows => ?_⟩)
      rw [stays.2] at follows
      cases follows
    · rename_i goes
      refine .inr (.inl ⟨target, link, fun last => ?_, walked⟩)
      simpa [last] using goes
  all_goals
    rename_i found
    split at walked
    · rename_i last
      cases walked
      refine .inr (.inr ⟨List.isEmpty_iff.mp last, rfl, by rw [found]; simp, fun _ => ?_⟩)
      rintro ⟨target, link⟩
      rw [found] at link
      cases link
    · cases walked

theorem walk_into_directory {jump : Location → Text → List Step → Except SystemFault Location}
    (fits : ¬ Name.sizeLimit < name.text.utf8.size) (directory : tree.get? (name :: here) = some .directory) :
    tree.walk follow jump here (.into name :: rest) = tree.walk follow jump (name :: here) rest := by
  rw [walk, if_neg fits, directory]

theorem walk_into_link {jump : Location → Text → List Step → Except SystemFault Location} {target : Text}
    (fits : ¬ Name.sizeLimit < name.text.utf8.size) (link : tree.get? (name :: here) = some (.link target)) :
    tree.walk true jump here (.into name :: rest) = jump here target rest := by
  rw [walk, if_neg fits, link]
  simp

theorem walk_into_last {jump : Location → Text → List Step → Except SystemFault Location}
    (fits : ¬ Name.sizeLimit < name.text.utf8.size) (free : follow = true → ¬ tree.HoldsLink (name :: here)) :
    tree.walk follow jump here [.into name] = .ok (name :: here) := by
  rw [walk, if_neg fits]
  rcases there : tree.get? (name :: here) with _ | _ | _ | target
  · rfl
  · rfl
  · rfl
  · cases follow with
    | false => rfl
    | true => exact absurd ⟨target, there⟩ (free rfl)

theorem walkWithin_nil (walked : tree.walkWithin follow budget here steps = .ok place) (other : Location) :
    tree.walkWithin follow budget other [] = .ok other := by
  cases budget with
  | zero => cases walked
  | succ budget => rfl

/-- Everything above the directory that a walk leads to is a directory. -/
theorem opens_of_walkWithin (opens : tree.Opens here)
    (walked : tree.walkWithin follow budget here steps = .ok place) (directory : tree.get? place = some .directory) :
    tree.Opens place := by
  induction budget generalizing here steps with
  | zero => cases walked
  | succ budget ih =>
    rw [walkWithin_succ] at walked
    induction steps generalizing here with
    | nil =>
      cases walked
      exact opens
    | cons step rest ihSteps =>
      cases step with
      | up => exact ihSteps opens.tail walked
      | into name =>
        rcases (walk_into_ok walked).2 with ⟨passed, onward⟩ | ⟨target, -, -, jumped⟩ | ⟨-, rfl, notDirectory, -⟩
        · exact ihSteps (opens.cons passed) onward
        · exact ih (opens.linkStart target) (walkWithin_of_jumpWithin jumped)
        · exact absurd directory notDirectory

/-- A walk can be cut before any of its steps: it gets to a directory and goes on from there. -/
theorem walkWithin_append {first : List Step} (opens : tree.Opens here) (onward : rest ≠ [])
    (walked : tree.walkWithin follow budget here (first ++ rest) = .ok place) :
    ∃ middle, tree.walkWithin true budget here first = .ok middle ∧ tree.Opens middle ∧
      ∃ less ≤ budget, tree.walkWithin follow less middle rest = .ok place := by
  induction budget generalizing here first with
  | zero => cases walked
  | succ budget ih =>
    induction first generalizing here with
    | nil => exact ⟨here, rfl, opens, budget + 1, le_rfl, walked⟩
    | cons step first ihSteps =>
      cases step with
      | up => exact ihSteps opens.tail walked
      | into name =>
        rw [walkWithin_succ, List.cons_append] at walked
        obtain ⟨fits, ⟨directory, passed⟩ | ⟨target, link, -, jumped⟩ | ⟨last, -⟩⟩ := walk_into_ok walked
        · obtain ⟨middle, before, rest⟩ := ihSteps (opens.cons directory) passed
          exact ⟨middle, (walk_into_directory fits directory).trans before, rest⟩
        · have through := walkWithin_of_jumpWithin jumped
          rw [← List.append_assoc] at through
          obtain ⟨middle, before, opensMiddle, less, few, after⟩ := ih (opens.linkStart target) through
          refine ⟨middle, ?_, opensMiddle, less, Nat.le_succ_of_le few, after⟩
          exact (walk_into_link fits link).trans (jumpWithin_of_directory before opensMiddle.directory)
        · exact absurd (List.append_eq_nil_iff.mp last).2 onward

/-- A walk to a directory can be cut before any of its steps, and at its end. -/
theorem walkWithin_split {first : List Step} (opens : tree.Opens here)
    (walked : tree.walkWithin true budget here (first ++ rest) = .ok place)
    (directory : tree.get? place = some .directory) :
    ∃ middle, tree.walkWithin true budget here first = .ok middle ∧ tree.Opens middle ∧
      ∃ less ≤ budget, tree.walkWithin true less middle rest = .ok place := by
  by_cases last : rest = []
  · subst last
    rw [List.append_nil] at walked
    exact ⟨place, walked, opens_of_walkWithin opens walked directory, budget, le_rfl, walkWithin_nil walked place⟩
  · exact walkWithin_append opens last walked

/-- A walk that ends, ends at the same place with more links to follow. -/
theorem walkWithin_mono (enough : budget ≤ more) (walked : tree.walkWithin true budget here steps = .ok place) :
    tree.walkWithin true more here steps = .ok place := by
  induction budget generalizing more here steps place with
  | zero => cases walked
  | succ budget ih =>
    obtain ⟨more, rfl⟩ : ∃ fewer, more = fewer + 1 := ⟨more - 1, by omega⟩
    rw [walkWithin_succ] at walked ⊢
    induction steps generalizing here with
    | nil => exact walked
    | cons step rest ihSteps =>
      cases step with
      | up => exact ihSteps walked
      | into name =>
        obtain ⟨fits, ⟨passed, onward⟩ | ⟨target, link, -, jumped⟩ | ⟨rfl, rfl, -, noLink⟩⟩ := walk_into_ok walked
        · rw [walk_into_directory fits passed]
          exact ihSteps onward
        · obtain ⟨through, accepted⟩ := jumpWithin_eq_ok_iff.mp jumped
          rw [walk_into_link fits link]
          exact jumpWithin_eq_ok_iff.mpr ⟨ih (Nat.le_of_succ_le_succ enough) through, accepted⟩
        · exact walk_into_last fits noLink

/-! ## Walks in other trees -/

/-- Whether the directories and links of a tree are those of another one, which may have more. -/
structure Embeds (small big : FileTree) : Prop where
  directories : ∀ place, small.get? place = some .directory → big.get? place = some .directory
  links : ∀ place target, small.get? place = some (.link target) → big.get? place = some (.link target)

theorem Embeds.refl (tree : FileTree) : Embeds tree tree := ⟨fun _ => id, fun _ _ => id⟩

/-- A walk ends at the same place in a tree with more directories and links, if what is there is no link and as much
a directory as before. -/
theorem Embeds.walkWithin_end (embeds : Embeds small big)
    (walked : small.walkWithin true budget here steps = .ok place) (noLink : ¬ big.HoldsLink place)
    (same : big.isDirectoryAt place = small.isDirectoryAt place) :
    big.walkWithin true budget here steps = .ok place := by
  induction budget generalizing here steps with
  | zero => cases walked
  | succ budget ih =>
    rw [walkWithin_succ] at walked ⊢
    induction steps generalizing here with
    | nil => exact walked
    | cons step rest ihSteps =>
      cases step with
      | up => exact ihSteps walked
      | into name =>
        obtain ⟨fits, ⟨passed, onward⟩ | ⟨target, link, -, jumped⟩ | ⟨rfl, rfl, -, -⟩⟩ := walk_into_ok walked
        · rw [walk_into_directory fits (embeds.directories _ passed)]
          exact ihSteps onward
        · obtain ⟨through, accepted⟩ := jumpWithin_eq_ok_iff.mp jumped
          rw [walk_into_link fits (embeds.links _ target link)]
          exact jumpWithin_eq_ok_iff.mpr ⟨ih through, by rwa [same]⟩
        · exact walk_into_last fits fun _ => noLink

/-- A walk to a directory leads there as well with more links to follow, and with more directories and links. -/
theorem Embeds.walkWithin (embeds : Embeds small big) (enough : budget ≤ more)
    (walked : small.walkWithin true budget here steps = .ok place) (directory : small.get? place = some .directory) :
    big.walkWithin true more here steps = .ok place := by
  have directory' := embeds.directories place directory
  refine walkWithin_mono enough (embeds.walkWithin_end walked ?_ ?_)
  · rintro ⟨target, link⟩
    rw [directory'] at link
    cases link
  · rw [isDirectoryAt, isDirectoryAt, directory, directory']

/-! ## Places without links -/

/-- Whether the links and directories of a tree lead nowhere else than in an earlier one: its links were there,
and no directory has taken the place of a link. -/
structure Retraces (before later : FileTree) : Prop where
  links : ∀ place target, later.get? place = some (.link target) → before.get? place = some (.link target)
  directories : ∀ place, later.get? place = some .directory → ¬ before.HoldsLink place

theorem Retraces.refl (tree : FileTree) : Retraces tree tree where
  links := fun _ _ => id
  directories := by
    rintro place directory ⟨target, link⟩
    rw [directory] at link
    cases link

/-- Whether a walk to a directory needs a number of links to follow. -/
def Needs (tree : FileTree) (budget : Nat) (here : Location) (steps : List Step) : Prop :=
  ∀ less < budget, ∀ place, tree.get? place = some .directory → tree.walkWithin true less here steps ≠ .ok place

/-- A walk to a directory can be made with the number of links that it needs. -/
theorem exists_least (walked : tree.walkWithin true budget here steps = .ok place)
    (directory : tree.get? place = some .directory) :
    ∃ least ≤ budget, tree.walkWithin true least here steps = .ok place ∧ tree.Needs least here steps := by
  have reaching : ∃ least other, tree.get? other = some .directory ∧ tree.walkWithin true least here steps = .ok other :=
    ⟨budget, place, directory, walked⟩
  classical
  have few : Nat.find reaching ≤ budget := Nat.find_min' reaching ⟨place, directory, walked⟩
  obtain ⟨other, found, least⟩ := Nat.find_spec reaching
  obtain rfl : other = place :=
    Except.ok.inj (((Embeds.refl tree).walkWithin few least found).symm.trans walked)
  exact ⟨_, few, least, fun less fewer other found walked => Nat.find_min reaching fewer ⟨other, found, walked⟩⟩

/-- Links that are being resolved while a walk with some number of links to follow is matched: none of them
has a target that could be followed with fewer links. -/
structure Pending (before later : FileTree) (budget : Nat) (links : List Location) : Prop where
  nodup : links.Nodup
  /-- Each is a link that needs as many links. -/
  needs : ∀ link ∈ links, ∃ target, before.get? link = some (.link target) ∧
    later.Needs budget (Location.linkStart link.tail target) (stepsOf target)

/-- There are no more links than entries. -/
theorem Pending.length_le {links : List Location} (pending : Pending before later budget links) :
    links.length ≤ before.entries.length := by
  have listed : links ⊆ before.entries.map Prod.fst := by
    intro link member
    obtain ⟨target, found, -⟩ := pending.needs link member
    have notRoot : link ≠ [] := by
      rintro rfl
      rw [get?_root] at found
      cases found
    rw [get?, if_neg notRoot, Option.map_eq_some_iff] at found
    obtain ⟨entry, found, -⟩ := found
    have here : entry.1 = link := by simpa using List.find?_some found
    exact here ▸ List.mem_map_of_mem (List.mem_of_find?_eq_some found)
  calc links.length ≤ (before.entries.map Prod.fst).length := (List.Nodup.subperm pending.nodup listed).length_le
    _ = before.entries.length := List.length_map _

/-- A link that can be followed with fewer links is not being resolved. -/
theorem Pending.fresh {links : List Location} {target : Text} {middle : Location}
    (pending : Pending before later (budget + 1) links) (link : before.get? (name :: here) = some (.link target))
    (reached : later.walkWithin true budget (here.linkStart target) (stepsOf target) = .ok middle)
    (directory : later.get? middle = some .directory) : name :: here ∉ links := by
  intro member
  obtain ⟨other, same, needed⟩ := pending.needs _ member
  cases Option.some.inj (same.symm.trans link)
  exact needed budget budget.lt_succ_self middle directory reached

/-- A link is resolved with the number of links that its target needs. -/
theorem Pending.push {links : List Location} {target : Text} (pending : Pending before later more links)
    (few : budget ≤ more) (fresh : name :: here ∉ links) (link : before.get? (name :: here) = some (.link target))
    (needs : later.Needs budget (here.linkStart target) (stepsOf target)) :
    Pending before later budget ((name :: here) :: links) := by
  refine ⟨List.nodup_cons.mpr ⟨fresh, pending.nodup⟩, ?_⟩
  rintro other member
  rcases List.mem_cons.mp member with rfl | member
  · exact ⟨target, link, needs⟩
  · obtain ⟨target, found, needed⟩ := pending.needs other member
    exact ⟨target, found, fun less fewer => needed less (Nat.lt_of_lt_of_le fewer few)⟩

private theorem resolveSteps_into_free {find : Location → Text → Bool × Location}
    (free : ¬ tree.HoldsLink (name :: here)) :
    tree.resolveSteps find here (.into name :: rest) = tree.resolveSteps find (name :: here) rest := by
  rw [resolveSteps]
  split
  · rename_i target link
    exact absurd ⟨target, link⟩ free
  · rfl

private theorem resolveSteps_into_link {find : Location → Text → Bool × Location} {target : Text}
    (link : tree.get? (name :: here) = some (.link target)) (found : find (name :: here) target = (true, place)) :
    tree.resolveSteps find here (.into name :: rest) = tree.resolveSteps find place rest := by
  rw [resolveSteps]
  simp only [link, found]

private theorem resolveSteps_append {find : Location → Text → Bool × Location} {first : List Step} {middle : Location}
    (resolved : tree.resolveSteps find here first = (true, middle)) :
    tree.resolveSteps find here (first ++ rest) = tree.resolveSteps find middle rest := by
  induction first generalizing here with
  | nil =>
    cases resolved
    rfl
  | cons step first ih =>
    cases step with
    | up => exact ih resolved
    | into name =>
      rw [List.cons_append]
      by_cases link : tree.HoldsLink (name :: here)
      · obtain ⟨target, link⟩ := link
        rcases found : find (name :: here) target with ⟨_ | _, there⟩
        · rw [resolveSteps] at resolved
          simp only [link, found] at resolved
          cases resolved
        · rw [resolveSteps_into_link link found] at resolved ⊢
          exact ih resolved
      · rw [resolveSteps_into_free link] at resolved ⊢
        exact ih resolved

/-- Where a walk gets to a directory is the place without links. -/
theorem Retraces.resolveWithin (retraces : Retraces before later) {depth : Nat} {pending : List Location}
    (opens : later.Opens here) (walked : later.walkWithin true budget here steps = .ok place)
    (directory : later.get? place = some .directory) (unresolved : Pending before later budget pending)
    (deep : before.entries.length < depth + pending.length) :
    before.resolveWithin depth pending here steps = (true, place) := by
  -- The target of a link needs fewer links, so the outer induction is on the number of links.
  induction budget using Nat.strong_induction_on generalizing here steps place depth pending with
  | _ budget ih =>
    obtain ⟨depth, rfl⟩ : ∃ shallower, depth = shallower + 1 := ⟨depth - 1, by have := unresolved.length_le; omega⟩
    obtain ⟨budget, rfl⟩ : ∃ fewer, budget = fewer + 1 := by
      cases budget with
      | zero => cases walked
      | succ budget => exact ⟨budget, rfl⟩
    rw [FileTree.resolveWithin]
    induction steps generalizing here with
    | nil =>
      cases walked
      rfl
    | cons step rest ihSteps =>
      cases step with
      | up => exact ihSteps opens.tail walked
      | into name =>
        rw [walkWithin_succ] at walked
        obtain ⟨-, ⟨passed, onward⟩ | ⟨target, link, -, jumped⟩ | ⟨-, rfl, notDirectory, -⟩⟩ := walk_into_ok walked
        · rw [resolveSteps_into_free (retraces.directories _ passed)]
          exact ihSteps (opens.cons passed) onward
        · have linkBefore := retraces.links _ target link
          obtain ⟨middle, reached, opensMiddle, less, few, onward⟩ :=
            walkWithin_split (opens.linkStart target) (walkWithin_of_jumpWithin jumped) directory
          have fresh := unresolved.fresh linkBefore reached opensMiddle.directory
          obtain ⟨least, small, reachedFirst, needs⟩ := exists_least reached opensMiddle.directory
          have inner := unresolved.push (Nat.le_succ_of_le small) fresh linkBefore needs
          have deeper : before.entries.length < depth + ((name :: here) :: pending).length := by
            rw [List.length_cons]
            omega
          have resolved := ih least (Nat.lt_succ_of_le small) (opens.linkStart target) reachedFirst
            opensMiddle.directory inner deeper
          rw [resolveSteps_into_link linkBefore (by rw [if_neg fresh]; exact resolved)]
          exact ihSteps opensMiddle ((Embeds.refl later).walkWithin (by omega) onward directory)
        · exact absurd directory notDirectory

/-! ## Paths to directories -/

theorem locate_eq_ok_iff_walkWithin {path : Path} : tree.locate follow path = .ok place ↔
    ¬ path.steps.any Step.holdsNul = true ∧ tree.walkWithin follow (linkLimit + 1) [] path.steps = .ok place := by
  rw [locate]
  split
  · rename_i nul
    exact iff_of_false (fun same => by cases same) fun known => known.1 nul
  · rename_i noNul
    exact (and_iff_right noNul).symm

namespace Leads

theorem opens (leads : tree.Leads path place) : tree.Opens place :=
  opens_of_walkWithin (opens_root tree) (locate_eq_ok_iff_walkWithin.mp leads.located).2 leads.directory

theorem unique {other : Location} (leads : tree.Leads path place) (leads' : tree.Leads path other) : place = other :=
  Except.ok.inj (leads.located.symm.trans leads'.located)

theorem of_isDirectory (known : tree.isDirectory path = .ok true) : ∃ place, tree.Leads path place := by
  obtain ⟨answer, probed, same⟩ := except_map_eq_ok_iff.mp known
  rw [probe] at probed
  rw [beq_iff_eq] at same
  subst same
  split at probed
  · rename_i entry found
    cases probed
    obtain ⟨place, located, there⟩ := except_bind_eq_ok_iff.mp found
    refine ⟨place, located, ?_⟩
    split at there
    · rename_i directory
      rw [directory, Except.ok.inj there]
    · cases there
  · cases probed
  · cases probed

end Leads

theorem Embeds.leads (embeds : Embeds small big) (leads : small.Leads path place) : big.Leads path place where
  located := by
    obtain ⟨noNul, walked⟩ := locate_eq_ok_iff_walkWithin.mp leads.located
    exact locate_eq_ok_iff_walkWithin.mpr ⟨noNul, embeds.walkWithin le_rfl walked leads.directory⟩
  directory := embeds.directories place leads.directory

/-- A path that leads to a directory stands for its place. -/
theorem Retraces.resolves (retraces : Retraces before later) (leads : later.Leads path place) :
    before.Resolves path place := by
  have pending : Pending before later (linkLimit + 1) [] := ⟨List.nodup_nil, fun _ member => absurd member List.not_mem_nil⟩
  exact retraces.resolveWithin (opens_root later) (locate_eq_ok_iff_walkWithin.mp leads.located).2 leads.directory pending
    (Nat.lt_succ_self _)

/-- A path to an entry leads to its directory first, and then to the entry, unless that is a link that is followed. -/
theorem locate_child_ok (located : tree.locate follow (path.child name) = .ok place) :
    ∃ above, tree.Leads path above ∧ Allowed name ∧
      ((follow = true → ¬ tree.HoldsLink (name :: above)) → place = name :: above) := by
  obtain ⟨noNul, walked⟩ := locate_eq_ok_iff_walkWithin.mp located
  obtain ⟨above, reached, opens, less, -, last⟩ := walkWithin_append (opens_root tree) (List.cons_ne_nil _ _) walked
  rw [Path.child, List.any_append, Bool.or_eq_true, not_or] at noNul
  have taken : '\x00' ∉ name.text := by simpa [Step.holdsNul, Step.text] using noNul.2
  refine ⟨above, ⟨locate_eq_ok_iff_walkWithin.mpr ⟨noNul.1, reached⟩, opens.directory⟩, ?_⟩
  cases less with
  | zero => cases last
  | succ less =>
    rw [walkWithin_succ] at last
    obtain ⟨fits, ending⟩ := walk_into_ok last
    refine ⟨⟨Nat.not_lt.mp fits, taken⟩, fun free => ?_⟩
    rcases ending with ⟨-, ended⟩ | ⟨target, link, follows, -⟩ | ⟨-, same, -⟩
    · exact (Except.ok.inj ended).symm
    · exact absurd ⟨target, link⟩ (free (follows rfl))
    · exact same

theorem locate_entry (located : tree.locate follow (.ofLocation (name :: outer)) = .ok place) :
    ∃ above, tree.Leads (.ofLocation outer) above ∧
      ((follow = true → ¬ tree.HoldsLink (name :: above)) → place = name :: above) := by
  rw [← Path.child_ofLocation] at located
  obtain ⟨above, leads, -, same⟩ := locate_child_ok located
  exact ⟨above, leads, same⟩

/-- A path to an entry stands for the entry of the place of its directory, unless a link is there. -/
theorem Resolves.entry (resolves : tree.Resolves (.ofLocation outer) place) (free : ¬ tree.HoldsLink (name :: place)) :
    tree.Resolves (.ofLocation (name :: outer)) (name :: place) := by
  rw [← Path.child_ofLocation]
  rw [Resolves, FileTree.resolveWithin] at resolves ⊢
  rw [Path.child, resolveSteps_append resolves, resolveSteps_into_free free]
  rfl

end FileTree

end PromptCompiler
