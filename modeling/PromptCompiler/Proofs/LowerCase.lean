import PromptCompiler.Text.LowerCase

/-! # Lowering a text twice

The lower-case form of a character has no other lower-case form: the forms that one run of characters
leads to lie outside every run. Runs are compared as a whole, by their bounds and by the remainders of their
members, so that no character has to be looked at. A text in lower case holds no capital sigma either, so
that lowering it once more leaves it as it is.
-/

namespace PromptCompiler

namespace Unicode

namespace CaseRun

/-- Whether the bounds and the remainders of two runs show that the lower-case forms of the first are
outside the second. There are many pairs of runs, so the test is one that the kernel evaluates quickly. -/
def leadsOutside (run other : CaseRun) : Bool :=
  Nat.blt other.last run.image || Nat.blt (run.image + (run.last - run.first)) other.first ||
    (run.last == run.first || run.step % other.step == 0) && run.image % other.step != other.first % other.step

/-- Whether the lower-case forms of a run are code points, and none of them is the capital dotted I. -/
def leadsToCharacters (run : CaseRun) : Bool :=
  (run.image + (run.last - run.first) < 0xd800 || 0xdfff < run.image && run.image + (run.last - run.first) < 0x110000) &&
    (run.image + (run.last - run.first) < 0x130 || 0x130 < run.image)

variable {run other : CaseRun} {offset : Nat}

private theorem not_contains_of_leadsOutside (outside : run.leadsOutside other = true)
    (within : offset ≤ run.last - run.first)
    (regular : offset % run.step = 0) {c : Char} (image : c.toNat = run.image + offset) : other.contains c = false := by
  rw [Bool.eq_false_iff]
  intro member
  obtain ⟨⟨lower, upper⟩, remainder⟩ : (other.first ≤ c.toNat ∧ c.toNat ≤ other.last) ∧
      (c.toNat - other.first) % other.step = 0 := by simpa [contains] using member
  rw [leadsOutside] at outside
  simp only [Bool.or_eq_true, Bool.and_eq_true, Nat.blt_eq, beq_iff_eq, bne_iff_ne] at outside
  rcases outside with (before | after) | ⟨steps, apart⟩
  · omega
  · omega
  · -- Both the offset and the distance from the first member are multiples of the other step.
    have multiple : other.step ∣ offset := by
      rcases steps with single | divides
      · have zero : offset = 0 := by omega
        exact zero ▸ Nat.dvd_zero _
      · exact Nat.dvd_trans (Nat.dvd_of_mod_eq_zero divides) (Nat.dvd_of_mod_eq_zero regular)
    obtain ⟨times, rfl⟩ := multiple
    obtain ⟨times', distance⟩ := Nat.dvd_of_mod_eq_zero remainder
    apply apart
    have same : run.image + other.step * times = other.first + other.step * times' := by omega
    rw [← Nat.add_mul_mod_self_left run.image other.step times, same, Nat.add_mul_mod_self_left]

end CaseRun

private theorem leadsToCharacters_of_mem : ∀ run ∈ caseRuns, run.leadsToCharacters = true := by
  decide +kernel

/-- No run leads to a control character. -/
theorem lt_image_of_mem : ∀ run ∈ caseRuns, 0x20 < run.image := by
  decide +kernel

/-- No run leads into a run. -/
theorem leadsOutside_all : (caseRuns.all fun run => caseRuns.all run.leadsOutside) = true := by
  decide +kernel

/-- A character that belongs to no run is its own lower-case form. -/
theorem lower_eq_self {c : Char} (plain : c.toNat ≠ 0x130) (outside : ∀ run ∈ caseRuns, run.contains c = false) :
    lower c = [c] := by
  have notFound : caseRuns.find? (·.contains c) = none := by
    rw [List.find?_eq_none]
    intro run member
    rw [outside run member]
    exact Bool.false_ne_true
  rw [lower, if_neg plain, notFound]

/-- The lower-case form of a character consists of characters that are in lower case. -/
theorem lower_of_mem_lower {c d : Char} (member : d ∈ lower c) : lower d = [d] := by
  unfold lower at member
  split at member
  · rcases List.mem_cons.mp member with rfl | last
    · decide
    · obtain rfl := List.mem_singleton.mp last
      decide
  · rename_i plain
    split at member
    · rename_i run found
      obtain rfl := List.mem_singleton.mp member
      have listed := List.mem_of_find?_eq_some found
      obtain ⟨⟨first, last⟩, regular⟩ : (run.first ≤ c.toNat ∧ c.toNat ≤ run.last) ∧
          (c.toNat - run.first) % run.step = 0 := by
        simpa [CaseRun.contains] using List.find?_some found
      have within : c.toNat - run.first ≤ run.last - run.first := by omega
      obtain ⟨valid, apart⟩ : (run.image + (c.toNat - run.first)).isValidChar ∧
          run.image + (c.toNat - run.first) ≠ 0x130 := by
        have characters := leadsToCharacters_of_mem run listed
        simp only [CaseRun.leadsToCharacters, Bool.and_eq_true, Bool.or_eq_true, decide_eq_true_eq] at characters
        rw [Nat.isValidChar]
        omega
      have image : (Char.ofNat (run.image + (c.toNat - run.first))).toNat = run.image + (c.toNat - run.first) := by
        rw [Char.ofNat, dif_pos valid]
        rfl
      refine lower_eq_self (by rwa [image]) fun other member => ?_
      have outside : run.leadsOutside other = true :=
        List.all_eq_true.mp (List.all_eq_true.mp leadsOutside_all run listed) other member
      exact CaseRun.not_contains_of_leadsOutside outside within regular image
    · rename_i notFound
      obtain rfl := List.mem_singleton.mp member
      refine lower_eq_self plain fun run member => ?_
      exact Bool.eq_false_iff.mpr (List.find?_eq_none.mp notFound run member)

/-- No other character becomes a line feed. -/
theorem eq_of_feed_mem_lower {c : Char} (member : '\n' ∈ lower c) : c = '\n' := by
  unfold lower at member
  split at member
  · exact absurd member (by decide)
  · split at member
    · rename_i run found
      have feed : '\n' = Char.ofNat (run.image + (c.toNat - run.first)) := List.mem_singleton.mp member
      have large := lt_image_of_mem run (List.mem_of_find?_eq_some found)
      have small : (Char.ofNat (run.image + (c.toNat - run.first))).toNat = 10 := feed ▸ rfl
      by_cases valid : (run.image + (c.toNat - run.first)).isValidChar
      · rw [Char.ofNat, dif_pos valid] at small
        have same : run.image + (c.toNat - run.first) = 10 := small
        omega
      · rw [Char.ofNat, dif_neg valid] at small
        cases small
    · exact (List.mem_singleton.mp member).symm

end Unicode

namespace Text

private theorem lower_of_mem_lowerAfter {cased : Bool} {text : Text} {d : Char} (member : d ∈ lowerAfter cased text) :
    Unicode.lower d = [d] := by
  induction text generalizing cased with
  | nil => cases member
  | cons c rest ih =>
    rw [lowerAfter, List.mem_append] at member
    rcases member with image | later
    · split at image
      · obtain rfl := List.mem_singleton.mp image
        split <;> decide
      · exact Unicode.lower_of_mem_lower image
    · exact ih later

/-- Lowering leaves characters that are in lower case as they are, up to the first other one. -/
theorem lowerAfter_append {cased : Bool} {front : Text} (lowered : ∀ d ∈ front, Unicode.lower d = [d]) (rest : Text) :
    ∃ cased', lowerAfter cased (front ++ rest) = front ++ lowerAfter cased' rest := by
  induction front generalizing cased with
  | nil => exact ⟨cased, rfl⟩
  | cons c front ih =>
    have noSigma : c.toNat ≠ 0x3a3 := by
      intro sigma
      have fixed := lowered c List.mem_cons_self
      rw [show c = Char.ofNat 0x3a3 from Char.ofNat_toNat c ▸ congrArg Char.ofNat sigma] at fixed
      revert fixed
      decide
    obtain ⟨cased', later⟩ := ih fun d member => lowered d (List.mem_cons_of_mem c member)
    refine ⟨cased', ?_⟩
    rw [List.cons_append, lowerAfter, if_neg noSigma, lowered c List.mem_cons_self, later]
    rfl

/-- A text whose characters are all in lower case is its own lower-case form. -/
theorem lowerAfter_eq_self {cased : Bool} {text : Text} (lowered : ∀ d ∈ text, Unicode.lower d = [d]) :
    lowerAfter cased text = text := by
  obtain ⟨cased', whole⟩ := lowerAfter_append lowered []
  rwa [List.append_nil, lowerAfter, List.append_nil] at whole

/-- A beginning in lower case is kept. -/
theorem prefix_lower {front text : Text} (lowered : ∀ d ∈ front, Unicode.lower d = [d]) (begins : front <+: text) :
    front <+: lower text := by
  obtain ⟨rest, rfl⟩ := begins
  obtain ⟨cased', whole⟩ := lowerAfter_append lowered rest
  rw [lower, whole]
  exact List.prefix_append front _

/-- Lowering a text that is in lower case changes nothing. -/
theorem lower_lower (text : Text) : lower (lower text) = lower text :=
  lowerAfter_eq_self fun _ => lower_of_mem_lowerAfter

/-- Lowering a text puts no line feed into it. -/
theorem feed_mem_of_mem_lowerAfter {cased : Bool} {text : Text} (member : '\n' ∈ lowerAfter cased text) :
    '\n' ∈ text := by
  induction text generalizing cased with
  | nil => cases member
  | cons c rest ih =>
    rw [lowerAfter, List.mem_append] at member
    rcases member with image | later
    · split at image
      · split at image
        · exact absurd image (by decide)
        · exact absurd image (by decide)
      · exact Unicode.eq_of_feed_mem_lower image ▸ List.mem_cons_self
    · exact List.mem_cons_of_mem c (ih later)

end Text

end PromptCompiler
