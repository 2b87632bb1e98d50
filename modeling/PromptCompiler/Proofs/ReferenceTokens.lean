import PromptCompiler.Proofs.ReferenceEndings

/-! # The tokens that a pass over references replaces

A pass goes through a text from left to right. Where a reference begins it takes the longest row of characters that
may belong to it, puts something in its place and goes on after it; every other character stays. The rewriting
words by words does the same: a token ends where its word ends, so that a word holds at most one.
-/

namespace PromptCompiler

/-! ## Characters -/

namespace Unicode

/-- The code points of the characters at which a reference ends. -/
def separatorRanges : CodeRanges :=
  [(0x09, 0x0d), (0x1c, 0x20), (0x22, 0x22), (0x27, 0x27), (0x29, 0x29), (0x3e, 0x3e), (0x5d, 0x5d), (0x85, 0x85),
   (0xa0, 0xa0), (0x1680, 0x1680), (0x2000, 0x200a), (0x2028, 0x2029), (0x202f, 0x202f), (0x205f, 0x205f),
   (0x3000, 0x3000)]

private theorem contains_separatorRanges {c : Char} (separates : isReferenceCharacter c = false) :
    separatorRanges.contains c = true := by
  have cases : Text.isBlank c = true ∨ c = '"' ∨ c = '\'' ∨ c = ')' ∨ c = '>' ∨ c = ']' := by
    by_contra kept
    simp only [not_or, Bool.not_eq_true] at kept
    simp [isReferenceCharacter, kept] at separates
  rcases cases with blank | rfl | rfl | rfl | rfl | rfl
  · simp only [Text.isBlank, Bool.or_eq_true, Bool.and_eq_true, decide_eq_true_eq, beq_iff_eq] at blank
    simp only [CodeRanges.contains, separatorRanges, List.any_cons, List.any_nil, Bool.or_eq_true, Bool.and_eq_true,
      decide_eq_true_eq]
    omega
  all_goals decide

/-- Ranges that lie apart have no common character. -/
theorem CodeRanges.not_contains_of_apart {first second : CodeRanges}
    (apart : ∀ range ∈ first, ∀ other ∈ second, range.2 < other.1 ∨ other.2 < range.1) {c : Char}
    (inside : first.contains c = true) : second.contains c = false := by
  obtain ⟨range, member, within⟩ := List.any_eq_true.mp inside
  refine List.any_eq_false.mpr fun other member' within' => ?_
  have := apart range member other member'
  simp only [Bool.and_eq_true, decide_eq_true_eq] at within within'
  omega

private theorem separatorRanges_apart :
    ∀ range ∈ separatorRanges, ∀ other ∈ wordRanges, range.2 < other.1 ∨ other.2 < range.1 := by
  decide +kernel

/-- The letters and digits of the first 128 characters are the only ones that count as such. -/
theorem isReferenceCharacter_of_isWord {c : Char} (word : isWord c = true) : isReferenceCharacter c = true := by
  by_contra separates
  have apart := CodeRanges.not_contains_of_apart separatorRanges_apart
    (contains_separatorRanges (Bool.eq_false_iff.mpr separates))
  exact Bool.noConfusion (word.symm.trans apart)

end Unicode

/-- A rule that brings no character of some kind into words brings none into texts. -/
theorem Words.not_mem_rewrite {rule : Text → Text × List Text} {barred : Char}
    (keeps : ∀ word, barred ∉ word → barred ∉ (rule word).1) {text : Text} (absent : barred ∉ text) :
    barred ∉ (rewrite rule text).1 := by
  induction text using Words.induction with
  | last word whole =>
    rw [rewrite_word rule whole]
    exact keeps word absent
  | more word separator rest whole separates ih =>
    rw [List.mem_append, List.mem_cons, not_or, not_or] at absent
    rw [rewrite_append_cons rule separates, rewrite_word rule whole]
    simp only [List.mem_append, List.mem_cons, not_or]
    exact ⟨keeps word absent.1, absent.2.1, ih absent.2.2⟩

namespace References

private theorem isReferenceCharacter_of_isAddressCharacter {c : Char} (address : isAddressCharacter c = true) :
    isReferenceCharacter c = true := by
  simp only [isAddressCharacter, Bool.or_eq_true, beq_iff_eq] at address
  rcases address with (alphanum | rfl) | rfl
  · have word := Unicode.isWord_of_isAlphanum c.toNat
      (Nat.lt_of_le_of_lt (Unicode.range_of_isAlphanum alphanum).2 (by decide))
    rw [Char.ofNat_toNat] at word
    exact Unicode.isReferenceCharacter_of_isWord (word alphanum)
  · decide
  · decide

/-! ## Tokens -/

/-- The end of a longest row: what comes after it does not belong to a reference. -/
def Ends (after : Text) : Prop := ∀ c ∈ after.head?, isReferenceCharacter c = false

/-- Where a text goes on as a longest row of characters of references, that row is known. -/
theorem eq_of_longest {word after token after' : Text} (same : word ++ after = token ++ after')
    (whole : ∀ c ∈ word, isReferenceCharacter c = true) (ends : Ends after)
    (whole' : ∀ c ∈ token, isReferenceCharacter c = true) (ends' : Ends after') : word = token ∧ after = after' := by
  have row {word after : Text} (whole : ∀ c ∈ word, isReferenceCharacter c = true) (ends : Ends after) :
      (word ++ after).takeWhile isReferenceCharacter = word := by
    rw [List.takeWhile_append_of_pos whole]
    cases after with
    | nil => exact List.append_nil word
    | cons c rest => rw [List.takeWhile_cons_of_neg (by simp [ends c rfl]), List.append_nil]
  have words : word = token := by rw [← row whole ends, same, row whole' ends']
  subst words
  exact ⟨rfl, List.append_cancel_left same⟩

/-- The token of a reference that steps out of the directory: two dots, a slash and at least one more character,
as many as there are, except after a colon or a slash. -/
structure IsParent (previous : Option Char) (token after : Text) : Prop where
  text : ∃ more, token = ['.', '.', '/'] ++ more ∧ more ≠ [] ∧ ∀ c ∈ more, isReferenceCharacter c = true
  ends : Ends after
  previous : previous ≠ some ':' ∧ previous ≠ some '/'

/-- The token of a reference after an at sign: a word character, a dot or a slash follows the sign, and there is a
slash after that, with as many characters around it as there are, except after a character of an address. -/
structure IsAnchored (previous : Option Char) (token after : Text) : Prop where
  text : ∃ first middle last, token = '@' :: first :: (middle ++ '/' :: last) ∧
    (Unicode.isWord first = true ∨ first = '.' ∨ first = '/') ∧ ∀ c ∈ middle ++ last, isReferenceCharacter c = true
  ends : Ends after
  previous : ∀ c ∈ previous, isAddressCharacter c = false

/-- What a kind of tokens and the test of where one begins have to do with each other. -/
structure Finds (begins : Option Char → Text → Bool) (isToken : Option Char → Text → Text → Prop) : Prop where
  /-- A token is not empty and consists of characters of references. -/
  whole : ∀ {previous token after}, isToken previous token after →
    token ≠ [] ∧ ∀ c ∈ token, isReferenceCharacter c = true
  /-- A token goes on as long as it can. -/
  ends : ∀ {previous token after}, isToken previous token after → Ends after
  /-- A longest row is a token exactly if a reference begins with it. -/
  begins_iff : ∀ {previous word after}, (∀ c ∈ word, isReferenceCharacter c = true) → Ends after →
    (isToken previous word after ↔ begins previous word = true)
  /-- Whether a reference begins after a separator is known without a look at the separator. -/
  separated : ∀ {separator}, isReferenceCharacter separator = false → ∀ word,
    begins (some separator) word = begins none word

theorem finds_parent : Finds beginsParent IsParent where
  whole := by
    rintro previous token after ⟨⟨more, rfl, notEmpty, whole⟩, -, -⟩
    have sign : ∀ c ∈ ['.', '.', '/'], isReferenceCharacter c = true := by decide
    refine ⟨List.append_ne_nil_of_left_ne_nil (by decide) _, fun c member => ?_⟩
    exact (List.mem_append.mp member).elim (sign c) (whole c)
  ends found := found.ends
  begins_iff := by
    intro previous word after whole ends
    simp only [beginsParent, Bool.and_eq_true, bne_iff_ne, decide_eq_true_eq, List.isPrefixOf_iff_prefix]
    constructor
    · rintro ⟨⟨more, rfl, notEmpty, -⟩, -, colon, slash⟩
      have long := List.length_pos_iff.mpr notEmpty
      exact ⟨⟨⟨List.prefix_append _ _, by simp only [List.length_append, List.length_cons, List.length_nil]; omega⟩,
        colon⟩, slash⟩
    · rintro ⟨⟨⟨⟨more, rfl⟩, long⟩, colon⟩, slash⟩
      refine ⟨⟨more, rfl, ?_, fun c member => whole c (List.mem_append_right _ member)⟩, ends, colon, slash⟩
      rintro rfl
      exact absurd long (by decide)
  separated := by
    intro separator separates word
    have apart {c : Char} (inside : isReferenceCharacter c = true) : (some separator != some c) = true := by
      refine bne_iff_ne.mpr fun same => ?_
      rw [Option.some.inj same, inside] at separates
      cases separates
    rw [beginsParent, beginsParent, apart (by decide), apart (by decide)]
    rfl

theorem finds_anchored : Finds beginsAnchored IsAnchored where
  whole := by
    rintro previous token after ⟨⟨first, middle, last, rfl, named, whole⟩, -, -⟩
    refine ⟨List.cons_ne_nil _ _, fun c member => ?_⟩
    simp only [List.mem_cons, List.mem_append] at member whole
    rcases member with rfl | rfl | inside | rfl | inside
    · decide
    · rcases named with word | rfl | rfl
      · exact Unicode.isReferenceCharacter_of_isWord word
      · decide
      · decide
    · exact whole c (.inl inside)
    · decide
    · exact whole c (.inr inside)
  ends found := found.ends
  begins_iff := by
    intro previous word after whole ends
    constructor
    · rintro ⟨⟨first, middle, last, rfl, named, -⟩, -, apart⟩
      have apart' : previous.all (!isAddressCharacter ·) = true := by
        cases previous with
        | none => rfl
        | some c => simp [apart c rfl]
      simp only [beginsAnchored, Bool.and_eq_true, Bool.or_eq_true, beq_iff_eq, List.contains_iff_mem]
      exact ⟨⟨or_assoc.mpr named, List.mem_append_right _ List.mem_cons_self⟩, apart'⟩
    · intro begun
      unfold beginsAnchored at begun
      split at begun
      · rename_i first rest
        simp only [Bool.and_eq_true, Bool.or_eq_true, beq_iff_eq, List.contains_iff_mem] at begun
        obtain ⟨⟨named, slash⟩, apart⟩ := begun
        obtain ⟨middle, last, rfl⟩ := List.append_of_mem slash
        refine ⟨⟨first, middle, last, rfl, or_assoc.mp named, fun c member => whole c ?_⟩, ends, fun c same => ?_⟩
        · simp only [List.mem_cons, List.mem_append] at member ⊢
          exact .inr (.inr (member.imp_right .inr))
        · cases same
          simpa using apart
      · cases begun
  separated := by
    intro separator separates word
    have apart : isAddressCharacter separator = false := by
      by_contra address
      rw [isReferenceCharacter_of_isAddressCharacter (Bool.not_eq_false _ ▸ address)] at separates
      cases separates
    unfold beginsAnchored
    split <;> simp [apart]

/-! ## Passes -/

/-- A pass over a text: where a token begins it is replaced by an image with some warnings, and the pass goes on after
it; other characters stay. The character before the rest of the text is known. -/
inductive Rewrites (isToken : Option Char → Text → Text → Prop) (outcome : Text → Text → List Text → Prop) :
    Option Char → Text → Text → List Text → Prop
  | done {previous : Option Char} : Rewrites isToken outcome previous [] [] []
  | keep {previous : Option Char} {c : Char} {rest written : Text} {told : List Text}
      (noToken : ∀ token after, c :: rest = token ++ after → ¬ isToken previous token after)
      (later : Rewrites isToken outcome (some c) rest written told) :
      Rewrites isToken outcome previous (c :: rest) (c :: written) told
  | replace {previous : Option Char} {token after image written : Text} {said told : List Text}
      (found : isToken previous token after) (becomes : outcome token image said)
      (later : Rewrites isToken outcome token.getLast? after written told) :
      Rewrites isToken outcome previous (token ++ after) (image ++ written) (said ++ told)

/-- A word, by the character before it, with its reference rewritten by a rule. -/
def rewriteFrom (begins : Option Char → Text → Bool) (rule : Text → Text × List Text) (previous : Option Char)
    (word : Text) : Text × List Text :=
  match cutAfter? begins previous word with
  | none => (word, [])
  | some cut => (cut.before ++ (rule cut.reference).1, (rule cut.reference).2)

variable {begins : Option Char → Text → Bool} {isToken : Option Char → Text → Text → Prop}
  {rule : Text → Text × List Text} {outcome : Text → Text → List Text → Prop} {barred : Char}

private theorem rewriteFrom_of_begins {previous : Option Char} {c : Char} {rest : Text}
    (begun : begins previous (c :: rest) = true) : rewriteFrom begins rule previous (c :: rest) = rule (c :: rest) := by
  rw [rewriteFrom, cutAfter?, if_pos begun]
  rfl

private theorem rewriteFrom_of_not_begins {previous : Option Char} {c : Char} {rest : Text}
    (kept : ¬ begins previous (c :: rest) = true) :
    rewriteFrom begins rule previous (c :: rest) =
      (c :: (rewriteFrom begins rule (some c) rest).1, (rewriteFrom begins rule (some c) rest).2) := by
  rw [rewriteFrom, rewriteFrom, cutAfter?, if_neg kept]
  cases cutAfter? begins (some c) rest <;> rfl

/-- At the beginning of a text or after a separator a word is rewritten as it is on its own. -/
theorem rewriteFrom_separated (finds : Finds begins isToken) {previous : Option Char}
    (separated : ∀ c ∈ previous, isReferenceCharacter c = false) (word : Text) :
    rewriteFrom begins rule previous word = rewriteWord begins rule word := by
  have cuts : cutAfter? begins previous word = cut? begins word := by
    cases previous with
    | none => rfl
    | some separator =>
      cases word with
      | nil => rfl
      | cons c rest => rw [cut?, cutAfter?, cutAfter?, finds.separated (separated separator rfl)]
  rw [rewriteFrom, cuts]
  rfl

namespace Finds

/-- In what begins with a word, at most the whole word is a token. -/
theorem eq_of_token (finds : Finds begins isToken) {previous : Option Char} {word after token after' : Text}
    (whole : ∀ c ∈ word, isReferenceCharacter c = true) (ends : Ends after) (same : word ++ after = token ++ after')
    (found : isToken previous token after') : word = token ∧ begins previous word = true := by
  obtain ⟨rfl, rfl⟩ := eq_of_longest same whole ends (finds.whole found).2 (finds.ends found)
  exact ⟨rfl, (finds.begins_iff whole ends).mp found⟩

/-- No token begins with a separator. -/
theorem not_token (finds : Finds begins isToken) {previous : Option Char} {separator : Char} {rest token after : Text}
    (separates : isReferenceCharacter separator = false) (same : separator :: rest = token ++ after) :
    ¬ isToken previous token after := by
  intro found
  have empty := (finds.eq_of_token (List.forall_mem_nil _) (fun c here => ?_) same found).1
  · exact (finds.whole found).1 empty.symm
  · cases here
    exact separates

/-- The rewriting of a word is a pass over it. -/
theorem rewrites_word (finds : Finds begins isToken)
    (correct : ∀ previous token, begins previous token = true → barred ∉ token →
      outcome token (rule token).1 (rule token).2)
    {word after written : Text} {told : List Text} (whole : ∀ c ∈ word, isReferenceCharacter c = true)
    (absent : barred ∉ word) (ends : Ends after) (later : ∀ previous, Rewrites isToken outcome previous after written told)
    (previous : Option Char) :
    Rewrites isToken outcome previous (word ++ after) ((rewriteFrom begins rule previous word).1 ++ written)
      ((rewriteFrom begins rule previous word).2 ++ told) := by
  induction word generalizing previous with
  | nil => exact later previous
  | cons c rest ih =>
    by_cases begun : begins previous (c :: rest) = true
    · rw [rewriteFrom_of_begins begun]
      exact .replace ((finds.begins_iff whole ends).mpr begun) (correct previous _ begun absent) (later _)
    · -- A token here would be all that is left of the word, and a reference would begin with it.
      rw [rewriteFrom_of_not_begins begun]
      refine .keep (fun token after' same found => begun ?_) (ih ?_ ?_ (some c))
      · exact (finds.eq_of_token whole ends same found).2
      · exact fun d member => whole d (List.mem_cons_of_mem c member)
      · exact fun member => absent (List.mem_cons_of_mem c member)

/-- The rewriting of the words of a text is a pass over the text. -/
theorem rewrites (finds : Finds begins isToken)
    (correct : ∀ previous token, begins previous token = true → barred ∉ token →
      outcome token (rule token).1 (rule token).2)
    {text : Text} (absent : barred ∉ text) :
    Rewrites isToken outcome none text (Words.rewrite (rewriteWord begins rule) text).1
      (Words.rewrite (rewriteWord begins rule) text).2 := by
  -- Before a word there is nothing or a separator, and neither matters to where references begin.
  suffices pass : ∀ previous : Option Char, (∀ c ∈ previous, isReferenceCharacter c = false) →
      Rewrites isToken outcome previous text (Words.rewrite (rewriteWord begins rule) text).1
        (Words.rewrite (rewriteWord begins rule) text).2 from
    pass none fun c noChar => by cases noChar
  induction text using Words.induction with
  | last word whole =>
    intro previous separated
    have pass := finds.rewrites_word correct whole absent (fun c noChar => by cases noChar)
      (fun _ => Rewrites.done) previous
    rw [List.append_nil, List.append_nil, List.append_nil, rewriteFrom_separated finds separated] at pass
    rw [Words.rewrite_word _ whole]
    exact pass
  | more word separator rest whole separates ih =>
    intro previous separated
    rw [List.mem_append, List.mem_cons, not_or, not_or] at absent
    have later (previous : Option Char) : Rewrites isToken outcome previous (separator :: rest)
        (separator :: (Words.rewrite (rewriteWord begins rule) rest).1) (Words.rewrite (rewriteWord begins rule) rest).2 :=
      .keep (fun token after same => finds.not_token separates same)
        (ih absent.2.2 (some separator) fun c here => by cases here; exact separates)
    have pass := finds.rewrites_word correct whole absent.1 (fun c here => by cases here; exact separates) later previous
    rw [rewriteFrom_separated finds separated] at pass
    rw [Words.rewrite_append_cons _ separates, Words.rewrite_word _ whole]
    exact pass

end Finds

end References

end PromptCompiler
