/-! # Sets of code points as ranges

A property of characters is given as the list of its maximal ranges of code points, in increasing
order.
-/

namespace PromptCompiler.Unicode

/-- Ranges of code points, each given by its first and its last member. -/
abbrev CodeRanges := List (Nat × Nat)

def CodeRanges.contains (ranges : CodeRanges) (c : Char) : Bool :=
  ranges.any fun range => range.1 ≤ c.toNat && c.toNat ≤ range.2

end PromptCompiler.Unicode
