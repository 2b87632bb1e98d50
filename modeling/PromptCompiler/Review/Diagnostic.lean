import PromptCompiler.Text.Basic

/-! # Diagnostics

A review runs five checks in a fixed order. A diagnostic says which check found what about which
artifact. Two of the checks only warn.
-/

namespace PromptCompiler

/-- The checks of a review. -/
inductive Check where
  /-- There are enough sources. -/
  | threshold
  /-- Every source has an artifact. -/
  | coverage
  /-- The tools of an artifact are those that the tool table gives now. -/
  | toolAccuracy
  /-- What the source needs is in the artifact. -/
  | integrity
  /-- The artifact is what compiling its source gives now. -/
  | staleness
deriving DecidableEq, Repr

namespace Check

def all : List Check := [.threshold, .coverage, .toolAccuracy, .integrity, .staleness]

def name : Check → Text
  | .threshold => "threshold".toList
  | .coverage => "coverage".toList
  | .toolAccuracy => "tool-accuracy".toList
  | .integrity => "structural-integrity".toList
  | .staleness => "staleness".toList

/-- Whether a check only warns. -/
def warns : Check → Bool
  | .threshold | .staleness => true
  | .coverage | .toolAccuracy | .integrity => false

end Check

/-- What a check found. -/
structure Diagnostic where
  check : Check
  /-- The name of the artifact; empty if the finding is about none. -/
  artifact : Text
  message : Text
deriving DecidableEq

namespace Diagnostic

/-- Items with equal keys, in order, under the keys in order of first occurrence. -/
def groupBy {α : Type} (key : α → Text) (items : List α) : List (Text × List α) :=
  (Text.distinct (items.map key)).map fun k => (k, items.filter fun item => key item = k)

def grouped (diagnostics : List Diagnostic) : List (Text × List Diagnostic) :=
  groupBy (·.check.name) diagnostics

end Diagnostic

end PromptCompiler
