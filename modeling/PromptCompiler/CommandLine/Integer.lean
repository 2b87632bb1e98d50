import PromptCompiler.Text.Blank
import PromptCompiler.Unicode.Decimal

/-! # Integers on the command line

An integer may have blanks around it, a sign, and single low lines between its digits; the digits may
be those of any script. A numeral may not have more digits than `digitLimit`.
-/

namespace PromptCompiler.CommandLine

/-- The most digits that an integer may have. -/
def digitLimit : Nat := 4300

/-- Whether a character may stand around an integer: of the control characters, only those that move
the carriage. -/
def surroundsInteger (c : Char) : Bool := Text.isBlank c && !(0x1c ≤ c.toNat && c.toNat ≤ 0x1f)

/-- The values of digits with single low lines between them, and nothing else. -/
def digits? : Text → Option (List Nat)
  | [] => none
  | [c] => (Unicode.digitValue? c).map ([·])
  | c :: '_' :: rest => do return (← Unicode.digitValue? c) :: (← digits? rest)
  | c :: rest => do return (← Unicode.digitValue? c) :: (← digits? rest)

def ofDigits (digits : List Nat) : Nat := digits.foldl (fun value digit => 10 * value + digit) 0

def natural? (text : Text) : Option Nat := do
  let digits ← digits? text
  if digitLimit < digits.length then none else some (ofDigits digits)

def integer? (text : Text) : Option Int :=
  match Text.trimOf surroundsInteger text with
  | '-' :: rest => (natural? rest).map fun n => -(n : Int)
  | '+' :: rest => (natural? rest).map Int.ofNat
  | rest => (natural? rest).map Int.ofNat

end PromptCompiler.CommandLine
