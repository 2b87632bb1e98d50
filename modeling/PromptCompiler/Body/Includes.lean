import PromptCompiler.Text.Blank

/-! # Include lines

A line that holds an at sign after optional blanks includes what follows it. Such a line becomes an
instruction to read that file. The word `include` after the sign is left out where something
follows it.
-/

namespace PromptCompiler.Includes

def instruction : Text := "- Read file at: ".toList

/-- The word that may stand between the at sign and the target. -/
def word : Text := "include".toList

/-- The target in what follows the at sign. -/
def target (rest : Text) : Text :=
  if word.isPrefixOf rest then
    let gap := (rest.drop word.length).takeWhile Text.isLineBlank
    let after := (rest.drop word.length).dropWhile Text.isLineBlank
    if gap = [] then Text.trim rest
    else if after ≠ [] then Text.trim after
    else if gap.length = 1 then Text.trim rest
    else []
  else Text.trim rest

def target? (line : Text) : Option Text :=
  match line.dropWhile Text.isLineBlank with
  | '@' :: c :: rest => some (target (c :: rest))
  | _ => none

/-- A line with its include turned into an instruction. -/
def convertLine (line : Text) : Text :=
  match target? line with
  | some target => instruction ++ target
  | none => line

/-- A text with its include lines turned into instructions. -/
def convert (text : Text) : Text := Text.joinLines ((Text.lines text).map convertLine)

end PromptCompiler.Includes
