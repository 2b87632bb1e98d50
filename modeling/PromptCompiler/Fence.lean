import PromptCompiler.Text.Blank

/-! # Fenced blocks

A line whose first characters other than blanks are three backticks opens a fenced block, or closes
the open one. A text is balanced when no block stays open.
-/

namespace PromptCompiler.Fence

def mark : Text := "```".toList

/-- Whether a line opens or closes a fenced block. -/
def isFence (line : Text) : Bool := mark.isPrefixOf (Text.trimStart line)

/-- What a scan of a text finds. -/
structure Report where
  /-- The number of fence lines. -/
  count : Nat
  /-- The number, from one, of the line that opens the block left open. -/
  openLine : Option Nat
deriving DecidableEq

/-- Whether no block is left open. -/
def Report.balanced (report : Report) : Bool := report.openLine.isNone

def Report.next (report : Report) (line : Text × Nat) : Report :=
  if isFence line.1 then
    ⟨report.count + 1, if report.openLine.isNone then some line.2 else none⟩
  else report

def scan (text : Text) : Report := ((Text.lines text).zipIdx 1).foldl Report.next ⟨0, none⟩

end PromptCompiler.Fence
