import PromptCompiler.Text.Basic

/-! # Line endings

A document ends its lines with a line feed, or with a carriage return and a line feed. The compiler
works on line feeds only and puts the document's own ending back at the end.
-/

namespace PromptCompiler

/-- How a document ends its lines. -/
inductive LineEnding where
  | lf
  | crlf
deriving DecidableEq, Repr

namespace LineEnding

/-- One carriage return before one line feed is enough for a document to count as ending its lines so. -/
def detect (text : Text) : LineEnding :=
  if Text.occursIn ['\r', '\n'] text then .crlf else .lf

/-- The line feeds of a text without the carriage return directly before each. -/
def toLineFeeds : Text → Text
  | [] => []
  | '\r' :: '\n' :: rest => '\n' :: toLineFeeds rest
  | c :: rest => c :: toLineFeeds rest

/-- Lines end as wanted: before every line feed comes a carriage return, or the text stays as it is. -/
def restore : LineEnding → Text → Text
  | .lf, text => text
  | .crlf, text => text.flatMap fun c => if c = '\n' then ['\r', '\n'] else [c]

end LineEnding

end PromptCompiler
