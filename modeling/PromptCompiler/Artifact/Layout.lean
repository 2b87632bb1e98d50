import PromptCompiler.Artifact.Annotation

/-! # Layout of artifacts

An artifact consists of its header, the comments on tools, a note on questions where the question
tool is used, and the body, with one blank line between two blocks. Values in the header are
escaped so that they stand between double quotes.
-/

namespace PromptCompiler.Artifact

/-- The tool by which a prompt asks the user. -/
def questionTool : Text := "vscode/askQuestions".toList

/-- How a prompt refers to the question tool. -/
def questionReference : Text := "#tool:".toList ++ questionTool

/-- A value between double quotes: backslashes and double quotes get a backslash before them. -/
def escaped (value : Text) : Text :=
  value.flatMap fun c => if c = '\\' ∨ c = '"' then ['\\', c] else [c]

/-- The blocks that are not blank, each without trailing blanks, with one blank line between two. -/
def joinBlocks (blocks : List Text) : Text :=
  ['\n', '\n'].intercalate ((blocks.filter fun block => Text.trim block ≠ []).map Text.trimEnd)

def questionNoteLines : List Text :=
  ["## Copilot Runtime Adapter (important)".toList,
   [],
   "Upstream GSD command sources may reference an `AskUserQuestion` tool (Claude/OpenCode runtime concept).".toList,
   [],
   "In VS Code Copilot, **do not attempt to call a tool named `AskUserQuestion`**.".toList,
   "Instead, whenever the upstream instructions say \"Use AskUserQuestion\", use **".toList ++
     questionReference ++ "** with:".toList,
   [],
   "- Combine the **Header** and **Question** into a single clear question string.".toList,
   "- If the upstream instruction specifies **Options**, present them as numbered choices.".toList,
   "- If no options are specified, ask as a freeform question.".toList,
   [],
   "**Rules:**".toList,
   "1. If the options include \"Other\", \"Something else\", or \"Let me explain\", and the user selects it, ".toList ++
     "follow up with a freeform question via ".toList ++ questionReference ++ ".".toList,
   "2. Follow the upstream branching and loop rules exactly as written ".toList ++
     "(e.g., \"if X selected, do Y; otherwise continue\").".toList,
   "3. If the upstream flow says to **exit/stop** and run another command, ".toList ++
     "tell the user to run that slash command next, then stop.".toList,
   "4. Use ".toList ++ questionReference ++ " freely; do not guess or assume user intent.".toList,
   [],
   "---".toList,
   []]

def questionNote : Text := Text.joinLines questionNoteLines

/-- The line that hands a prompt to the agent. -/
def routingLine : Text := "agent: agent".toList

def quotedLine (key value : Text) : Text := key ++ ": \"".toList ++ escaped value ++ ['"']

structure Parts where
  command : Text
  /-- What the command does. -/
  description : Text
  /-- How its argument is called; empty if there is none. -/
  argumentHint : Text
  /-- The tools that the source declares, as written. -/
  declared : Option (List Text)
  tools : List Text
  omitted : List Text
  body : Text

namespace Parts

/-- The lines of the header between the delimiters. -/
def headerLines (parts : Parts) : List Text :=
  ["name: ".toList ++ parts.command,
   quotedLine "description".toList parts.description,
   if parts.argumentHint = [] then [] else quotedLine "argument-hint".toList parts.argumentHint,
   toolsLine parts.declared parts.tools,
   routingLine].filter (· ≠ [])

def header (parts : Parts) : Text :=
  Text.joinLines (("---".toList :: parts.headerLines) ++ ["---".toList])

def comments (parts : Parts) : Text :=
  Text.joinLines ([declaredComment parts.declared, omittedComment parts.omitted].filter (· ≠ []))

/-- The note on questions, if the prompt may ask the user. -/
def note (parts : Parts) : Text := if questionTool ∈ parts.tools then questionNote else []

/-- The whole artifact, with a line feed at its end. -/
def render (parts : Parts) : Text :=
  joinBlocks [parts.header, parts.comments, parts.note, parts.body] ++ ['\n']

end Parts

end PromptCompiler.Artifact
