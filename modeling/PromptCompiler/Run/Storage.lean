import PromptCompiler.Json.Reader
import PromptCompiler.Json.Writer
import PromptCompiler.Run.Basic
import PromptCompiler.ToolTable.Basic

/-! # Tool tables on disk

A tool table is kept as a JSON object of texts. A table that is not there counts as empty, with a
warning; a file that holds anything else is a fault.
-/

namespace PromptCompiler

namespace ToolTable

/-- The members of an object whose keys are texts. -/
def keyed (members : List (Option Text × Json)) : List (Text × Json) :=
  members.filterMap fun member => member.1.map (·, member.2)

/-- The first key of some entries whose value is no string. -/
def firstNotText? (entries : List (Text × Json)) : Option Text :=
  (entries.find? fun entry => !entry.2.isString).map Prod.fst

/-- The tool table that a JSON value stands for. -/
def ofJson : Json → Except TableFault ToolTable
  | .object members =>
    let map := OrderedMap.ofList (keyed members)
    match firstNotText? map.entries with
    | some key => .error (.notText key)
    | none =>
      if members.all (·.1.isSome) && map.entries.all (·.2.text?.isSome) then
        .ok (.ofList (map.entries.filterMap fun entry => entry.2.text?.map (entry.1, ·)))
      else .error (.stopped .halfPair)
  | _ => .error .notObject

/-- The calls that are open when the file of a table is read. -/
def fileCalls : Nat := 9

/-- The tool table that the bytes of a file stand for. -/
def ofBytes (content : ByteArray) : Except TableFault ToolTable :=
  match Text.ofUtf8? content with
  | none => .error .notUtf8
  | some text =>
    match Json.read fileCalls text with
    | .ok value => ofJson value
    | .error .malformed => .error .notJson
    | .error (.tooDeep container) => .error (.stopped (.tooDeep container))

def fileText (table : ToolTable) : Text := Json.ofEntries table.entries ++ ['\n']

/-- The ending of the name under which a table is written before it takes its place. -/
def draftEnding : Text := ".tmp".toList

def load (path : Path) : Run ToolTable := do
  match ← Run.ask (·.probe path) with
  | none =>
    Run.complain ("WARN: [load_tool_map] ".toList ++ path.name ++ " not found; using empty map".toList)
    return .empty
  | some (.file content) =>
    match ofBytes content with
    | .ok table => return table
    | .error fault => throw (.table path fault)
  | some _ => throw (.table path (.unreadable .isDirectory))

/-- The file at a path becomes that of a tool table; missing directories are made. -/
def save (table : ToolTable) (path : Path) : Run Unit := do
  Run.ensureDirectory path.parent
  Run.replaceText path draftEnding table.fileText

end ToolTable

end PromptCompiler
