import PromptCompiler.Text.Basic

/-! # JSON values

The values that tool tables and audit annotations are read into. The compiler looks only for texts,
lists of texts and objects of texts; numbers are kept as they are written.
-/

namespace PromptCompiler

/-- A JSON value; an object keeps its members as written, repeated keys included. A string or a key that holds half
a pair of code units is no text. -/
inductive Json where
  | null
  | boolean (value : Bool)
  | number (numeral : Text)
  | string (text : Option Text)
  | array (items : List Json)
  | object (members : List (Option Text × Json))

namespace Json

def isString : Json → Bool
  | .string _ => true
  | _ => false

def text? : Json → Option Text
  | .string text => text
  | _ => none

/-! ## Why there is no value -/

/-- The values that hold others. -/
inductive Container where
  | array
  | object
deriving DecidableEq, Repr

inductive Fault where
  /-- The text is no JSON. -/
  | malformed
  /-- An array or an object is to be opened when no more may be. -/
  | tooDeep (container : Container)
deriving DecidableEq, Repr

/-- What ends more than the reading of a text. -/
inductive Stop where
  | tooDeep (container : Container)
  /-- A string is needed that is no text. -/
  | halfPair
deriving DecidableEq, Repr

namespace Container

def name : Container → Text
  | .array => "array".toList
  | .object => "object".toList

end Container

def Stop.message : Stop → Text
  | .tooDeep container =>
    "maximum recursion depth exceeded while decoding a JSON ".toList ++ container.name ++
      " from a unicode string".toList
  | .halfPair => "surrogates not allowed".toList

/-- The texts of an array that holds nothing but strings. -/
def texts? : Json → Except Stop (Option (List Text))
  | .array items =>
    if items.all isString then
      match items.mapM text? with
      | some texts => .ok (some texts)
      | none => .error .halfPair
    else .ok none
  | _ => .ok none

end Json

end PromptCompiler
