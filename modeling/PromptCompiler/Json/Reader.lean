import PromptCompiler.Json.Basic

/-! # Reading JSON

A strict reader of the JSON grammar with three more numbers: `NaN`, `Infinity` and `-Infinity`.
Blanks are the space, the tab, the carriage return and the line feed. Control characters may not
stand in strings, and a whole number may not have more digits than `digitLimit`.

Each function takes what it reads from the front of a text and returns the rest. Arrays and objects
nest, and each that is open is a call that has not ended, of which there may be `callLimit`. Apart
from that the recursion is on a bound, of which a text never needs more than `stepBound`.
-/

namespace PromptCompiler.Json

def skipBlanks (text : Text) : Text :=
  text.dropWhile fun c => c == ' ' || c == '\t' || c == '\r' || c == '\n'

/-! ## Strings -/

def hexDigit? (c : Char) : Option Nat :=
  if '0' ≤ c ∧ c ≤ '9' then some (c.toNat - '0'.toNat)
  else if 'a' ≤ c ∧ c ≤ 'f' then some (c.toNat - 'a'.toNat + 10)
  else if 'A' ≤ c ∧ c ≤ 'F' then some (c.toNat - 'A'.toNat + 10)
  else none

def hexValue? (digits : List Char) : Option Nat :=
  digits.foldlM (fun value c => (hexDigit? c).map (16 * value + ·)) 0

/-- What a string is made of: characters, and code units given by their number. -/
inductive StringUnit where
  | char (c : Char)
  | code (unit : Nat)

def shortEscape? : Char → Option Char
  | '"' => some '"'
  | '\\' => some '\\'
  | '/' => some '/'
  | 'b' => some '\x08'
  | 'f' => some '\x0c'
  | 'n' => some '\n'
  | 'r' => some '\r'
  | 't' => some '\t'
  | _ => none

/-- The units of a string up to its closing quote. -/
def readUnits : Text → Option (List StringUnit × Text)
  | [] => none
  | '"' :: rest => some ([], rest)
  | '\\' :: 'u' :: a :: b :: c :: d :: rest => do
    let unit ← hexValue? [a, b, c, d]
    let (units, rest) ← readUnits rest
    return (.code unit :: units, rest)
  | '\\' :: c :: rest => do
    let plain ← shortEscape? c
    let (units, rest) ← readUnits rest
    return (.char plain :: units, rest)
  | c :: rest => do
    if c.toNat < 0x20 || c == '\\' then none
    else
      let (units, rest) ← readUnits rest
      return (.char c :: units, rest)

/-- Whether a code unit opens a pair. -/
def isHighHalf (unit : Nat) : Bool := 0xd800 ≤ unit && unit < 0xdc00

/-- Whether a code unit closes a pair. -/
def isLowHalf (unit : Nat) : Bool := 0xdc00 ≤ unit && unit < 0xe000

/-- The character of a code unit that is not part of a pair; half a pair has none. -/
def lone? (unit : Nat) : Option Char :=
  if isHighHalf unit || isLowHalf unit then none else some (Char.ofNat unit)

/-- The text of a string's units: two halves that stand side by side make one character. -/
def joinUnits? : List StringUnit → Option Text
  | [] => some []
  | .code high :: .code low :: rest =>
    if isHighHalf high && isLowHalf low then
      (joinUnits? rest).map (Char.ofNat (0x10000 + (high - 0xd800) * 0x400 + (low - 0xdc00)) :: ·)
    else do return (← lone? high) :: (← joinUnits? (.code low :: rest))
  | .code unit :: rest => do return (← lone? unit) :: (← joinUnits? rest)
  | .char c :: rest => (joinUnits? rest).map (c :: ·)

/-- The text of a string whose opening quote has been read, if it is one. -/
def readString (text : Text) : Except Fault (Option Text × Text) :=
  match readUnits text with
  | none => .error .malformed
  | some (units, rest) => .ok (joinUnits? units, rest)

/-! ## Numbers and words -/

/-- The most digits that a whole number may have. -/
def digitLimit : Nat := 4300

def spanDigits (text : Text) : Text × Text := text.span Char.isDigit

/-- A decimal point with at least one digit, if it stands at the front. -/
def readFraction : Text → Text × Text
  | '.' :: rest =>
    match spanDigits rest with
    | ([], _) => ([], '.' :: rest)
    | (digits, rest) => ('.' :: digits, rest)
  | text => ([], text)

/-- An exponent with at least one digit, if it stands at the front. -/
def readExponent : Text → Text × Text
  | c :: rest =>
    if c == 'e' || c == 'E' then
      let (sign, after) := match rest with
        | '+' :: after => (['+'], after)
        | '-' :: after => (['-'], after)
        | after => ([], after)
      match spanDigits after with
      | ([], _) => ([], c :: rest)
      | (digits, after) => (c :: sign ++ digits, after)
    else ([], c :: rest)
  | [] => ([], [])

/-- A number without sign: no zero before other digits, and a whole number within the limit. -/
def readUnsigned (text : Text) : Option (Text × Text) :=
  let whole : Option (Text × Text) :=
    match spanDigits text with
    | ([], _) => none
    | ('0' :: zeros, rest) => some (['0'], zeros ++ rest)
    | (digits, rest) => some (digits, rest)
  whole.bind fun (digits, rest) =>
    let (fraction, rest) := readFraction rest
    let (exponent, rest) := readExponent rest
    if fraction.isEmpty && exponent.isEmpty && digitLimit < digits.length then none
    else some (digits ++ fraction ++ exponent, rest)

def readNumber : Text → Option (Text × Text)
  | '-' :: rest => (readUnsigned rest).map fun (numeral, rest) => ('-' :: numeral, rest)
  | text => readUnsigned text

/-- The words that stand for values. -/
def wordValues : List (Text × Json) :=
  [("null".toList, .null), ("true".toList, .boolean true), ("false".toList, .boolean false),
   ("NaN".toList, .number "NaN".toList), ("Infinity".toList, .number "Infinity".toList),
   ("-Infinity".toList, .number "-Infinity".toList)]

/-- A value without parts other than a string: a word or a number. -/
def readAtom (text : Text) : Except Fault (Json × Text) :=
  match wordValues.find? fun entry => entry.1.isPrefixOf text with
  | some (word, value) => .ok (value, text.drop word.length)
  | none =>
    match readNumber text with
    | some (numeral, rest) => .ok (.number numeral, rest)
    | none => .error .malformed

/-! ## Values -/

mutual

/-- A value, with blanks before it. The second number says how many more arrays and objects may be open. -/
def readValue : Nat → Nat → Text → Except Fault (Json × Text)
  | 0, _, _ => .error .malformed
  | bound + 1, left, text =>
    match skipBlanks text with
    | '"' :: rest => (readString rest).map fun (content, rest) => (.string content, rest)
    | '[' :: rest =>
      match left with
      | 0 => .error (.tooDeep .array)
      | left + 1 =>
        match skipBlanks rest with
        | ']' :: rest => .ok (.array [], rest)
        | rest => (readItems bound left rest).map fun (items, rest) => (.array items, rest)
    | '{' :: rest =>
      match left with
      | 0 => .error (.tooDeep .object)
      | left + 1 =>
        match skipBlanks rest with
        | '}' :: rest => .ok (.object [], rest)
        | rest => (readMembers bound left rest).map fun (members, rest) => (.object members, rest)
    | rest => readAtom rest

/-- One or more items up to the closing bracket. -/
def readItems : Nat → Nat → Text → Except Fault (List Json × Text)
  | 0, _, _ => .error .malformed
  | bound + 1, left, text => do
    let (item, rest) ← readValue bound left text
    match skipBlanks rest with
    | ',' :: rest =>
      let (items, rest) ← readItems bound left rest
      return (item :: items, rest)
    | ']' :: rest => return ([item], rest)
    | _ => throw .malformed

/-- One or more members up to the closing brace. -/
def readMembers : Nat → Nat → Text → Except Fault (List (Option Text × Json) × Text)
  | 0, _, _ => .error .malformed
  | bound + 1, left, text =>
    match skipBlanks text with
    | '"' :: rest => do
      let (key, rest) ← readString rest
      match skipBlanks rest with
      | ':' :: rest =>
        let (value, rest) ← readValue bound left rest
        match skipBlanks rest with
        | ',' :: rest =>
          let (members, rest) ← readMembers bound left rest
          return ((key, value) :: members, rest)
        | '}' :: rest => return ([(key, value)], rest)
        | _ => throw .malformed
      | _ => throw .malformed
    | _ => .error .malformed

end

/-- Between two characters taken there are at most two calls. -/
def stepBound (text : Text) : Nat := 2 * text.length + 2

/-- The most calls that may be open at once. -/
def callLimit : Nat := 999

/-- The value that a whole text is written for, read when some calls are already open. -/
def read (calls : Nat) (text : Text) : Except Fault Json := do
  let (value, rest) ← readValue (stepBound text) (callLimit - calls) text
  if (skipBlanks rest).isEmpty then return value else throw .malformed

end PromptCompiler.Json
