import PromptCompiler.Body.Words
import PromptCompiler.FileTree.Resolve
import PromptCompiler.Path.Containment
import PromptCompiler.Unicode.WordCharacter

/-! # References to files

A document refers to files by paths that step out of its directory, and by paths after an at sign.
Where the file exists inside the root, the reference is rewritten to the path from the root; where it
exists outside, there is a warning; otherwise the reference stays. A reference extends to the end of
its word, so a word holds at most one of each kind.
-/

namespace PromptCompiler

/-- What references are resolved against. -/
structure Surroundings where
  tree : FileTree
  root : Path
  document : Path

namespace Surroundings

def directory (surroundings : Surroundings) : Path := surroundings.document.parent

/-- The name of the document in messages. -/
def label (surroundings : Surroundings) : Text := surroundings.document.name

end Surroundings

namespace References

/-- A word cut where a reference begins. -/
structure Cut where
  before : Text
  /-- The reference, up to the end of the word. -/
  reference : Text
deriving DecidableEq

/-- The first place in a word where a reference begins, by a test of the character before it and of
the word from there on. -/
def cutAfter? (begins : Option Char → Text → Bool) (previous : Option Char) : Text → Option Cut
  | [] => none
  | c :: rest =>
    if begins previous (c :: rest) then some ⟨[], c :: rest⟩
    else (cutAfter? begins (some c) rest).map fun cut => { cut with before := c :: cut.before }

/-- The first place in a word where a reference begins. -/
def cut? (begins : Option Char → Text → Bool) (word : Text) : Option Cut := cutAfter? begins none word

/-- A slash at the end of the reference is kept. -/
def keepSlash (reference relative : Text) : Text :=
  if reference.getLast? = some '/' ∧ relative.getLast? ≠ some '/' then relative ++ ['/'] else relative

/-! ## References that step out of the directory -/

/-- Two dots, a slash and at least one more character begin a reference, except after a colon or a
slash. -/
def beginsParent (previous : Option Char) (text : Text) : Bool :=
  ['.', '.', '/'].isPrefixOf text && 3 < text.length && previous != some ':' && previous != some '/'

/-- A reference that steps out of the directory, rewritten, with its warnings. -/
def rewriteParent (surroundings : Surroundings) (reference : Text) : Text × List Text :=
  let target := surroundings.directory.lexical reference
  if surroundings.tree.present target then
    match surroundings.root.within? target with
    | some relative => (keepSlash reference relative, [])
    | none =>
      (reference,
        [surroundings.label ++ ": path resolves outside workspace root: ".toList ++ reference])
  else (reference, [])

/-! ## References after an at sign -/

/-- Whether a character before an at sign makes it part of something else, such as an address. -/
def isAddressCharacter (c : Char) : Bool := c.isAlphanum || c == '_' || c == '-'

/-- An at sign begins a reference if a word character, a dot or a slash follows and a slash comes
after that, except after a character of an address. -/
def beginsAnchored (previous : Option Char) (text : Text) : Bool :=
  match text with
  | '@' :: c :: rest =>
    (Unicode.isWord c || c == '.' || c == '/') && rest.contains '/' &&
      previous.all (!isAddressCharacter ·)
  | _ => false

/-- The first of the places that a reference after an at sign may mean where there is something: from
the root, and from the directory of the document. -/
def anchoredTarget? (surroundings : Surroundings) (reference : Text) : Option Path :=
  ([surroundings.root, surroundings.directory].map (·.lexical reference)).find?
    surroundings.tree.present

/-- A reference after an at sign, the sign included, rewritten, with its warnings. -/
def rewriteAnchored (surroundings : Surroundings) (signed : Text) : Text × List Text :=
  let reference := signed.tail
  match anchoredTarget? surroundings reference with
  | none => (signed, [])
  | some target =>
    match surroundings.root.within? target with
    | some relative => ('@' :: keepSlash reference relative, [])
    | none =>
      (signed,
        [surroundings.label ++ ": @-reference resolves outside workspace root: ".toList ++ reference])

/-! ## Both kinds -/

/-- A word with its reference rewritten by a rule. -/
def rewriteWord (begins : Option Char → Text → Bool) (rule : Text → Text × List Text) (word : Text) :
    Text × List Text :=
  match cut? begins word with
  | none => (word, [])
  | some cut => (cut.before ++ (rule cut.reference).1, (rule cut.reference).2)

/-- A text with its references rewritten: first those that step out of the directory, then those
after an at sign. -/
def rewrite (surroundings : Surroundings) (text : Text) : Text × List Text :=
  let parents := Words.rewrite (rewriteWord beginsParent (rewriteParent surroundings)) text
  let anchored := Words.rewrite (rewriteWord beginsAnchored (rewriteAnchored surroundings)) parents.1
  (anchored.1, parents.2 ++ anchored.2)

end References

end PromptCompiler
