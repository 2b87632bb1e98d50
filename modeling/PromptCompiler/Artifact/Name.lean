import PromptCompiler.Text.Basic

/-! # Names of sources, artifacts and commands

A source document is a file whose name ends in `.md`; its artifact is named after it. A command is
named with a colon in the source documents and with a dot in prompts.
-/

namespace PromptCompiler.Artifact

def sourceEnding : Text := ".md".toList

def artifactBeginning : Text := "gsd.".toList

def artifactEnding : Text := ".prompt.md".toList

def isSource (name : Text) : Bool := sourceEnding.isSuffixOf name

def isArtifact (name : Text) : Bool :=
  artifactBeginning.isPrefixOf name && artifactEnding.isSuffixOf name

/-- The name of a source document without its ending. -/
def base (source : Text) : Text := Text.withoutEnding sourceEnding source

/-- The name of the artifact of a source document. -/
def nameFor (source : Text) : Text := artifactBeginning ++ base source ++ artifactEnding

/-- The name of a command in prompts. -/
def commandName (name : Text) : Text := Text.substitute ':' '.' name

end PromptCompiler.Artifact
