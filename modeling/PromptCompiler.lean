import PromptCompiler.Main
import PromptCompiler.Proofs.BodyLines
import PromptCompiler.Proofs.CleanReview
import PromptCompiler.Proofs.Cleanup
import PromptCompiler.Proofs.ConfinedRuns
import PromptCompiler.Proofs.ExitCodes
import PromptCompiler.Proofs.FailedRuns
import PromptCompiler.Proofs.GrownTables
import PromptCompiler.Proofs.KeptTargets
import PromptCompiler.Proofs.LineEndings
import PromptCompiler.Proofs.OutsideRoot
import PromptCompiler.Proofs.Recompile
import PromptCompiler.Proofs.ReturnedArtifacts
import PromptCompiler.Proofs.Tallies
import PromptCompiler.Proofs.ToolAccuracy
import PromptCompiler.Proofs.Withheld
import PromptCompiler.Proofs.ToolSpellings
import PromptCompiler.Proofs.MovedEntries
import PromptCompiler.Proofs.SavedTables
import PromptCompiler.Proofs.ToolBlocks
import PromptCompiler.Proofs.StableBodies
import PromptCompiler.Proofs.MappedTools
import PromptCompiler.Proofs.Containment
import PromptCompiler.Proofs.PassedOnTools
