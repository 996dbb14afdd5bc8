import OrsonHighlight.Cli.Run
import OrsonHighlight.Editor.Session
import OrsonHighlight.EnclosingBlock
import OrsonHighlight.Lexeme.PatternSource
import OrsonHighlight.Main
import OrsonHighlight.Proofs.MaximalRuns
import OrsonHighlight.Proofs.RangeReply
import OrsonHighlight.Proofs.Fences
import OrsonHighlight.Proofs.Subrange
import OrsonHighlight.Proofs.RegionContent
import OrsonHighlight.Proofs.LineNumbers
import OrsonHighlight.Proofs.TokenPlaces
import OrsonHighlight.Proofs.FenceOrder
import OrsonHighlight.Proofs.Readback
import OrsonHighlight.Proofs.AcceptedModes
import OrsonHighlight.Proofs.RunEndings
import OrsonHighlight.Proofs.OpenStrings
import OrsonHighlight.Proofs.TouchingComments
import OrsonHighlight.Proofs.DecodedOutputs
import OrsonHighlight.Proofs.RunEffects
import OrsonHighlight.Proofs.LastWriters
import OrsonHighlight.Proofs.DialectEdits
import OrsonHighlight.Proofs.ModeLookup
import OrsonHighlight.Proofs.Positions
import OrsonHighlight.Proofs.InnermostBlocks
import OrsonHighlight.Proofs.ConfiguredModes
import OrsonHighlight.Proofs.Reconfiguration
import OrsonHighlight.Proofs.PatternGrammar
import OrsonHighlight.Proofs.RangeGrammar
import OrsonHighlight.Proofs.TableExtension
