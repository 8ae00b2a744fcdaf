import Scriptling.Main
import Scriptling.Proofs.Verdict
import Scriptling.Proofs.Moves
import Scriptling.Proofs.Follows
import Scriptling.Proofs.ExpressionVerdict
import Scriptling.Proofs.Acceptance
import Scriptling.Proofs.FrontEnds
import Scriptling.Proofs.Locality
import Scriptling.Proofs.ViablePrefix
import Scriptling.Proofs.Failures
import Scriptling.Proofs.ReadBack
import Scriptling.Proofs.Actions
import Scriptling.Proofs.Watching
import Scriptling.Proofs.ParsedTrees
import Scriptling.Proofs.IterationLimit
import Scriptling.Proofs.SoundRuns
import Scriptling.Proofs.Agreement
import Scriptling.Proofs.DocumentRoundTrip
import Scriptling.Proofs.ErrorPlaces
import Scriptling.Proofs.TraceLevels
import Scriptling.Proofs.TraceAccount
import Scriptling.Proofs.RunEndings
import Scriptling.Proofs.JsonNumbers
import Scriptling.Proofs.JsonText
import Scriptling.Proofs.DocumentRuns
import Scriptling.Proofs.StoredTrees
import Scriptling.Proofs.Mentions
import Scriptling.Proofs.Frames
import Scriptling.Proofs.Lockstep
import Scriptling.Proofs.Dependence
import Scriptling.Proofs.Termination
import Scriptling.Proofs.UnreadInput
import Scriptling.Proofs.Lexicon
import Scriptling.Proofs.Tiling
import Scriptling.Proofs.TokenPlaces
import Scriptling.Proofs.LineBreaks
import Scriptling.Proofs.Seams
import Scriptling.Proofs.Absorption
import Scriptling.Proofs.Concatenation
import Scriptling.Proofs.Equivalence
import Scriptling.Proofs.Shorthand
import Scriptling.Proofs.BareBlocks
import Scriptling.Proofs.Nearest
import Scriptling.Proofs.ShortestDecimal
import Scriptling.Proofs.PlainNumbers
import Scriptling.Proofs.DoubleValues
import Scriptling.Proofs.PowerSign
import Scriptling.Proofs.DocumentSchema
