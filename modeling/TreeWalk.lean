import TreeWalk.Interpreter
import TreeWalk.Config.Reading
import TreeWalk.Span.Reading
import TreeWalk.Proofs.Acyclic
import TreeWalk.Proofs.Arithmetic
import TreeWalk.Proofs.ArrayTexts
import TreeWalk.Proofs.Blame
import TreeWalk.Proofs.BreakSafety
import TreeWalk.Proofs.CallDepth
import TreeWalk.Proofs.CallFrames
import TreeWalk.Proofs.CallPolicy
import TreeWalk.Proofs.CaseSelection
import TreeWalk.Proofs.CleanUp
import TreeWalk.Proofs.ConfigTexts
import TreeWalk.Proofs.Declarations
import TreeWalk.Proofs.Frame
import TreeWalk.Proofs.Isolation
import TreeWalk.Proofs.SpanTexts
import TreeWalk.Proofs.JsonExport
import TreeWalk.Proofs.KeyedAccess
import TreeWalk.Proofs.LoopFree
import TreeWalk.Proofs.MatchedCalls
import TreeWalk.Proofs.NearestBinding
import TreeWalk.Proofs.Positions
import TreeWalk.Proofs.ShortCircuit
import TreeWalk.Proofs.StepAsAssignment
import TreeWalk.Proofs.StepLimit
import TreeWalk.Proofs.TakenBreaks
import TreeWalk.Proofs.Termination
import TreeWalk.Proofs.SuccessiveRuns
import TreeWalk.Proofs.ByteOrder
import TreeWalk.Proofs.Identity
import TreeWalk.Proofs.ObjectEntries
import TreeWalk.Proofs.Growth
