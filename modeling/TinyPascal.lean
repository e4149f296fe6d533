import TinyPascal.Main
import TinyPascal.Proofs.Acceptance
import TinyPascal.Proofs.Recovery.Isolation
import TinyPascal.Proofs.RoundTrip.Recorded
import TinyPascal.Proofs.RoundTrip.Reprinted
import TinyPascal.Tree.Anchor
import TinyPascal.Proofs.Scoping.Table
import TinyPascal.Proofs.Spelling.Places
import TinyPascal.Proofs.Walk.Basic
import TinyPascal.Proofs.Typing.Synthesis
import TinyPascal.Proofs.Typing.Agreement
import TinyPascal.Proofs.Typing.Quotients
import TinyPascal.Proofs.Scoping.Itinerary
import TinyPascal.Proofs.Scoping.Resolution
import TinyPascal.Proofs.Scoping.Placement
import TinyPascal.Proofs.Scoping.Route
import TinyPascal.Proofs.Scoping.Effects
import TinyPascal.Proofs.Scoping.Standing
import TinyPascal.Proofs.Scoping.Findings
import TinyPascal.Proofs.Scoping.Lexical
import TinyPascal.Proofs.Scoping.Unused
import TinyPascal.Proofs.Scoping.Early
import TinyPascal.Proofs.Parallel.Whole
import TinyPascal.Proofs.Progress.Recursion
import TinyPascal.Proofs.Progress.Turns
import TinyPascal.Proofs.Progress.Termination
import TinyPascal.Proofs.Spelling.Order
import TinyPascal.Proofs.Parallel.Truncated
import TinyPascal.Proofs.Discipline.Blame
import TinyPascal.Proofs.Discipline.Candour
import TinyPascal.Proofs.Faults
import TinyPascal.Proofs.Walk.Marks
import TinyPascal.Proofs.Walk.Forgetting
import TinyPascal.Proofs.Walk.Mirror
import TinyPascal.Proofs.Walk.Annotation
import TinyPascal.Proofs.Walk.Idempotence
import TinyPascal.Proofs.Parallel.Pipeline
import TinyPascal.Proofs.Recording.Merge
import TinyPascal.Proofs.Recording.Delivery
import TinyPascal.Proofs.Recording.Faithful
import TinyPascal.Proofs.Recovery.Boundary
import TinyPascal.Proofs.Recovery.Declarations
import TinyPascal.Proofs.Recovery.Reads
import TinyPascal.Proofs.Recovery.Headers
import TinyPascal.Proofs.Recovery.Sections
import TinyPascal.Proofs.Recovery.Nested
import TinyPascal.Proofs.Recovery.BrokenHeader
import TinyPascal.Proofs.Recovery.VariableBlock
import TinyPascal.Proofs.Shape.Whole
import TinyPascal.Proofs.Verdict
import TinyPascal.Proofs.Siblings.Exchange
import TinyPascal.Proofs.Style.Warnings
import TinyPascal.Proofs.Spelling.Longest
import TinyPascal.Proofs.Walk.Parentheses
import TinyPascal.Proofs.Walk.Settled
import TinyPascal.Proofs.RoundTrip.Rescanned
import TinyPascal.Proofs.Spelling.Driving
import TinyPascal.Proofs.Recording.Interleaving
import TinyPascal.Proofs.Scoping.OrderedMaps
import TinyPascal.Proofs.Discipline.Account
import TinyPascal.Proofs.Scoping.Frame
import TinyPascal.Proofs.Discipline.Panic
