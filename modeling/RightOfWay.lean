import RightOfWay.Bench.Countdown
import RightOfWay.Bench.Script
import RightOfWay.Command.Session
import RightOfWay.Command.Transcript
import RightOfWay.Format.Control
import RightOfWay.Format.Logic
import RightOfWay.Format.Traffic
import RightOfWay.Logic.StackForm
import RightOfWay.Main
import RightOfWay.Proofs.Outcome
import RightOfWay.Proofs.Offences
import RightOfWay.Proofs.Boolean
import RightOfWay.Proofs.Orbit
import RightOfWay.Proofs.Separation
import RightOfWay.Proofs.Wrecks
import RightOfWay.Proofs.Invariant
import RightOfWay.Proofs.Tally
import RightOfWay.Proofs.Verdict
import RightOfWay.Proofs.Accounts
import RightOfWay.Proofs.Shield
import RightOfWay.Proofs.ExactSum
import RightOfWay.Proofs.Repetitions
import RightOfWay.Proofs.Support
import RightOfWay.Proofs.FiniteTrace
import RightOfWay.Proofs.Comparison
import RightOfWay.Proofs.Acceptance
import RightOfWay.Proofs.Completion
import RightOfWay.Proofs.Lanes
import RightOfWay.Proofs.PileUps
import RightOfWay.Proofs.Conservation
import RightOfWay.Proofs.HeldLanes
import RightOfWay.Proofs.Motion
import RightOfWay.Proofs.Budget
import RightOfWay.Proofs.StaticErrors
import RightOfWay.Proofs.FormulaJson
import RightOfWay.Proofs.Noninterference
import RightOfWay.Proofs.Splitting
import RightOfWay.Proofs.Dossiers
import RightOfWay.Proofs.Endings
import RightOfWay.Proofs.HeldConflicts
import RightOfWay.Proofs.Numerals
import RightOfWay.Proofs.Rereading
import RightOfWay.Proofs.ReportJson
import RightOfWay.Proofs.DossierJson
import RightOfWay.Proofs.Rounding
import RightOfWay.Proofs.Extremes
import RightOfWay.Proofs.Duality
import RightOfWay.Proofs.Lattice
import RightOfWay.Proofs.Polarity
import RightOfWay.Proofs.Prefixes
import RightOfWay.Proofs.Coincidence
import RightOfWay.Proofs.Shapes
import RightOfWay.Proofs.Closeness
import RightOfWay.Proofs.Breakdown
import RightOfWay.Proofs.Seeds
import RightOfWay.Proofs.Unambiguity
