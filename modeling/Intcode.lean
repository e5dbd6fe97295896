import Intcode.Main
import Intcode.Proofs.Execution
import Intcode.Proofs.Supply
import Intcode.Proofs.BestPhases
import Intcode.Proofs.FeedbackAgreement
import Intcode.Proofs.PauseResume
import Intcode.Proofs.FailingCalls
import Intcode.Proofs.Capacity
import Intcode.Proofs.RoundHistory
import Intcode.Proofs.Framing
import Intcode.Proofs.Streams
import Intcode.Proofs.Portions
import Intcode.Proofs.BudgetedRuns
import Intcode.Proofs.IdleRounds
import Intcode.Proofs.Starvation
import Intcode.Proofs.NetworkRuns
import Intcode.Proofs.Resetting
import Intcode.Proofs.SessionHistory
import Intcode.Proofs.Snapshots
import Intcode.Proofs.ChainCalls
import Intcode.Proofs.ProgramText
import Intcode.Proofs.SingleShots
import Intcode.Proofs.Routing
import Intcode.Proofs.Conservation
import Intcode.Proofs.Deadlock
import Intcode.Proofs.Arrivals
import Intcode.Proofs.FailedNodes
import Intcode.Proofs.Lifecycle
import Intcode.Proofs.ProgramGrammar
import Intcode.Proofs.JsonForms
import Intcode.Proofs.JsonDocuments
import Intcode.Proofs.CommandRuns
import Intcode.Proofs.InteractiveRuns
import Intcode.Proofs.Reports
import Intcode.Proofs.CompleteOrders
import Intcode.Proofs.InstructionCells
import Intcode.Proofs.ExactAddresses
import Intcode.Proofs.NodeCounts
import Intcode.Proofs.ListingLines
import Intcode.Proofs.ListingText
import Intcode.Proofs.MemoryHistory
import Intcode.Proofs.StraightRuns
import Intcode.Proofs.ErrorHistory
import Intcode.Proofs.ErrorLines
import Intcode.Proofs.InputLines
import Intcode.Proofs.GuardedExecution
