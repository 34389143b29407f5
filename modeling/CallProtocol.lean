import CallProtocol.Instr
import CallProtocol.Text.Quoted
import CallProtocol.Text.Fields
import CallProtocol.Double.Decimal
import CallProtocol.Value
import CallProtocol.RecordLayout
import CallProtocol.Signature
import CallProtocol.Abort
import CallProtocol.Clock
import CallProtocol.Plan.Build
import CallProtocol.Event
import CallProtocol.Descriptor
import CallProtocol.Frame
import CallProtocol.Arguments
import CallProtocol.Host
import CallProtocol.Run
import CallProtocol.Host.Action
import CallProtocol.Toml.Document
import CallProtocol.Settings
import CallProtocol.Session
import CallProtocol.Proofs.Execution.Outcome
import CallProtocol.Proofs.Execution.Context
import CallProtocol.Proofs.Plan.Walk
import CallProtocol.Proofs.Machine.Stack
import CallProtocol.Proofs.Execution.Stack
import CallProtocol.Proofs.Execution.Calling
import CallProtocol.Proofs.FrameBalance
import CallProtocol.Proofs.Plan.Calls
import CallProtocol.Proofs.Execution.Activation
import CallProtocol.Proofs.AbortChannel
import CallProtocol.Proofs.Execution.Reaches
import CallProtocol.Proofs.ArgumentFidelity
import CallProtocol.Proofs.Machine.Slots
import CallProtocol.Proofs.Execution.Stores
import CallProtocol.Proofs.Execution.Deliveries
import CallProtocol.Proofs.CallerIsolation
import CallProtocol.Proofs.Plan.WellFormed
import CallProtocol.Proofs.PlanAcceptance
import CallProtocol.Proofs.ReturnConfinement
import CallProtocol.Proofs.UnwrittenResults
import CallProtocol.Proofs.Execution.Nested
import CallProtocol.Proofs.StackTrace
import CallProtocol.Proofs.SlotCoherence
import CallProtocol.Proofs.Machine.Writes
import CallProtocol.Proofs.Plan.Bounds
import CallProtocol.Proofs.Plan.Capacity
import CallProtocol.Proofs.PlanSafety
import CallProtocol.Proofs.InOutCoherence
import CallProtocol.Proofs.Execution.Invocations
import CallProtocol.Proofs.Renaming.Basic
import CallProtocol.Proofs.Renaming.Machine
import CallProtocol.Proofs.Renaming.Execution
import CallProtocol.Proofs.Renaming.Closed
import CallProtocol.Proofs.Renaming.Host
import CallProtocol.Proofs.Renaming.Lead
import CallProtocol.Proofs.Renaming.Tail
import CallProtocol.Proofs.TailCalls
import CallProtocol.Proofs.DispatchAgreement
import CallProtocol.Proofs.Execution.Outgoing
import CallProtocol.Proofs.Execution.Moments
import CallProtocol.Proofs.LiveFrames
import CallProtocol.Proofs.Machine.Parameters
import CallProtocol.Proofs.Execution.Proceeds
import CallProtocol.Proofs.StringReferences
import CallProtocol.Proofs.Plan.Live
import CallProtocol.Proofs.ReturnStorage
import CallProtocol.Proofs.ReturnSemantics
import CallProtocol.Proofs.Execution.Dispatches
import CallProtocol.Proofs.CallAccounting
import CallProtocol.Proofs.Plan.LookAhead
import CallProtocol.Proofs.FirstOffence
import CallProtocol.Proofs.BoundedDepth
import CallProtocol.Proofs.Execution.Residue
import CallProtocol.Proofs.Renaming.Histories
import CallProtocol.Proofs.HistoryIndependence
import CallProtocol.Proofs.Execution.Lookups
import CallProtocol.Proofs.ResultPairing
import CallProtocol.Proofs.Engine.Entries
import CallProtocol.Proofs.Execution.Alike
import CallProtocol.Proofs.DeadCode
import CallProtocol.Proofs.Plan.Scalars
import CallProtocol.Proofs.ScalarParameters
import CallProtocol.Proofs.Engine.Operations
import CallProtocol.Proofs.EngineState
import CallProtocol.Proofs.LayoutPacking
import CallProtocol.Proofs.StagingStack
import CallProtocol.Proofs.ParameterDistribution
import CallProtocol.Proofs.ClockDiscipline
import CallProtocol.Proofs.OperandEncoding
