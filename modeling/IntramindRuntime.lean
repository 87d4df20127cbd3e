import IntramindRuntime.Ledger.Budget
import IntramindRuntime.Ledger.OpenAttempt
import IntramindRuntime.Ledger.ComputeHold
import IntramindRuntime.Ledger.SendLimits
import IntramindRuntime.Ledger.Results
import IntramindRuntime.Ledger.Quiesce
import IntramindRuntime.Ledger.Impossible
import IntramindRuntime.Ledger.BufferedPolicy
import IntramindRuntime.Ledger.Cleanup
import IntramindRuntime.Concurrency.TerminalOperations
import IntramindRuntime.Concurrency.TerminalRoots
import IntramindRuntime.Concurrency.EndedAttempts
import IntramindRuntime.Concurrency.Envelope
import IntramindRuntime.Concurrency.FinishedRuns
import IntramindRuntime.Concurrency.OutboxFencing
import IntramindRuntime.Scheduling.Capacity
import IntramindRuntime.Scheduling.Identities
import IntramindRuntime.Scheduling.IdleProof
import IntramindRuntime.Scheduling.Ownership
import IntramindRuntime.Scheduling.Coverage
import IntramindRuntime.Scheduling.Queues
import IntramindRuntime.Scheduling.Orphans
import IntramindRuntime.Scheduling.OneShot
import IntramindRuntime.Scheduling.Readiness
import IntramindRuntime.Scheduling.Reconciliation
import IntramindRuntime.Scheduling.ControlPlane
import IntramindRuntime.Scheduling.Controller
import IntramindRuntime.Workflow.StepPlanner
import IntramindRuntime.Workflow.OperationKeys
import IntramindRuntime.Workflow.Broker
import IntramindRuntime.Execution.Discipline
import IntramindRuntime.Execution.Stranded
import IntramindRuntime.Content.Messages
import IntramindRuntime.Content.Guard
import IntramindRuntime.Proxy.EvidenceChunks
import IntramindRuntime.Proxy.RoundTrip
import IntramindRuntime.Proxy.EmbeddingDriver
import IntramindRuntime.Proxy.Dispatch
import IntramindRuntime.Proxy.Injection
import IntramindRuntime.Release.Gate
import IntramindRuntime.Storage.Spool
import IntramindRuntime.Proxy.Channel
