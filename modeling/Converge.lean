import Converge.Command.Arguments
import Converge.Command.Grammar
import Converge.Command.Perform
import Converge.Command.Shell
import Converge.Command.Starter
import Converge.Command.Task
import Converge.Command.Workspace
import Converge.Console.Grid
import Converge.Console.Views
import Converge.Digest.Sha256
import Converge.Environment.File
import Converge.Error
import Converge.Execution.Coordinator
import Converge.Execution.Report
import Converge.Execution.Retry
import Converge.Execution.Run
import Converge.Execution.Schedule
import Converge.Exposure.Port
import Converge.Exposure.Wiring
import Converge.Fingerprint
import Converge.Graph.Basic
import Converge.Graph.Build
import Converge.Graph.Order
import Converge.Host.Basic
import Converge.Host.Machine
import Converge.Host.Path
import Converge.Http.Address
import Converge.Http.HostName
import Converge.Http.Percent
import Converge.Http.Status
import Converge.Http.Url
import Converge.Instant.Basic
import Converge.Instant.Text
import Converge.Json
import Converge.Json.Decode
import Converge.Json.Reader
import Converge.Json.Writer
import Converge.Main
import Converge.Number
import Converge.Number.Double
import Converge.Number.Shortest
import Converge.Plan.Basic
import Converge.Plan.Decision
import Converge.Plan.Patch
import Converge.Plan.Removal
import Converge.Plan.Substitution
import Converge.Plan.Synthesis
import Converge.Positions
import Converge.Program
import Converge.Provider.Basic
import Converge.Provider.Memory
import Converge.Provider.Remote
import Converge.Reconcile.Basic
import Converge.Reconcile.Facilities
import Converge.Reconcile.Result
import Converge.Resource.Attribute
import Converge.Resource.Kind
import Converge.Resource.Node
import Converge.Resource.Reference
import Converge.Stack.Basic
import Converge.Stack.Check
import Converge.Stack.Discovery
import Converge.Stack.Environment
import Converge.Stack.Schema
import Converge.Stack.Settings
import Converge.State.Basic
import Converge.State.Document
import Converge.State.Fold
import Converge.State.Location
import Converge.State.Lock
import Converge.State.Medium
import Converge.State.Store
import Converge.Table
import Converge.Text.Blank
import Converge.Text.Integer
import Converge.Text.Lines
import Converge.Text.Width
import Converge.Yaml.Cursor
import Converge.Yaml.Node
import Converge.Yaml.Plain
import Converge.Yaml.Property
import Converge.Yaml.Scalar
import Converge.Yaml.Scan
import Converge.Yaml.Schema
import Converge.Yaml.Token
import Converge.Proofs.Graph.Coherence
import Converge.Proofs.Graph.Order
import Converge.Proofs.Table
import Converge.Proofs.Except
import Converge.Proofs.Graph.Build
import Converge.Proofs.Agreement
import Converge.Proofs.Plan.Resolution
import Converge.Proofs.Plan.Decision
import Converge.Proofs.Plan.Cascade
import Converge.Proofs.Plan.Removal
import Converge.Proofs.Plan.Synthesis
import Converge.Proofs.Plan.Replacement
import Converge.Proofs.Execution.Moment
import Converge.Proofs.Execution.Schedule
import Converge.Proofs.Execution.Soundness
import Converge.Proofs.Execution.Deletion
import Converge.Proofs.Execution.Run
import Converge.Proofs.Execution.Values
import Converge.Proofs.Plan.Convergence
import Converge.Proofs.State.Fold
import Converge.Proofs.State.Bookkeeping
import Converge.Proofs.Convergence
import Converge.Proofs.Reconcile.Turn
import Converge.Proofs.Reconcile.Session
import Converge.Proofs.Reconcile.Protection
import Converge.Proofs.Execution.Dispatch
import Converge.Proofs.Graph.Acyclic
import Converge.Proofs.Plan.Totality
import Converge.Proofs.Reflection
import Converge.Proofs.Reconcile.Acyclicity
import Converge.Proofs.Reconcile.Recording
import Converge.Proofs.Plan.Fitting
import Converge.Proofs.Execution.Effects
import Converge.Proofs.Execution.Waiting
import Converge.Proofs.Execution.Retry
import Converge.Proofs.Provider.Memory
import Converge.Proofs.Reconcile.Fate
import Converge.Proofs.Reconcile.Custody
import Converge.Proofs.Execution.Completion
import Converge.Proofs.Confluence
import Converge.Proofs.Freshness
import Converge.Proofs.Supply
import Converge.Proofs.Execution.Rollback
import Converge.Proofs.Execution.Foresight
import Converge.Proofs.Plan.Supply
import Converge.Proofs.Plan.Coverage
import Converge.Proofs.Plan.Termination
import Converge.Proofs.Reconcile.Review
import Converge.Proofs.Plan.Unresolved
import Converge.Proofs.Crowd
import Converge.Proofs.Json.RoundTrip
import Converge.Proofs.Instant.Calendar
import Converge.Proofs.Instant.RoundTrip
import Converge.Proofs.State.Lock
import Converge.Proofs.State.Medium
import Converge.Proofs.State.Exclusion
import Converge.Proofs.Reconcile.Medium
import Converge.Proofs.Reconcile.Ownership
import Converge.Proofs.Reconcile.Restraint
import Converge.Proofs.Graph.Rearrangement
import Converge.Proofs.Plan.Rearrangement
import Converge.Proofs.Stack.Check
import Converge.Proofs.Exposure.Wiring
import Converge.Proofs.Stack.Document
import Converge.Proofs.Json.Number
import Converge.Proofs.Json.Storable
import Converge.Proofs.Json.Decode
import Converge.Proofs.Resource.Reference
import Converge.Proofs.Resource.Attribute
import Converge.Proofs.State.Document
import Converge.Proofs.Plan.Document
import Converge.Proofs.Plan.Persistence
import Converge.Proofs.Graph.LeastOrder
import Converge.Proofs.Stack.Key
import Converge.Proofs.Json.Compact
import Converge.Proofs.Fingerprint
import Converge.Proofs.Resource.Alike
import Converge.Proofs.Graph.Fingerprint
import Converge.Proofs.Json.Suffix
import Converge.Proofs.Stack.Alike
import Converge.Proofs.Stack.Fingerprint
import Converge.Proofs.Graph.Construction
import Converge.Proofs.Graph.Cycle
import Converge.Proofs.Plan.Substitution
import Converge.Proofs.Plan.Unwinding
import Converge.Proofs.Plan.Patching
import Converge.Proofs.Provider.Remote
import Converge.Proofs.Reconcile.Success
import Converge.Proofs.Reconcile.Account
import Converge.Proofs.Host.Path
import Converge.Proofs.Command.Rehearsal
import Converge.Proofs.Lookup
import Converge.Proofs.Graph.Reachability
import Converge.Proofs.Graph.Columns
import Converge.Proofs.Execution.Counters
import Converge.Proofs.Provider.Numbering
