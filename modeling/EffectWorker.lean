import EffectWorker.Effect.Cause
import EffectWorker.Effect.Program
import EffectWorker.Effect.Runs
import EffectWorker.Effect.Scope
import EffectWorker.Effect.ForEach
import EffectWorker.Effect.Shared
import EffectWorker.Effect.Simulation
import EffectWorker.Effect.Linearization
import EffectWorker.Effect.Slots
import EffectWorker.Effect.Straight
import EffectWorker.Effect.FiberRef
import EffectWorker.Effect.Numbering
import EffectWorker.Services
import EffectWorker.Queue.Handler
import EffectWorker.Queue.Batch
import EffectWorker.Queue.Layers
import EffectWorker.Queue.Settlement
import EffectWorker.Queue.Isolation
import EffectWorker.Queue.Platform
import EffectWorker.Queue.Turns
import EffectWorker.Queue.NoLoss
import EffectWorker.Queue.Lifecycle
import EffectWorker.Queue.Order
import EffectWorker.Queue.Audit
import EffectWorker.Queue.Removal
import EffectWorker.Queue.Example
import EffectWorker.Text.Number
import EffectWorker.Text.Pattern
import EffectWorker.Users.Schema
import EffectWorker.Users.IdCodec
import EffectWorker.Users.Table
import EffectWorker.Users.Http
import EffectWorker.Users.Rpc
import EffectWorker.Users.Results
import EffectWorker.Users.Rejections
import EffectWorker.Users.Runs
import EffectWorker.Users.Equivalence
import EffectWorker.Users.ReadYourWrites
import EffectWorker.Users.Truthful
import EffectWorker.Users.Readable
import EffectWorker.Users.Identity
import EffectWorker.Users.Directory
import EffectWorker.Users.Ledger
import EffectWorker.Users.Seen
import EffectWorker.Users.Contract
import EffectWorker.Worker.Bindings
import EffectWorker.Worker.Isolate
import EffectWorker.Worker.Background
import EffectWorker.Fetch.Calls
import EffectWorker.Fetch.Server
import EffectWorker.Fetch.Finalizers
import EffectWorker.Fetch.Connections
import EffectWorker.Fetch.Runtimes
import EffectWorker.Fetch.Answers
import EffectWorker.Fetch.Deployment
import EffectWorker.Fetch.Serving
import EffectWorker.Fetch.Refinement
import EffectWorker.Fetch.Visibility
import EffectWorker.Fetch.Contract
import EffectWorker.Fetch.Ledger
import EffectWorker.Fetch.Effort
import EffectWorker.Fetch.Progress
import EffectWorker.Scripts.Seed
import EffectWorker.Scripts.SeedRuns
