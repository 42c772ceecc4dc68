import Erllama.Lib.Run
import Erllama.Lib.Cover
import Erllama.Lib.Table
import Erllama.Lib.Index
import Erllama.Lib.Pool
import Erllama.Basic
import Erllama.CacheKey
import Erllama.MetaSrv.State
import Erllama.MetaSrv.Step
import Erllama.MetaSrv.Tables
import Erllama.MetaSrv.Availability
import Erllama.MetaSrv.LruMirror
import Erllama.MetaSrv.Refcount
import Erllama.CachePolicy
import Erllama.Backend
import Erllama.Model.State
import Erllama.Model.Saves
import Erllama.Model.Lookup
import Erllama.Model.Admission
import Erllama.Model.Sessions
import Erllama.Model.Results
import Erllama.Model.Tick
import Erllama.Model.Finish
import Erllama.Model.Adapters
import Erllama.Model.Machine
import Erllama.Model.Requests
import Erllama.Model.Effects
import Erllama.Model.Context
import Erllama.Model.Moves
import Erllama.Model.Wellformed
import Erllama.Model.Walk
import Erllama.Model.Events
import Erllama.Model.Slots
import Erllama.Model.Restore
import Erllama.Model.Namespaces
import Erllama.Model.Kv
import Erllama.Model.Contract
import Erllama.Model.Tokens
import Erllama.Model.MapBackend
import Erllama.Model.Adoption
import Erllama.Model.KvAgrees
import Erllama.Model.SavedTokens
import Erllama.Model.MediaBypass
import Erllama.Model.AdapterMoves
import Erllama.Model.Lora
import Erllama.Model.Provenance
import Erllama.Lib.Segments
import Erllama.Lib.Crc
import Erllama.Lib.Prog
import Erllama.MetaSrv.Index
import Erllama.MetaSrv.Reservations
import Erllama.MetaSrv.Prefix
import Erllama.MetaSrv.View
import Erllama.MetaSrv.Told
import Erllama.MetaSrv.Waiters
import Erllama.MetaSrv.Pins
import Erllama.MetaSrv.EvictBytes
import Erllama.MetaSrv.Gc
import Erllama.MetaSrv.Moves
import Erllama.Kvc.Format
import Erllama.Kvc.RoundTrip
import Erllama.Kvc.HitCount
import Erllama.Kvc.Raises
import Erllama.Kvc.Wellformed
import Erllama.Kvc.Crc
import Erllama.Publish.Pipeline
import Erllama.Publish.System
import Erllama.Publish.Sound
import Erllama.Publish.Rules
import Erllama.Publish.Safety
import Erllama.Publish.Confined
import Erllama.Publish.Orphans
import Erllama.Publish.Alone
import Erllama.Publish.Healing
import Erllama.Publish.Metadata
import Erllama.Publish.Pairing
import Erllama.Publish.Superseded
import Erllama.Publish.Scan
import Erllama.Publish.Restart
import Erllama.Publish.Touches
import Erllama.Native.Context
import Erllama.Native.Decode
import Erllama.Native.Speculation
import Erllama.Model.Terms
import Erllama.Model.Notices
import Erllama.Model.Account
import Erllama.Model.Talk
import Erllama.Model.Turns
import Erllama.Model.Answers
import Erllama.Model.Terminal
import Erllama.Model.Queue
import Erllama.Model.Attended
import Erllama.Model.Fifo
import Erllama.Model.Checkpoints
import Erllama.Model.Works
import Erllama.Model.Cancel
import Erllama.Model.Cancelled
import Erllama.Native.LlamaBackend
import Erllama.Native.Inspect
import Erllama.Lib.Monitors
import Erllama.Loading.Registry
import Erllama.Loading.Tracking
import Erllama.Publish.Semaphore
import Erllama.Loading.Depth
import Erllama.Lib.Bisect
import Erllama.Model.Resume
import Erllama.Model.ControlTokens
import Erllama.Opts.LoadConfig
import Erllama.Scheduler
import Erllama.Opts.Policy
import Erllama.Opts.Saves
import Erllama.Opts.Segmentation
import Erllama.Lib.Codes
import Erllama.AdapterSets
import Erllama.Native.Grammar
import Erllama.Model.Fork
import Erllama.Model.Overfull
import Erllama.Model.Batch
import Erllama.Lib.Occurrence
import Erllama.Model.Life
import Erllama.Model.Spacing
import Erllama.Model.StopScan
import Erllama.Model.Collect
import Erllama.Model.Lives
import Erllama.Model.Unarmed
import Erllama.Native.Adapters
import Erllama.Model.Plain
import Erllama.Native.Speculator
import Erllama.Native.Committed
import Erllama.Lib.Locks
import Erllama.Native.Handles
import Erllama.Native.Lifetimes
import Erllama.Native.Upkeep
import Erllama.Native.Footprints
import Erllama.Native.Knowledge
import Erllama.Native.NifCalls
import Erllama.Native.Borrowing
import Erllama.Native.Faults
import Erllama.Native.LockOrder
import Erllama.Native.Leaks
import Erllama.Lib.Ownership
import Erllama.Native.Chain
import Erllama.Native.ChainOwns
import Erllama.Native.SamplerRuns
import Erllama.Native.Text
