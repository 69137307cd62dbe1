import RustySsr.V8Pool.Calls
import RustySsr.V8Pool.Refusals
import RustySsr.V8Pool.Liveness
import RustySsr.V8Pool.Outcome
import RustySsr.V8Pool.Progress
import RustySsr.Engine.ServiceRefinement
import RustySsr.Engine.Agreement
import RustySsr.Cache.Interleaved.Barrier
import RustySsr.Cache.Interleaved.Serial
import RustySsr.Engine.Renewal
import RustySsr.V8Pool.Shutdown
import RustySsr.V8Pool.Accounting
import RustySsr.V8Pool.Soundness
import RustySsr.V8Pool.Ledger
import RustySsr.V8Pool.Transition
import RustySsr.V8Pool.Pool
import RustySsr.Cache.Ssr.TimeToLive
import RustySsr.Cache.Ssr.Replacement
import RustySsr.Cache.Ssr.Invalidation
import RustySsr.Cache.Hot.Exposure
import RustySsr.Cache.Ssr.Provenance
import RustySsr.Cache.Cold.Contents
import RustySsr.Cache.Hot.Latest
import RustySsr.Cache.Hot.Capacity
import RustySsr.Cache.Hot.Refinement
import RustySsr.Cache.Hot.TimeToLive
import RustySsr.Cache.Cold.Victims
import RustySsr.Cache.Cold.Refinement
import RustySsr.Cache.Ssr.Eviction
import RustySsr.Cache.Cold.Overshoot
import RustySsr.Cache.Cold.Capacity
import RustySsr.Cache.Cold.WorkingSet
import RustySsr.Cache.Interleaved.Conservation
import RustySsr.V8Pool.WorkerCount
import RustySsr.Engine.Injection
import RustySsr.Middleware.Coherence
import RustySsr.Engine.Failures
import RustySsr.Engine.Errors
import RustySsr.Engine.TimeToLive
import RustySsr.Engine.Bundle
import RustySsr.Cache.Cold.Reports
import RustySsr.Cache.Cold.Freshness
import RustySsr.Engine.UrlArgument
import RustySsr.Engine.DataArgument
import RustySsr.Cache.Hot.AccessOrder
import RustySsr.Middleware.StaticPath
import RustySsr.Middleware.Acceptance
import RustySsr.Ecmascript.PlainObject
import RustySsr.V8Pool.Storage
import RustySsr.Ecmascript.Script
import RustySsr.Engine.RenderFunction
import RustySsr.Engine.ServiceOutcome
import RustySsr.Engine.ServiceGuarantees
import RustySsr.Engine.ServiceLiveness
import RustySsr.Engine.Memoization
import RustySsr.Cache.Interleaved.Exclusion
import RustySsr.Engine.Unambiguous
import RustySsr.Engine.ServiceMetrics
