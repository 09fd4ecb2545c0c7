import CompileCache.Embedder.Desk
import CompileCache.Store.Workspace
import CompileCache.Proofs.RunningDigest
import CompileCache.Proofs.Sidecar
import CompileCache.Proofs.Trial
import CompileCache.Proofs.Disk.Cut
import CompileCache.Proofs.Store.Mounted
import CompileCache.Proofs.Store.Replacement
import CompileCache.Proofs.Store.Entry
import CompileCache.Proofs.Store.Shelf
import CompileCache.Proofs.Store.Refinement
import CompileCache.Proofs.Store.Crash
import CompileCache.Proofs.Store.Room
import CompileCache.Proofs.Session.Verdict
import CompileCache.Proofs.Session.Eviction
import CompileCache.Proofs.Session.Steady
import CompileCache.Proofs.Embedder.Eviction
import CompileCache.Proofs.Embedder.Telling
import CompileCache.Proofs.Embedder.Playing
import CompileCache.Proofs.Embedder.Filing
import CompileCache.Proofs.Embedder.WarmStart
import CompileCache.Proofs.Body.Delivery
import CompileCache.Proofs.Body.Exchange
import CompileCache.Proofs.Body.Conservation
import CompileCache.Proofs.Session.Reception
import CompileCache.Proofs.Session.Cacheless
import CompileCache.Proofs.Session.Chunking
import CompileCache.Proofs.Session.Schedule
import CompileCache.Proofs.Embedder.Ledger
import CompileCache.Proofs.Embedder.Archiving
import CompileCache.Proofs.Session.Reading
import CompileCache.Proofs.Session.Handle
import CompileCache.Proofs.Embedder.Reentry
import CompileCache.Proofs.Disk.Agreement
import CompileCache.Proofs.Store.Sharing
import CompileCache.Proofs.Store.Retention
import CompileCache.Proofs.Session.Alike
import CompileCache.Proofs.Session.Company
import CompileCache.Proofs.Store.Obstacles
import CompileCache.Proofs.Store.HalfFiled
import CompileCache.Proofs.Session.Custody
import CompileCache.Proofs.Embedder.Setup
import CompileCache.Proofs.Session.Failing
import CompileCache.Proofs.Disk.Paths
import CompileCache.Proofs.Store.Evicted
import CompileCache.Proofs.Key
import CompileCache.Proofs.Session.Hashing
import CompileCache.Proofs.Embedder.Tokens
import CompileCache.Proofs.Json.Grammar
import CompileCache.Proofs.Json.Tokens
import CompileCache.Proofs.Json.Scalars
import CompileCache.Proofs.Json.Reading
import CompileCache.Proofs.Sidecar.Texts
import CompileCache.Proofs.Session.Progress
