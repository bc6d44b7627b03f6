import Euvieouvi.Lib.Ancestry
import Euvieouvi.Lib.Grouping
import Euvieouvi.Lib.Latest
import Euvieouvi.Lib.Newest
import Euvieouvi.Lib.Runs
import Euvieouvi.Lib.UnionFind
import Euvieouvi.Projection.Dirty
import Euvieouvi.Projection.Tree
import Euvieouvi.Queue.NoLoss
import Euvieouvi.Projection.Exact
import Euvieouvi.Connectors.Dtos
import Euvieouvi.Reconcile.EmbeddedIdentifiers
import Euvieouvi.Reconcile.Merge
import Euvieouvi.Reconcile.Entry
import Euvieouvi.Reconcile.Survivors
import Euvieouvi.Reconcile.Hierarchy
import Euvieouvi.Reconcile.History
import Euvieouvi.Reconcile.Physical
import Euvieouvi.WatchSync.Groups
import Euvieouvi.Jobs.JobRun
import Euvieouvi.Jobs.Queue
import Euvieouvi.Jobs.Safety
import Euvieouvi.Jobs.Cancellation
import Euvieouvi.Jobs.Durable
import Euvieouvi.Lib.Paging
import Euvieouvi.Sync.LibraryScan
import Euvieouvi.Sync.SourceIdentity
import Euvieouvi.Sync.Watermark
import Euvieouvi.Sync.FullScan
import Euvieouvi.Lib.Keys
import Euvieouvi.Projection.GroupKeys
import Euvieouvi.Projection.RowOrder
import Euvieouvi.Projection.SafePartition
import Euvieouvi.Lib.Programs
import Euvieouvi.Lib.Caches
import Euvieouvi.Persist.Service
import Euvieouvi.Persist.Metadata
import Euvieouvi.Persist.Hierarchy
import Euvieouvi.Persist.Playback
import Euvieouvi.Persist.Media
import Euvieouvi.Persist.Writes
import Euvieouvi.Persist.Trace
import Euvieouvi.Catalog.Layers
import Euvieouvi.Reconcile.Steps
import Euvieouvi.Reconcile.Calls
import Euvieouvi.Reconcile.FileSafety
import Euvieouvi.Catalog.Places
import Euvieouvi.Catalog.Listings
import Euvieouvi.Catalog.Shelves
import Euvieouvi.Catalog.Forest
import Euvieouvi.Catalog.Seasons
import Euvieouvi.Catalog.ManualMatch
import Euvieouvi.Catalog.MatchKept
import Euvieouvi.Catalog.Durable
import Euvieouvi.Catalog.MatchRuns
import Euvieouvi.Persist.Pages
import Euvieouvi.Persist.CacheKeys
import Euvieouvi.Persist.Failures
import Euvieouvi.Persist.References
import Euvieouvi.Sync.Availability
import Euvieouvi.Sync.ActiveRuns
import Euvieouvi.Sync.Executor
import Euvieouvi.Api.Collections
import Euvieouvi.Jobs.Schedule
import Euvieouvi.WatchSync.Delivery
import Euvieouvi.WatchSync.Cutoff
import Euvieouvi.Webhooks.Activity
import Euvieouvi.Webhooks.Completions
import Euvieouvi.Projection.Known
import Euvieouvi.Web.Watched
import Euvieouvi.Connectors.Pages
import Euvieouvi.Connectors.PlexClient
import Euvieouvi.Sync.PagedMedia
import Euvieouvi.Sync.Coverage
import Euvieouvi.WatchSync.Prepare
import Euvieouvi.WatchSync.Apply
import Euvieouvi.WatchSync.Convergence
import Euvieouvi.Playback.Knowledge
import Euvieouvi.Playback.Calls
import Euvieouvi.Playback.Agreement
import Euvieouvi.Persist.Identifiers
import Euvieouvi.Playback.Recorded
import Euvieouvi.Sync.Unavailable
import Euvieouvi.Sync.Retention
import Euvieouvi.WatchSync.Interleaved
import Euvieouvi.Scripts.TraktArchive
import Euvieouvi.Scripts.TraktSteady
import Euvieouvi.Lib.Stores
import Euvieouvi.Sync.NewServer
import Euvieouvi.Sync.Isolation
import Euvieouvi.Webhooks.NowPlaying
import Euvieouvi.Webhooks.Staleness
import Euvieouvi.Queue.Superseded
import Euvieouvi.Queue.Attempts
import Euvieouvi.Playback.Containers
import Euvieouvi.Sync.Counters
import Euvieouvi.Connectors.History
import Euvieouvi.Connectors.JellyfinHistory
import Euvieouvi.WatchSync.Bridges
import Euvieouvi.Identity.Remaps
import Euvieouvi.Identity.CanonicalPaths
import Euvieouvi.Jobs.Claiming
import Euvieouvi.WatchSync.Observed
import Euvieouvi.Runtime.Credentials
import Euvieouvi.Runtime.ExternalImages
import Euvieouvi.Persist.Returning
import Euvieouvi.Runtime.CircuitBreaker
import Euvieouvi.Lib.Blanks
import Euvieouvi.Lib.Cuttings
import Euvieouvi.Reconcile.CleanTitles
import Euvieouvi.Lib.Batches
import Euvieouvi.Sync.StatementSizes
import Euvieouvi.Lib.Masking
import Euvieouvi.Lib.MaskReading
import Euvieouvi.Runtime.LogRedaction
import Euvieouvi.Runtime.RedactedTexts
import Euvieouvi.Lib.Datetimes
import Euvieouvi.Persist.StatementInvariants
import Euvieouvi.Persist.ReferenceInvariants
import Euvieouvi.Persist.Stamps
import Euvieouvi.Lib.ParentMaps
import Euvieouvi.Projection.UnionFind
import Euvieouvi.Reconcile.Stamps
import Euvieouvi.WatchSync.MatchingRun
import Euvieouvi.Sync.Sweep
import Euvieouvi.Lib.Doubles
import Euvieouvi.Lib.Json
import Euvieouvi.Sync.ResumePosition
import Euvieouvi.Catalog.Revision
import Euvieouvi.Catalog.Operations
import Euvieouvi.Catalog.RevisionRuns
import Euvieouvi.Lib.Wakeups
import Euvieouvi.Jobs.Worker
import Euvieouvi.Jobs.Wakeups
import Euvieouvi.Runtime.MasterKey
import Euvieouvi.Runtime.OperationalSamples
import Euvieouvi.Enrichment.Service
import Euvieouvi.Enrichment.Additions
import Euvieouvi.Enrichment.Records
import Euvieouvi.Enrichment.Artwork
import Euvieouvi.Enrichment.Executor
