import ChronoShare.Support.SelfDelimiting
import ChronoShare.Ndn.NameOps
import ChronoShare.Support.MaxMap
import ChronoShare.Support.Run
import ChronoShare.Support.Table
import ChronoShare.SyncLog.Store
import ChronoShare.SyncLog.Digest
import ChronoShare.SyncLog.Invariant
import ChronoShare.SyncLog.Operations
import ChronoShare.SyncLog.Differences
import ChronoShare.SyncLog.Exchange
import ChronoShare.Ndn.Name
import ChronoShare.Ndn.Uri
import ChronoShare.SyncCore.Core
import ChronoShare.SyncCore.Invariant
import ChronoShare.SyncCore.MessageFormat
import ChronoShare.SyncCore.Answer
import ChronoShare.SyncCore.Decoding
import ChronoShare.Support.Tiling
import ChronoShare.SyncCore.Reports
import ChronoShare.SyncCore.Interleaving
import ChronoShare.SyncCore.Announcement
import ChronoShare.ActionLog.Store
import ChronoShare.Support.LastWriter
import ChronoShare.ActionLog.FileView
import ChronoShare.ActionLog.MessageFormat
import ChronoShare.ActionLog.Lookup
import ChronoShare.ActionLog.Network
import ChronoShare.ActionLog.Coherence
import ChronoShare.ActionLog.Convergence
import ChronoShare.Fetcher.Pipeline
import ChronoShare.Fetcher.Labels
import ChronoShare.Fetcher.Window
import ChronoShare.Fetcher.Progress
import ChronoShare.Fetcher.Completion
import ChronoShare.Fetcher.Outstanding
import ChronoShare.Fetcher.Received
import ChronoShare.ObjectStore.Store
import ChronoShare.ObjectStore.RoundTrip
import ChronoShare.ObjectStore.Assembly
import ChronoShare.ActionLog.Completeness
import ChronoShare.FetchManager.Tasks
import ChronoShare.Support.Disk
import ChronoShare.Dispatcher.Segments
import ChronoShare.StateServer.Restore
import ChronoShare.Dispatcher.Containment
import ChronoShare.Dispatcher.CompleteFiles
import ChronoShare.ActionLog.Failures
import ChronoShare.ActionLog.Durability
import ChronoShare.ContentServer.Store
import ChronoShare.ContentServer.Answers
import ChronoShare.SyncLog.Calls
import ChronoShare.SyncLog.Merge
import ChronoShare.SyncLog.Remembered
import ChronoShare.SyncLog.Reported
import ChronoShare.SyncLog.Locators
import ChronoShare.FetchManager.TaskDb
import ChronoShare.SyncCore.Interests
import ChronoShare.ActionLog.Parents
import ChronoShare.ActionLog.LatestAction
import ChronoShare.Scheduler.Requests
import ChronoShare.ActionLog.Directories
import ChronoShare.ActionLog.Listings
import ChronoShare.ActionLog.Folders
import ChronoShare.ActionLog.RecentActions
import ChronoShare.ContentServer.Routing
import ChronoShare.ContentServer.BaseNames
import ChronoShare.StateServer.RestoreLookup
import ChronoShare.StateServer.ActionJson
import ChronoShare.FetchManager.Ranges
import ChronoShare.Dispatcher.Assembled
import ChronoShare.SyncCore.LocalNumbers
import ChronoShare.Executor.Workers
import ChronoShare.Scheduler.Rescheduling
import ChronoShare.FetchManager.Retries
import ChronoShare.FetchManager.Schedule
import ChronoShare.Scheduler.Deregistration
import ChronoShare.Ndn.NameText
import ChronoShare.Scheduler.Tags
import ChronoShare.Scheduler.Orderly
import ChronoShare.Fetcher.Unfinished
import ChronoShare.FetchManager.Threads
import ChronoShare.FetchManager.Slots
import ChronoShare.FetchManager.Disposal
import ChronoShare.Ccnx.Name
import ChronoShare.Ccnx.NameText
import ChronoShare.ObjectStore.HashText
import ChronoShare.Support.WorkingCopy
import ChronoShare.SyncLog.RememberFailures
import ChronoShare.Support.Like
import ChronoShare.FsWatcher.Removals
import ChronoShare.Support.Chain
import ChronoShare.Ccnx.Verifier
import ChronoShare.Ccnx.Termination
import ChronoShare.Ccnx.Trust
import ChronoShare.Support.Gossip
import ChronoShare.SyncLog.Network
import ChronoShare.SyncCore.Network
import ChronoShare.Http.Server
import ChronoShare.Executor.Order
import ChronoShare.ActionLog.Ancestry
import ChronoShare.StateServer.Pages
import ChronoShare.Scheduler.Callbacks
import ChronoShare.FsWatcher.Folder
import ChronoShare.FsWatcher.Reports
