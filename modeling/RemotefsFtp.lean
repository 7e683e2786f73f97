import RemotefsFtp.Core.LTS
import RemotefsFtp.Core.Prog
import RemotefsFtp.Core.Eval
import RemotefsFtp.Core.Call
import RemotefsFtp.Core.Ghost
import RemotefsFtp.L1Text.Str
import RemotefsFtp.L1Text.Path
import RemotefsFtp.L2Remote.Error
import RemotefsFtp.L2Remote.Wire
import RemotefsFtp.L2Remote.Listing
import RemotefsFtp.L2Remote.ListingTotal
import RemotefsFtp.L2Remote.Confined
import RemotefsFtp.L2Remote.Fields
import RemotefsFtp.L2Remote.RowName
import RemotefsFtp.L2Remote.Rows
import RemotefsFtp.L2Remote.Effect
import RemotefsFtp.L2Remote.World
import RemotefsFtp.L3Client.Probe
import RemotefsFtp.L3Client.Sync
import RemotefsFtp.L3Client.SyncStream
import RemotefsFtp.L3Client.SyncOps
import RemotefsFtp.L3Client.Tokio
import RemotefsFtp.L3Client.Commands
import RemotefsFtp.L3Client.Completion
import RemotefsFtp.L3Client.Climb
import RemotefsFtp.L3Client.Evidence
import RemotefsFtp.L3Client.Lookup
import RemotefsFtp.L3Client.Sends
import RemotefsFtp.L4Session.Session
import RemotefsFtp.L4Session.Agree
import RemotefsFtp.L4Session.AgreeOps
import RemotefsFtp.L4Session.View
import RemotefsFtp.L4Session.Tree
import RemotefsFtp.L4Session.Exact
import RemotefsFtp.L4Session.Entries
import RemotefsFtp.L4Session.Script
import RemotefsFtp.L4Session.Opening
import RemotefsFtp.L4Session.Gate
import RemotefsFtp.L4Session.Diagnosis
import RemotefsFtp.L4Session.Law
import RemotefsFtp.L4Session.Ranges
import RemotefsFtp.L5Concurrency.Protocol
import RemotefsFtp.L5Concurrency.Follows
import RemotefsFtp.L5Concurrency.SyncFollows
import RemotefsFtp.L5Concurrency.TokioFollows
import RemotefsFtp.L5Concurrency.Invariant
import RemotefsFtp.L5Concurrency.Steps
import RemotefsFtp.L5Concurrency.System
import RemotefsFtp.L5Concurrency.Channel
import RemotefsFtp.L5Concurrency.Connected
import RemotefsFtp.L5Concurrency.TokioChannel
import RemotefsFtp.L5Concurrency.Mirror
import RemotefsFtp.L5Concurrency.Bookkeeping
import RemotefsFtp.L5Concurrency.Progress
import RemotefsFtp.L5Concurrency.Restart
import RemotefsFtp.L5Concurrency.Marker
import RemotefsFtp.L5Concurrency.Banner
import RemotefsFtp.L5Concurrency.Login
import RemotefsFtp.L5Concurrency.CancelledDownload
