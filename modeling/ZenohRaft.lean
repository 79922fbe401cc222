import ZenohRaft.Lib.Order
import ZenohRaft.Lib.Majority
import ZenohRaft.Lib.WriteBehind
import ZenohRaft.Quorum
import ZenohRaft.Membership
import ZenohRaft.Vote
import ZenohRaft.State
import ZenohRaft.Progress
import ZenohRaft.Engine
import ZenohRaft.Frame
import ZenohRaft.Node
import ZenohRaft.Cluster
import ZenohRaft.Election.Engine
import ZenohRaft.Election.Node
import ZenohRaft.Election.Safety
import ZenohRaft.Lib.LeaderLog
import ZenohRaft.Log.History
import ZenohRaft.Log.View
import ZenohRaft.Startup
import ZenohRaft.LogIdList
import ZenohRaft.Recovery
import ZenohRaft.Reversion
import ZenohRaft.CommittedPrefix
import ZenohRaft.Log.Memory
import ZenohRaft.Log.Handlers
import ZenohRaft.Log.Following
import ZenohRaft.LogIdRefinement
import ZenohRaft.QuorumAccepted
import ZenohRaft.Replication.Stream
import ZenohRaft.Lib.PartialRun
import ZenohRaft.Purge.Cursors
import ZenohRaft.Purge.Schedule
import ZenohRaft.Purge.Inflight
import ZenohRaft.Purge.Leader
import ZenohRaft.Purge.LeaderRun
import ZenohRaft.EffectiveMembership
import ZenohRaft.Log.Written
import ZenohRaft.Replication.Matching
import ZenohRaft.SnapshotInstall
import ZenohRaft.KeyLogIds
import ZenohRaft.QuorumUpgrade
import ZenohRaft.Replication.EntryValid
import ZenohRaft.Replication.Reports
import ZenohRaft.IndexArithmetic
import ZenohRaft.Election.Roles
import ZenohRaft.Replication.Handles
import ZenohRaft.Replication.Transmission
import ZenohRaft.FlushWatch
import ZenohRaft.Lib.SortedMap
import ZenohRaft.PendingReads
import ZenohRaft.CommandMerge
import ZenohRaft.MembershipScan
import ZenohRaft.MsgReceiver
import ZenohRaft.Replication.Carried
import ZenohRaft.Replication.ReversedRange
import ZenohRaft.Lib.Thresholds
import ZenohRaft.PendingResponds
import ZenohRaft.Election.Rising
import ZenohRaft.Election.SavedVotes
import ZenohRaft.TickLoop
import ZenohRaft.ResponderQueue
import ZenohRaft.Log.Leading
import ZenohRaft.Log.Campaign
import ZenohRaft.Log.NodeMemory
import ZenohRaft.Log.NodeRun
import ZenohRaft.Log.Safety
