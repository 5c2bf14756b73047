import Oce.FeedDB.Analysis.MasterLedger
import Oce.Base.Descending
import Oce.FeedDB.Model.Block
import Oce.FeedDB.Model.Node
import Oce.FeedDB.Analysis.NodeView
import Oce.FeedDB.Analysis.DirtyBit
import Oce.FeedDB.Analysis.Redelivery
import Oce.Base.Again
import Oce.FeedDB.Analysis.RestoreSteps
import Oce.FeedDB.Analysis.Replay
import Oce.FeedDB.Analysis.Recovery
import Oce.Base.Chain
import Oce.FeedDB.Model.Cluster
import Oce.FeedDB.Analysis.ChainSteps
import Oce.FeedDB.Analysis.ChainRemoval
import Oce.FeedDB.Analysis.UserChain
import Oce.FeedDB.Model.Store
import Oce.FeedDB.Analysis.StoreSteps
import Oce.FeedDB.Analysis.ReplayWrites
import Oce.FeedDB.Analysis.FileRecovery
import Oce.FeedDB.Analysis.Durability
import Oce.FeedDB.Analysis.BlockSet
import Oce.FeedDB.Analysis.Modify
import Oce.FeedDB.Analysis.FlushWrites
import Oce.FeedDB.Analysis.Isolation
import Oce.FeedDB.Analysis.LogMerge
import Oce.FeedDB.Analysis.Preload
import Oce.FeedDB.Model.Delivery
import Oce.FeedDB.Analysis.Deliveries
import Oce.UtilCxx.Model.ThreadPool
import Oce.UtilCxx.Analysis.StrandedTasks
import Oce.ConsistentHash.Model.Continuum
import Oce.ConsistentHash.Analysis.Owners
import Oce.Base.AscSeq
import Oce.Buddy.Model.CommonFriend
import Oce.Buddy.Model.Relation
import Oce.Buddy.Model.Database
import Oce.Buddy.Model.Manager
import Oce.Buddy.Model.MutualFriends
import Oce.Buddy.Model.Replicas
import Oce.Buddy.Analysis.Loader
import Oce.Buddy.Analysis.Relations
import Oce.Buddy.Analysis.Updates
import Oce.Buddy.Analysis.FriendGraph
import Oce.Buddy.Analysis.Transitions
import Oce.Buddy.Analysis.Convergence
import Oce.UserNetwork.Model.Record
import Oce.UserNetwork.Model.Manager
import Oce.UserNetwork.Analysis.CacheFollows
import Oce.UserNetwork.Analysis.FollowsRows
import Oce.UserNetwork.Analysis.Operations
import Oce.Base.Bytes
import Oce.MemcProxy.Model.Parser
import Oce.MemcProxy.Model.KeyMapping
import Oce.MemcProxy.Model.Upstream
import Oce.MemcProxy.Model.ClientConn
import Oce.MemcProxy.Analysis.Requests
import Oce.MemcProxy.Analysis.SameNode
import Oce.MemcProxy.Analysis.Replies
import Oce.MemcProxy.Analysis.UpstreamSteps
import Oce.MemcProxy.Analysis.ClientWrites
import Oce.MemcProxy.Analysis.RelayGet
import Oce.MemcProxy.Analysis.FaithfulRelay
import Oce.UtilCxx.Model.Evictor
import Oce.UtilCxx.Model.HashCache
import Oce.UtilCxx.Model.TimedEvictor
import Oce.UtilCxx.Analysis.LruOrder
import Oce.IceExt.Model.ObjectCache
import Oce.IceExt.Model.SyncServantFactory
import Oce.IpTable.Analysis.Removal
import Oce.IceExt.Analysis.Freshness
import Oce.IceExt.Analysis.OneCreate
import Oce.FeedGroup.Analysis.Unread
import Oce.FeedInteraction.Analysis.Runs
import Oce.FeedNews.Model.Ring
import Oce.FeedNews.Analysis.RingSlots
import Oce.FeedNews.Analysis.RingLaw
import Oce.FeedNews.Analysis.Grouping
import Oce.FeedNews.Analysis.Gathering
import Oce.FeedNews.Analysis.FeedSharing
import Oce.MemcProxy.Analysis.Recogniser
import Oce.MemcProxy.Analysis.ClientReads
import Oce.MemcProxy.Model.PhotoCache
import Oce.MemcProxy.Analysis.PhotoStore
import Oce.MemcProxy.Analysis.PhotoRoundTrip
import Oce.TalkCommon.Model.Types
import Oce.AdEngine.Analysis.Paths
import Oce.SixDegrees.Analysis.Meetings
import Oce.MessageHolder.Analysis.Custody
import Oce.TalkProxy.Model.Session
import Oce.TalkProxy.Analysis.Verified
import Oce.OnlineCenter.Analysis.Queries
import Oce.OnlineCenter.Analysis.Bitmap
import Oce.Tripod.Model.ConfigManager
import Oce.Tripod.Model.CacheConfigClient
import Oce.Tripod.Analysis.ConfigReads
import Oce.Tripod.Analysis.Published
import Oce.Tripod.Analysis.CacheDeletes
import Oce.Base.Ring
import Oce.Tripod.Model.HashHolder
import Oce.Tripod.Analysis.PointOwners
import Oce.Tripod.Analysis.RingMoves
import Oce.Tripod.Analysis.TwoLanguages
import Oce.Buddy.Analysis.BitFilter
import Oce.Buddy.Analysis.EntryMasks
import Oce.Buddy.Analysis.CommonSets
import Oce.Buddy.Analysis.StoredHolders
import Oce.Buddy.Analysis.Classification
import Oce.Buddy.Analysis.Handover
import Oce.SixDegrees.Analysis.TwoWayRoutes
import Oce.UtilCxx.Analysis.Expiry
import Oce.UtilCxx.Analysis.HashCacheOrder
import Oce.UserNetwork.Analysis.RoundTrip
import Oce.AdEngine.Analysis.UrlSearch
import Oce.FeedGroup.Analysis.Reloads
import Oce.FeedGroup.Analysis.Paging
import Oce.FeedCacheN.Analysis.UserFeeds
import Oce.FeedCacheN.Analysis.PoolLoads
import Oce.UtilCxx.Analysis.BoundedQueue
import Oce.Base.Registry
import Oce.UtilCxx.Model.TaskManager
import Oce.UtilCxx.Analysis.OneExecutor
import Oce.MessagePipe.Model.BrokerConnection
import Oce.MessagePipe.Analysis.BrokerChanges
import Oce.SubjectObserver.Model.Observer
import Oce.SubjectObserver.Analysis.Notifications
import Oce.OnlineCenter.Analysis.PoolSync
import Oce.TalkProxy.Analysis.Stops
import Oce.MessageHolder.Analysis.Counts
import Oce.Base.Mem
import Oce.Base.Lz
import Oce.UtilCxx.Analysis.QuickLzRoundTrip
import Oce.MemcProxy.Analysis.PhotoQuickLz
import Oce.Base.LockTable
import Oce.IceExt.Analysis.OneOwner
import Oce.FeedDispatcher.Model.ExpressionParser
import Oce.FeedDispatcher.Analysis.Tokenize
import Oce.FeedDispatcher.Analysis.ExpressionValue
import Oce.FeedDispatcher.Model.ExpressionCache
import Oce.FeedDispatcher.Analysis.ExpressionIndex
import Oce.FeedDispatcher.Analysis.ExpressionFreshness
import Oce.FeedDispatcher.Analysis.Delivery
import Oce.FeedGroup.Model.Pages
import Oce.Tripod.Analysis.CacheRounds
