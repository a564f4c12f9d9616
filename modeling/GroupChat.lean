import GroupChat.Lib.Transition
import GroupChat.Lib.Dict
import GroupChat.Lib.Window
import GroupChat.Lib.DedupWindow
import GroupChat.Py.Value
import GroupChat.Py.Json
import GroupChat.Store.Cache
import GroupChat.Store.Feed
import GroupChat.Store.Writer
import GroupChat.Lib.RWMutex
import GroupChat.Balancer.Pick
import GroupChat.Balancer.Locks
import GroupChat.Balancer.Serve
import GroupChat.Crypto
import GroupChat.Store.Documents
import GroupChat.Server.Node
import GroupChat.Server.Handlers
import GroupChat.App
import GroupChat.Server.Outcomes
import GroupChat.Server.Changes
import GroupChat.Server.Registry
import GroupChat.Server.Delivery
import GroupChat.Server.Privacy
import GroupChat.Server.Signatures
import GroupChat.Balancer.Failover
import GroupChat.Server.Acceptance
import GroupChat.Server.Readings
import GroupChat.Store.History
import GroupChat.Server.Rooms
import GroupChat.Server.Order
import GroupChat.Server.Effects
import GroupChat.Server.Winner
import GroupChat.Cluster.Gossip
import GroupChat.Cluster.AtMostOnce
import GroupChat.Cluster.Convergence
import GroupChat.Server.Seats
import GroupChat.Browser
import GroupChat.Server.Gapless
import GroupChat.Server.KeyCaches
import GroupChat.Server.PersistedKeys
import GroupChat.Server.Uploads
import GroupChat.Server.Paths
import GroupChat.Server.Inserts
import GroupChat.Cluster.Batches
import GroupChat.Server.Muted
import GroupChat.Server.Truthful
import GroupChat.Py.Loads
import GroupChat.Server.Texts
import GroupChat.Lib.Hysteresis
import GroupChat.Balancer.Health
import GroupChat.Balancer.Listener
import GroupChat.Balancer.Gate
import GroupChat.Balancer.Bodies
import GroupChat.Balancer.Latency
import GroupChat.Server.FeedLimit
import GroupChat.Server.FastPath
import GroupChat.Cluster.PeerQueue
import GroupChat.Py.Utf8
import GroupChat.Server.Payloads
import GroupChat.Server.Spellings
import GroupChat.Server.SharedKeys
import GroupChat.Server.Kicked
import GroupChat.Server.RoomNames
import GroupChat.Store.CacheBounds
import GroupChat.Lib.LexicalPath
import GroupChat.Server.Conversations
import GroupChat.StaticFiles
import GroupChat.Cluster.SelfPeers
import GroupChat.LoadGenerator
import GroupChat.Server.UserNames
import GroupChat.Lib.Simulation
import GroupChat.Py.RoundTrip
import GroupChat.Store.FeedText
import GroupChat.Cluster.Wire
import GroupChat.Server.Causes
import GroupChat.Server.Records
import GroupChat.Lib.Latch
import GroupChat.Server.Authority
import GroupChat.Server.Presence
import GroupChat.Server.FanOut
import GroupChat.Server.RoomLists
import GroupChat.Balancer.Drain
import GroupChat.Cluster.Provenance
import GroupChat.Py.Utf8Decode
import GroupChat.Cluster.AtRest
import GroupChat.Server.RoomFrames
import GroupChat.Reconnect
import GroupChat.Server.Durable
import GroupChat.Server.Agreement
