import NervesP2P.Lib.BigEndian
import NervesP2P.Lib.Reader
import NervesP2P.Lib.SortBy
import NervesP2P.Lib.Text
import NervesP2P.Lib.Maps
import NervesP2P.Lib.AnyOrder
import NervesP2P.Lib.Method
import NervesP2P.Lib.AtomicFile
import NervesP2P.Lib.Ledger
import NervesP2P.Lib.Latest
import NervesP2P.Lib.ReadExact
import NervesP2P.Lib.Pipeline
import NervesP2P.Lib.Channel
import NervesP2P.Lib.Json
import NervesP2P.Lib.SlidingWindow
import NervesP2P.Lib.Term
import NervesP2P.Lib.Server
import NervesP2P.Lib.Numbered
import NervesP2P.Lib.Keyed
import NervesP2P.Lib.Convert
import NervesP2P.Lib.Mailbox
import NervesP2P.Discovery.Basic
import NervesP2P.Discovery.Encode
import NervesP2P.Discovery.Decode
import NervesP2P.Discovery.Codec
import NervesP2P.Discovery.KeyOrder
import NervesP2P.Discovery.Store
import NervesP2P.Discovery.Registry
import NervesP2P.Discovery.Receive
import NervesP2P.Discovery.Acceptance
import NervesP2P.Discovery.Runs
import NervesP2P.Discovery.Provenance
import NervesP2P.Discovery.Enrollment
import NervesP2P.Discovery.Selection
import NervesP2P.Discovery.Purity
import NervesP2P.Discovery.FileStore
import NervesP2P.Discovery.Durability
import NervesP2P.Discovery.RateLimit
import NervesP2P.Discovery.Capacity
import NervesP2P.Discovery.SequenceFile
import NervesP2P.Discovery.Convergence
import NervesP2P.Dist.Header
import NervesP2P.Dist.Stream
import NervesP2P.Dist.Transport
import NervesP2P.Dist.Accounts
import NervesP2P.Dist.Window
import NervesP2P.Dist.Receiving
import NervesP2P.Dist.Lifecycle
import NervesP2P.Dist.Table
import NervesP2P.Dist.Link
import NervesP2P.Dist.Frame
import NervesP2P.Dist.Controller
import NervesP2P.Dist.Turns
import NervesP2P.Dist.Input
import NervesP2P.Dist.Output
import NervesP2P.Dist.Wakeup
import NervesP2P.Dist.Agreement
import NervesP2P.Dist.Closing
import NervesP2P.Dist.Tunnel
import NervesP2P.Dist.Delivery
import NervesP2P.Dist.Listener
import NervesP2P.Dist.Accepting
import NervesP2P.Dist.Bindings
import NervesP2P.Dist.Names
import NervesP2P.Daemon.Basic
import NervesP2P.Daemon.Effects
import NervesP2P.Daemon.Identity
import NervesP2P.Daemon.Ingest
import NervesP2P.Daemon.Progress
import NervesP2P.Daemon.Framing
import NervesP2P.Daemon.Publishing
import NervesP2P.Daemon.Fleet
import NervesP2P.Network.Interface
import NervesP2P.Network.Requirements
import NervesP2P.Network.Answers
import NervesP2P.Network.Placement
import NervesP2P.Dist.Requests
import NervesP2P.Port.Basic
import NervesP2P.Port.Correlation
import NervesP2P.Port.Stopping
import NervesP2P.Dht.Provider
import NervesP2P.Dht.State
import NervesP2P.Dht.Restart
import NervesP2P.Dht.Coordinator
import NervesP2P.Node.Config
import NervesP2P.Node.Routes
import NervesP2P.Node.Options
import NervesP2P.Node.Responses
import NervesP2P.Otp.TaskTracker
import NervesP2P.Otp.Orphans
import NervesP2P.Node.HandlerRegistry
import NervesP2P.Node.Events
import NervesP2P.Otp.Distribution
import NervesP2P.Otp.DistributionServer
import NervesP2P.Otp.CapabilityRpc
import NervesP2P.Otp.RemoteCalls
import NervesP2P.Otp.Routing
