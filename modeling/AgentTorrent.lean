import AgentTorrent.Framework.Machine
import AgentTorrent.Framework.Bookkeeping
import AgentTorrent.Framework.ExpiryTable
import AgentTorrent.Framework.Pool
import AgentTorrent.Framework.Channel
import AgentTorrent.Framework.Framing
import AgentTorrent.Framework.Pipe
import AgentTorrent.Python.Json
import AgentTorrent.Python.JsonText
import AgentTorrent.Python.JsonLoads
import AgentTorrent.Python.JsonPrefix
import AgentTorrent.Python.JsonPretty
import AgentTorrent.Python.Platform
import AgentTorrent.Python.IntText
import AgentTorrent.Identity
import AgentTorrent.KeyFile
import AgentTorrent.Job
import AgentTorrent.Protocol
import AgentTorrent.Transcript
import AgentTorrent.Wire.Opening
import AgentTorrent.Wire.Receiving
import AgentTorrent.Wire.Sealed
import AgentTorrent.Wire.Stream
import AgentTorrent.Executor
import AgentTorrent.Config
import AgentTorrent.Sandbox
import AgentTorrent.Manifest
import AgentTorrent.Discovery.Discovery
import AgentTorrent.Discovery.PeerTable
import AgentTorrent.Discovery.BadDatagrams
import AgentTorrent.Discovery.Order
import AgentTorrent.Discovery.Gossip
import AgentTorrent.Discovery.SendLoop
import AgentTorrent.Discovery.Beacons
import AgentTorrent.Discovery.Mesh
import AgentTorrent.Ledger.Ledger
import AgentTorrent.Ledger.Wallet
import AgentTorrent.Ledger.Invariant
import AgentTorrent.Ledger.Accounts
import AgentTorrent.Ledger.Faults
import AgentTorrent.Ledger.Crash
import AgentTorrent.Ledger.LedgerFile
import AgentTorrent.Ledger.FileCrash
import AgentTorrent.Peer.Delegate
import AgentTorrent.Peer.DelegateEscrow
import AgentTorrent.Peer.Serve
import AgentTorrent.Peer.Results
import AgentTorrent.ApiHarness
import AgentTorrent.Peer.Selection
import AgentTorrent.Peer.Process
import AgentTorrent.Peer.Concurrency
import AgentTorrent.Cli
import AgentTorrent.Runtime
import AgentTorrent.Peer.Budget
import AgentTorrent.Peer.Authenticity
import AgentTorrent.Peer.Control
import AgentTorrent.Peer.Settlement
import AgentTorrent.Peer.Outcome
import AgentTorrent.Peer.Report
import AgentTorrent.Peer.Listings
import AgentTorrent.Peer.Earnings
import AgentTorrent.Swarm.Swarm
import AgentTorrent.Swarm.Deal
import AgentTorrent.Swarm.Requester
import AgentTorrent.Swarm.Handler
import AgentTorrent.Swarm.Runs
import AgentTorrent.Swarm.Credited
import AgentTorrent.Swarm.Terms
import AgentTorrent.Swarm.Honoured
import AgentTorrent.Swarm.Conservation
import AgentTorrent.Swarm.Reconcile
import AgentTorrent.Swarm.Tcp
import AgentTorrent.Swarm.TcpRuns
import AgentTorrent.Swarm.Restarts
import AgentTorrent.Swarm.Progress
