import Lindy.Machine.Run
import Lindy.Machine.Table
import Lindy.P2p.Event
import Lindy.Machine.Custody
import Lindy.Machine.Ledger
import Lindy.P2p.Runtime
import Lindy.P2p.Handler
import Lindy.P2p.Custody
import Lindy.P2p.Delivery
import Lindy.P2p.Attempts
import Lindy.P2p.Connections
import Lindy.P2p.Waiting
import Lindy.P2p.Order
import Lindy.Http.Reply
import Lindy.Http.Connect
import Lindy.Bitcoin.Transaction
import Lindy.Crates
import Lindy.Channel.Randomizer
import Lindy.Funder
import Lindy.Channel.Commitment
import Lindy.Channel.Manager
import Lindy.Channel.Node
import Lindy.Channel.Effect
import Lindy.Machine.Interference
import Lindy.Channel.Faults
import Lindy.Channel.Derivation
import Lindy.Channel.Amounts
import Lindy.Channel.WellFormed
import Lindy.Signing
import Lindy.Channel.ForceClose
import Lindy.Channel.NodeKey
import Lindy.Channel.Lifecycle
import Lindy.Channel.Isolation
import Lindy.Machine.Network
import Lindy.Channel.Network
import Lindy.Channel.Agreement
import Lindy.Channel.Handshake
import Lindy.Channel.Funding
import Lindy.Machine.Local
import Lindy.Channel.Steps
import Lindy.Channel.Independence
import Lindy.Http.Channels
import Lindy.Machine.Lines
import Lindy.P2p.Framing
import Lindy.P2p.Conn
import Lindy.P2p.Listener
import Lindy.Machine.Json
import Lindy.P2p.Messages
import Lindy.P2p.Peer
import Lindy.Hex
import Lindy.Channel.Sighash
import Lindy.Machine.Simulation
import Lindy.Monitor
import Lindy.Channel.Watched
import Lindy.P2p.Traffic
import Lindy.Machine.Feed
import Lindy.P2p.EventLoop
import Lindy.Server
import Lindy.Server.Composition
import Lindy.Server.Lock
import Lindy.Server.Refinement
import Lindy.Server.Bytes
import Lindy.Channel.Settling
import Lindy.Server.Parties
import Lindy.Http.Queries
