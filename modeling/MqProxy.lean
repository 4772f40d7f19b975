import MqProxy.Library.Cursor
import MqProxy.Library.History
import MqProxy.Library.Vec
import MqProxy.Library.Lines
import MqProxy.Library.Table
import MqProxy.Library.Runs
import MqProxy.Library.Operations
import MqProxy.Library.Reservations
import MqProxy.Library.Timers
import MqProxy.Library.Labels
import MqProxy.TlsPipe.Exec
import MqProxy.Wire.Varint
import MqProxy.Wire.Frames
import MqProxy.Wire.FrameReaders
import MqProxy.Wire.FrameFormats
import MqProxy.Runtime.Target
import MqProxy.Runtime.RingBuf
import MqProxy.Runtime.RecordRings
import MqProxy.Runtime.Relay
import MqProxy.Runtime.RelayIntegrity
import MqProxy.Runtime.ShardState
import MqProxy.Runtime.Shard
import MqProxy.Runtime.RelayLife
import MqProxy.Runtime.ShardSockets
import MqProxy.Runtime.ShardFrame
import MqProxy.Runtime.ShardOps
import MqProxy.Runtime.ShardTcp
import MqProxy.Runtime.ShardStreams
import MqProxy.Runtime.ShardRouting
import MqProxy.Runtime.ShardCap
import MqProxy.Driver.LoopCore
import MqProxy.Driver.Resolver
import MqProxy.Driver.LoopProtocol
import MqProxy.Driver.LoopBooks
import MqProxy.Udp.Socks5Udp
import MqProxy.Udp.Msg
import MqProxy.Udp.Defrag
import MqProxy.Udp.DefragSafety
import MqProxy.Udp.Reassembly
import MqProxy.Udp.Integrity
import MqProxy.Server.Request
import MqProxy.Server.Intake
import MqProxy.Server.Segmentation
import MqProxy.Server.Auth
import MqProxy.Ingress.NetParser
import MqProxy.Ingress.Parsers
import MqProxy.Http.Headers
import MqProxy.Server.GatewayIntake
import MqProxy.Server.Gateway
import MqProxy.Client.Request
import MqProxy.Client.MitmHead
import MqProxy.Client.Tokens
import MqProxy.Client.MitmPolicy
import MqProxy.Client.LeafStore
import MqProxy.Client.Exchange
import MqProxy.Client.Admission
import MqProxy.Client.FetchOracle
import MqProxy.Client.ExchangeSpec
import MqProxy.Client.Settlement
import MqProxy.Client.Upload
import MqProxy.Http.HeaderSafety
import MqProxy.Client.MitmStream
import MqProxy.Client.MitmRelay
import MqProxy.Client.Gateway
import MqProxy.Client.MitmConn
import MqProxy.Client.MitmOwners
import MqProxy.Client.FetchOwners
import MqProxy.Client.FetchApart
import MqProxy.Client.Ownership
import MqProxy.Client.FetchFraming
import MqProxy.Tunnel.State
import MqProxy.Tunnel.Client
import MqProxy.Tunnel.Reads
import MqProxy.Tunnel.UdpTables
import MqProxy.Tunnel.Accounts
import MqProxy.Tunnel.Send
import MqProxy.Tunnel.Answer
import MqProxy.Server.OriginTypes
import MqProxy.Server.OriginRequest
import MqProxy.Server.GatewayRelay
import MqProxy.Server.GatewayUpload
import MqProxy.Server.GatewayResponse
import MqProxy.Transport.Slots
import MqProxy.Transport.SlotRuns
import MqProxy.Transport.TxQueue
import MqProxy.Transport.TxQueues
import MqProxy.Transport.TxFifo
import MqProxy.Transport.Inner
import MqProxy.Transport.TxBlocked
import MqProxy.Transport.Admission
import MqProxy.Transport.Eviction
