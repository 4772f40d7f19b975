import Mathlib.Data.Finset.Basic
import Mathlib.Data.Finset.Card
import Mathlib.Data.List.Dedup
import MqProxy.Library.Table
import MqProxy.Runtime.Relay
import MqProxy.Runtime.Target

/-!
# The state of a shard

`ShardState` of `mq-runtime/src/shard/`, the part of a shard that `Cx` acts on: the tables
of dials, resolutions and socket opens, the TCP sockets with their relays, the UDP sockets
and path mappings, and the timers. Its functions are those of `mod.rs`, `tcp.rs`,
`routing.rs` and `timers.rs`.

Ids are numbers from one counter (`alloc`), and so are the ids of the transport. The
`log` is no part of the source: it lists what crossed the edges of the shard, that is the
callbacks of the app and the calls it made in them, the requests for the driver, the
events that were polled and what was reset.
-/

namespace MqProxy.Runtime

open MqProxy.Library

/-- `SOCKET_CAP`. -/
def SOCKET_CAP : ℕ := 4096

/-- `RELAY_BUDGET`. -/
def RELAY_BUDGET : ℕ := 256 * 1024

/-! ### Requests, callbacks and calls -/

/-- `DialError`. -/
inductive DialError where
  | dns
  | refused
  | timeout
  | limit
  | other
  deriving DecidableEq

/-- `io::ErrorKind`: two that the shard names, and the rest. -/
inductive ErrorKind where
  | other
  | writeZero
  | named (n : ℕ)
  deriving DecidableEq

/-- `KeepAlive`. -/
structure KeepAlive where
  idle : ℕ
  interval : ℕ
  count : ℕ
  userTimeout : ℕ
  deriving DecidableEq

/-- `IoRequest`: work for the driver. -/
inductive IoRequest where
  | dial (op : ℕ) (target : Target) (deadline : ℕ)
  | cancelDial (op : ℕ)
  | resolve (op : ℕ) (target : Target) (deadline : ℕ)
  | cancelResolve (op : ℕ)
  | openUdpSocket (op : ℕ) (localIp : IpAddr)
  | cancelUdpSocket (op : ℕ)
  | closeUdpSocket (sock : ℕ)
  | tcpShutdownWrite (tcp : ℕ)
  | tcpSetNodelay (tcp : ℕ)
  | tcpSetKeepalive (tcp : ℕ) (ka : KeepAlive)
  | tcpClose (tcp : ℕ) (abort : Bool)
  deriving DecidableEq

/-- `TcpEnd`. -/
inductive TcpEnd where
  | readEof
  | error (kind : ErrorKind)
  deriving DecidableEq

/-- An event as it is polled: one that a relay may look at, or `PathRemoved`. -/
inductive Polled where
  | event (ev : Event)
  | pathRemoved (conn path : ℕ)
  deriving DecidableEq

/-- The callbacks of `App`. -/
inductive Callback where
  | start
  | transportEvent (ev : Polled)
  | accepted (tag tcp : ℕ)
  | tcpData (tcp : ℕ)
  | tcpEnd (tcp : ℕ) (e : TcpEnd)
  | tcpWritable (tcp : ℕ)
  | dialResult (op : ℕ) (r : Except DialError ℕ)
  | resolveResult (op : ℕ) (r : Except DialError SocketAddr)
  | udpSocket (op : ℕ) (r : Except ErrorKind (ℕ × SocketAddr))
  | udpRx (sock : ℕ)
  | timer (id : ℕ)
  | shutdown

/-- The calls of `Cx` that change the state of the shard. `path` is what the transport's
`add_path` gives, `conn` the connection that its `stream_info` gives. -/
inductive CxCall where
  | dial (target : Target) (deadline : ℕ)
  | cancelDial (op : ℕ)
  | resolve (target : Target) (deadline : ℕ)
  | cancelResolve (op : ℕ)
  | openUdpSocket (localIp : IpAddr)
  | openAppUdpSocket (localIp : IpAddr)
  | cancelUdpSocket (op : ℕ)
  | closeUdpSocket (sock : ℕ)
  | addPath (conn sock : ℕ) (path : Option ℕ)
  | tcpConsume (tcp n : ℕ)
  | tcpWrite (tcp : ℕ) (bytes : List UInt8)
  | tcpSetRead (tcp : ℕ) (on : Bool)
  | tcpSetRxLimit (tcp n : ℕ)
  | tcpSetNodelay (tcp : ℕ)
  | tcpSetKeepalive (tcp : ℕ) (ka : KeepAlive)
  | tcpClose (tcp : ℕ)
  | tcpAbort (tcp : ℕ)
  | startRelay (tcp stream : ℕ) (conn : Option ℕ) (preread : StreamPreread)
  | setTimer (at_ : ℕ)
  | cancelTimer (id : ℕ)

/-- What a call gives the app. -/
inductive Answer where
  | unit
  | id (id : ℕ)
  | ok
  | failed
  deriving DecidableEq

/-- What crosses the edges of a shard. -/
inductive Edge where
  /-- A callback was delivered. -/
  | callback (c : Callback)
  /-- A call of the app returned. -/
  | call (c : CxCall) (a : Answer)
  /-- A request was made to the driver. -/
  | request (r : IoRequest)
  /-- An event was polled. -/
  | polled (ev : Polled)
  /-- A pass over the events ended. -/
  | passEnd
  /-- A relay was taken out of the tables. -/
  | relayEnded (tcp stream : ℕ) (e : RelayEnd)
  /-- A relay that ended reset its stream. -/
  | relayReset (tcp stream : ℕ)
  /-- `start_relay` reset a stale stream. -/
  | staleReset (stream : ℕ)
  /-- The driver read these bytes of a socket that the app owns. -/
  | tcpRead (tcp : ℕ) (bytes : List UInt8)
  /-- The driver wrote these bytes of a socket that the app owns. -/
  | tcpWritten (tcp : ℕ) (bytes : List UInt8)
  /-- The app consumed so many bytes. -/
  | tcpConsumed (tcp n : ℕ)

/-! ### The tables -/

/-- `AppTcp`: a socket that the app owns. -/
structure AppTcp where
  /-- The bytes read and not yet consumed. -/
  rx : List UInt8
  rxLimit : ℕ
  tx : List UInt8
  read : Bool
  readEof : Bool
  closing : Bool
  wantWritable : Bool
  deriving DecidableEq

/-- `TcpEntry`. -/
inductive TcpEntry where
  | app (e : AppTcp)
  | relay (r : Relay)

/-- `UdpOwner`. -/
inductive UdpOwner where
  | transport
  | app
  deriving DecidableEq

/-- `UdpEntry`. -/
structure UdpEntry where
  localAddr : SocketAddr
  owner : UdpOwner
  deriving DecidableEq

/-- `ShardState`, with the log. -/
structure ShardState where
  nextId : ℕ
  requests : List IoRequest
  timers : AList fun _ : ℕ => ℕ
  tcp : AList fun _ : ℕ => TcpEntry
  /-- Streams that a relay owns. -/
  streams : AList fun _ : ℕ => ℕ
  /-- Streams whose relay has closed, with their connections. -/
  deadStreams : AList fun _ : ℕ => ℕ
  dials : Finset ℕ
  limited : List ℕ
  resolves : Finset ℕ
  resolved : List (ℕ × SocketAddr)
  socketOps : Finset ℕ
  appUdpOps : Finset ℕ
  limitedUdp : List ℕ
  udp : AList fun _ : ℕ => UdpEntry
  paths : AList fun _ : ℕ × ℕ => ℕ
  log : List Edge

namespace AppTcp

/-- `AppTcp::new`. -/
def new : AppTcp := ⟨[], TCP_BUF, [], true, false, false, false⟩

/-- `AppTcp::interest`. -/
def interest (e : AppTcp) : Interest where
  read := e.read && !e.readEof && !e.closing && decide (e.rx.length < e.rxLimit)
  write := !e.tx.isEmpty

/-- The length of `AppTcp::rx_space`. -/
def rxSpace (e : AppTcp) : ℕ := if e.interest.read then e.rxLimit - e.rx.length else 0

end AppTcp

namespace ShardState

/-- The primary UDP socket. -/
def PRIMARY_UDP : ℕ := 0

/-- `ShardState::new`. -/
def new (primaryLocal : SocketAddr) : ShardState where
  nextId := 1
  requests := []
  timers := ∅
  tcp := ∅
  streams := ∅
  deadStreams := ∅
  dials := ∅
  limited := []
  resolves := ∅
  resolved := []
  socketOps := ∅
  appUdpOps := ∅
  limitedUdp := []
  udp := AList.insert PRIMARY_UDP ⟨primaryLocal, .transport⟩ ∅
  paths := ∅
  log := []

variable (st : ShardState)

/-- The log with one entry more. -/
def note (e : Edge) : ShardState := { st with log := st.log ++ [e] }

/-- `push_request`. -/
def pushRequest (r : IoRequest) : ShardState :=
  { st with requests := st.requests ++ [r], log := st.log ++ [.request r] }

/-- `at_cap`. -/
def atCap : Bool :=
  SOCKET_CAP ≤ st.tcp.keys.length + st.dials.card + st.appUdpOps.card +
    (st.udp.entries.filter fun e => e.2.owner = .app).length

/-! ### Dials, resolutions and socket opens -/

/-- `dial`. -/
def dial (target : Target) (deadline : ℕ) : ℕ × ShardState :=
  let op := st.nextId
  let st := { st with nextId := op + 1 }
  (op,
    if st.atCap then { st with limited := st.limited ++ [op] }
    else ({ st with dials := insert op st.dials }).pushRequest (.dial op target deadline))

/-- `dials.remove`. -/
def dropDial (op : ℕ) : ShardState := { st with dials := st.dials.erase op }

/-- `cancel_dial`. -/
def cancelDial (op : ℕ) : ShardState :=
  if op ∈ st.dials then (st.dropDial op).pushRequest (.cancelDial op)
  else { st with limited := st.limited.filter fun o => o ≠ op }

/-- `SocketAddr::new`. -/
def socketAddr : IpAddr → UInt16 → SocketAddr
  | .v4 a, port => .v4 a port
  | .v6 a, port => .v6 a port 0 0

/-- `resolve`. -/
def resolve (target : Target) (deadline : ℕ) : ℕ × ShardState :=
  let op := st.nextId
  let st := { st with nextId := op + 1 }
  (op,
    match target.host with
    | .ip ip => { st with resolved := st.resolved ++ [(op, socketAddr ip target.port)] }
    | .domain _ => ({ st with resolves := insert op st.resolves }).pushRequest (.resolve op target deadline))

/-- `resolves.remove`. -/
def dropResolve (op : ℕ) : ShardState := { st with resolves := st.resolves.erase op }

/-- `cancel_resolve`. -/
def cancelResolve (op : ℕ) : ShardState :=
  if op ∈ st.resolves then (st.dropResolve op).pushRequest (.cancelResolve op)
  else { st with resolved := st.resolved.filter fun o => o.1 ≠ op }

/-- `open_udp_socket`. -/
def openUdpSocket (localIp : IpAddr) : ℕ × ShardState :=
  let op := st.nextId
  (op, ({ st with nextId := op + 1, socketOps := insert op st.socketOps }).pushRequest (.openUdpSocket op localIp))

/-- `open_app_udp_socket`. -/
def openAppUdpSocket (localIp : IpAddr) : ℕ × ShardState :=
  if st.atCap then (st.nextId, { st with nextId := st.nextId + 1, limitedUdp := st.limitedUdp ++ [st.nextId] })
  else
    let (op, st) := st.openUdpSocket localIp
    (op, { st with appUdpOps := insert op st.appUdpOps })

/-- `socket_ops.remove` and `app_udp_ops.remove`. -/
def dropSocketOp (op : ℕ) : ShardState :=
  { st with socketOps := st.socketOps.erase op, appUdpOps := st.appUdpOps.erase op }

/-- `cancel_udp_socket`. -/
def cancelUdpSocket (op : ℕ) : ShardState :=
  if op ∈ st.socketOps then (st.dropSocketOp op).pushRequest (.cancelUdpSocket op)
  else { st with limitedUdp := st.limitedUdp.filter fun o => o ≠ op }

/-! ### UDP sockets and paths -/

/-- A new UDP socket. -/
def insertUdp (e : UdpEntry) : ℕ × ShardState :=
  (st.nextId, { st with nextId := st.nextId + 1, udp := st.udp.insert st.nextId e })

/-- `close_udp_socket`. -/
def closeUdpSocket (sock : ℕ) : ShardState :=
  if sock = PRIMARY_UDP ∨ st.udp.lookup sock = none then st
  else
    ({ st with udp := st.udp.erase sock, paths := retain (fun _ s => s ≠ sock) st.paths }).pushRequest
      (.closeUdpSocket sock)

/-- `close_path_socket`. -/
def closePathSocket (conn path : ℕ) : ShardState :=
  match st.paths.lookup (conn, path) with
  | none => st
  | some sock => ({ st with paths := st.paths.erase (conn, path) }).closeUdpSocket sock

/-- `close_conn_sockets`. -/
def closeConnSockets (conn : ℕ) : ShardState :=
  let socks := ((st.paths.entries.filter fun e => e.1.1 = conn).map fun e => e.2).dedup.mergeSort
  socks.foldl closeUdpSocket { st with paths := retain (fun k _ => k.1 ≠ conn) st.paths }

/-- `Cx::add_path` with what the transport gives; only on a live socket of the transport. -/
def addPath (conn sock : ℕ) (path : Option ℕ) : Answer × ShardState :=
  match st.udp.lookup sock with
  | some ⟨_, .transport⟩ =>
    match path with
    | some path => (.id path, { st with paths := st.paths.insert (conn, path) sock })
    | none => (.failed, st)
  | _ => (.failed, st)

/-! ### Timers -/

/-- `set_timer`. -/
def setTimer (at_ : ℕ) : ℕ × ShardState :=
  (st.nextId, { st with nextId := st.nextId + 1, timers := st.timers.insert st.nextId at_ })

/-- `cancel_timer`. -/
def cancelTimer (id : ℕ) : ShardState := { st with timers := st.timers.erase id }

/-! ### TCP sockets of the app -/

/-- `insert_app_tcp`. -/
def insertAppTcp : ℕ × ShardState :=
  (st.nextId, { st with nextId := st.nextId + 1, tcp := st.tcp.insert st.nextId (.app .new) })

/-- `app_tcp`: a socket that the app owns and has not let go. -/
def appTcp (tcp : ℕ) : Option AppTcp :=
  match st.tcp.lookup tcp with
  | some (.app e) => if e.closing then none else some e
  | _ => none

/-- The socket's entry is replaced. -/
def putTcp (tcp : ℕ) (e : TcpEntry) : ShardState := { st with tcp := st.tcp.insert tcp e }

/-- `close_now`. -/
def closeNow (tcp : ℕ) (abort : Bool) : ShardState :=
  ({ st with tcp := st.tcp.erase tcp }).pushRequest (.tcpClose tcp abort)

/-- `tcp_rx`. -/
def tcpRx (tcp : ℕ) : List UInt8 := ((st.appTcp tcp).map AppTcp.rx).getD []

/-- `tcp_consume`. -/
def tcpConsume (tcp n : ℕ) : ShardState :=
  match st.appTcp tcp with
  | none => st
  | some e =>
    let n := min n e.rx.length
    (st.putTcp tcp (.app { e with rx := e.rx.drop n })).note (.tcpConsumed tcp n)

/-- `tcp_write`. -/
def tcpWrite (tcp : ℕ) (bytes : List UInt8) : Answer × ShardState :=
  match st.appTcp tcp with
  | none => (.failed, st)
  | some e =>
    if e.tx.length + bytes.length > TCP_BUF then
      (.failed, st.putTcp tcp (.app { e with wantWritable := e.wantWritable || !e.tx.isEmpty }))
    else (.ok, st.putTcp tcp (.app { e with tx := e.tx ++ bytes }))

/-- `tcp_set_read`. -/
def tcpSetRead (tcp : ℕ) (on : Bool) : ShardState :=
  match st.appTcp tcp with
  | none => st
  | some e => st.putTcp tcp (.app { e with read := on })

/-- `tcp_set_rx_limit`. -/
def tcpSetRxLimit (tcp n : ℕ) : ShardState :=
  match st.appTcp tcp with
  | none => st
  | some e => st.putTcp tcp (.app { e with rxLimit := min n TCP_BUF })

/-- `tcp_set_nodelay`. -/
def tcpSetNodelay (tcp : ℕ) : ShardState :=
  if (st.appTcp tcp).isSome then st.pushRequest (.tcpSetNodelay tcp) else st

/-- `tcp_set_keepalive`. -/
def tcpSetKeepalive (tcp : ℕ) (ka : KeepAlive) : ShardState :=
  if (st.appTcp tcp).isSome then st.pushRequest (.tcpSetKeepalive tcp ka) else st

/-- `tcp_close`. -/
def tcpClose (tcp : ℕ) : ShardState :=
  match st.appTcp tcp with
  | none => st
  | some e => if e.tx.isEmpty then st.closeNow tcp false else st.putTcp tcp (.app { e with closing := true })

/-- `tcp_abort`. -/
def tcpAbort (tcp : ℕ) : ShardState :=
  match st.tcp.lookup tcp with
  | some (.app _) => st.closeNow tcp true
  | _ => st

/-! ### Relays -/

/-- `start_relay`, and what `Cx::start_relay` does to a stale stream. -/
def startRelay (tcp stream : ℕ) (conn : Option ℕ) (preread : StreamPreread) : Answer × ShardState :=
  if (st.streams.lookup stream).isSome then (.failed, st)
  else
    match st.appTcp tcp with
    | none => (.failed, st)
    | some e =>
      if e.tx.length + preread.bytes.length > RELAY_BUF then (.failed, st)
      else
        match conn with
        | none => (.ok, (st.closeNow tcp true).note (.staleReset stream))
        | some conn =>
          match Relay.start conn tcp stream e.rx e.readEof e.tx preread with
          | none => (.failed, st)
          | some r => (.ok, { st.putTcp tcp (.relay r) with streams := st.streams.insert stream tcp })

/-- What `settle_relay` does to a relay first: an owed `SHUT_WR` is taken and done. -/
def settled (r : Relay) : Relay × Bool :=
  let (r, shut) := r.takeOwedShutdown
  (if shut then r.shutdownDone else r, shut)

/-- A relay that ended leaves the tables. -/
def unbind (tcp : ℕ) (r : Relay) : ShardState :=
  { st with
    tcp := st.tcp.erase tcp
    streams := st.streams.erase r.stream
    -- after the stream's `StreamClosed` no event can follow
    deadStreams := if r.streamGone then st.deadStreams else st.deadStreams.insert r.stream r.conn }

/-- What `settle_relay` does for a relay that ended. -/
def endRelay (tcp : ℕ) (r : Relay) (e : RelayEnd) : ShardState :=
  let st := (st.unbind tcp r).note (.relayEnded tcp r.stream e)
  let st := if e = .abort then st.note (.relayReset tcp r.stream) else st
  st.pushRequest (.tcpClose tcp (e = .abort))

/-- `settle_relay`. -/
def settleRelay (tcp : ℕ) : ShardState :=
  match st.tcp.lookup tcp with
  | some (.relay r) =>
    let (r, shut) := settled r
    let st := st.putTcp tcp (.relay r)
    let st := if shut then st.pushRequest (.tcpShutdownWrite tcp) else st
    match r.endReason with
    | none => st
    | some e => st.endRelay tcp r e
  | _ => st

/-! ### The calls of the app -/

/-- One call of `Cx`. -/
def perform : CxCall → Answer × ShardState
  | .dial target deadline => let r := st.dial target deadline; (.id r.1, r.2)
  | .cancelDial op => (.unit, st.cancelDial op)
  | .resolve target deadline => let r := st.resolve target deadline; (.id r.1, r.2)
  | .cancelResolve op => (.unit, st.cancelResolve op)
  | .openUdpSocket ip => let r := st.openUdpSocket ip; (.id r.1, r.2)
  | .openAppUdpSocket ip => let r := st.openAppUdpSocket ip; (.id r.1, r.2)
  | .cancelUdpSocket op => (.unit, st.cancelUdpSocket op)
  | .closeUdpSocket sock => (.unit, st.closeUdpSocket sock)
  | .addPath conn sock path => st.addPath conn sock path
  | .tcpConsume tcp n => (.unit, st.tcpConsume tcp n)
  | .tcpWrite tcp bytes => st.tcpWrite tcp bytes
  | .tcpSetRead tcp on => (.unit, st.tcpSetRead tcp on)
  | .tcpSetRxLimit tcp n => (.unit, st.tcpSetRxLimit tcp n)
  | .tcpSetNodelay tcp => (.unit, st.tcpSetNodelay tcp)
  | .tcpSetKeepalive tcp ka => (.unit, st.tcpSetKeepalive tcp ka)
  | .tcpClose tcp => (.unit, st.tcpClose tcp)
  | .tcpAbort tcp => (.unit, st.tcpAbort tcp)
  | .startRelay tcp stream conn preread => st.startRelay tcp stream conn preread
  | .setTimer at_ => let r := st.setTimer at_; (.id r.1, r.2)
  | .cancelTimer id => (.unit, st.cancelTimer id)

end ShardState

end MqProxy.Runtime
