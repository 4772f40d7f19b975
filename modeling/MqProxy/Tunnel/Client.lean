import MqProxy.Tunnel.State

/-!
# The client

The callbacks of `Client` of `mq-proxy/src/client/mod.rs` that are about the raw tunnel, and the
functions of `udp_session.rs` that they call. What the transport, the streams and the sockets
answer is in `Answers`; `none` is an `expect`, an index that is not there, or a run that goes
on for longer than it may. The ids that the shard gives are numbers that were not given before,
and the timers it holds are `armed`, by the time they are due. The `log` is no part of the source.

The fetch gateway, the MITM front and the H3 tunnel are other parts of the same app. Here they are
the sockets that they hold (`fronts`), any of which may be handed over to the tunnel.
-/

namespace MqProxy.Tunnel

open MqProxy.Runtime MqProxy.Wire MqProxy.Ingress MqProxy.Udp
open MqProxy.Server (Incoming drain MAX_SESSIONS_PER_CONN)
open MqProxy.Client (connectRequest openRequest)

/-- `Tm`. -/
inductive Tm where
  | auth
  | reconnect
  | metrics
  | ingress (tcp : ℕ)
  | pending
  | udpResp (sid : UInt32)
  deriving DecidableEq

/-- `ClientConfig`. -/
structure Cfg where
  clientId : List UInt8
  token : List UInt8
  reconnect : Bool
  hasTcpIngress : Bool
  gateway : Bool
  mitm : Bool
  authDeadline : ℕ
  ingressDeadline : ℕ
  pendingDeadline : ℕ
  metricsInterval : Option ℕ

/-- `Client`. -/
structure Client where
  conn : Option Conn
  terminal : Bool
  shuttingDown : Bool
  reconnect : Option ℕ
  ingress : AList fun _ : ℕ => Ingress
  pending : List PendingOpen
  opens : AList fun _ : ℕ => Open
  timers : AList fun _ : ℕ => Tm
  udp : UdpAvail
  assocs : AList fun _ : ℕ => Assoc
  sess : Sessions
  /-- The sockets of the other fronts. -/
  fronts : List ℕ
  now : ℕ
  /-- The next id that the shard gives. -/
  nextId : ℕ
  /-- The timers of the shard. -/
  armed : AList fun _ : ℕ => ℕ
  log : List Note

/-- What a callback finds around the client. -/
structure Answers where
  now : ℕ
  /-- `connect`. -/
  connect : Bool
  /-- `open_stream`, by the id that it would give. -/
  opens : ℕ → Bool
  /-- `stream_send`, by stream. -/
  send : ℕ → Except StreamError ℕ
  /-- The reads of the stream that is read. -/
  recv : Incoming
  /-- `datagram_mss` is not zero. -/
  datagrams : Bool
  /-- `tcp_rx`. -/
  rx : List UInt8
  /-- `tcp_write`. -/
  written : Bool
  /-- `start_relay`. -/
  relayed : Bool
  /-- `H3Tunnel::gone`, or there is none. -/
  h3Gone : Bool
  /-- A front hands the socket over. -/
  handoff : Option Target
  /-- A front holds the socket. -/
  holds : Bool
  /-- `Backoff::next_delay`. -/
  delay : ℕ

/-- `ListenerTag`. -/
inductive Listener where
  | socks5
  | httpConnect
  | transparent
  | fetch
  | other
  deriving DecidableEq

/-- The callbacks of `App`. -/
inductive Callback where
  | start
  | established (conn : ℕ)
  | connClosed (conn : ℕ)
  | readable (s : ℕ)
  | writable (s : ℕ)
  | closed (s : ℕ)
  /-- `on_accepted`, with the target of `target_from_original_dst`. -/
  | accepted (l : Listener) (tcp : ℕ) (peerIp : IpAddr) (dst : Option Target)
  | tcpData (tcp : ℕ)
  | tcpEnd (tcp : ℕ) (error : Bool)
  | udpSocket (op : ℕ) (r : Option (ℕ × SocketAddr))
  | udpRx (sock : ℕ) (peer : SocketAddr) (d : List UInt8)
  | timer (id : ℕ)
  /-- A callback of a front about a socket that it holds. -/
  | front (tcp : ℕ)
  /-- An event of the H3 tunnel. -/
  | h3
  | shutdown

namespace Client

/-- `Client::new`. -/
def new : Client where
  conn := none
  terminal := false
  shuttingDown := false
  reconnect := none
  ingress := ∅
  pending := []
  opens := ∅
  timers := ∅
  udp := .unknown
  assocs := ∅
  sess := ⟨1, ∅, ∅⟩
  fronts := []
  now := 0
  nextId := 0
  armed := ∅
  log := []

variable (c : Client)

/-- The log grows. -/
def note (ns : List Note) : Client := { c with log := c.log ++ ns }

/-- `timer`. -/
def timer (after : ℕ) (tm : Tm) : ℕ × Client :=
  (c.nextId,
    { c with
      nextId := c.nextId + 1
      armed := c.armed.insert c.nextId (c.now + after)
      timers := c.timers.insert c.nextId tm })

/-- `cancel`. -/
def cancel (id : ℕ) : Client := { c with armed := c.armed.erase id, timers := c.timers.erase id }

/-- `open_stream`. -/
def openStream (a : Answers) : Option ℕ × Client :=
  (if a.opens c.nextId then some c.nextId else none, { c with nextId := c.nextId + 1 })

/-- `refuse`: the error reply, if any, then close. -/
def refuse (tcp : ℕ) (kind : IngressKind) (e : TcpErr) : Client :=
  c.note ((kind.errorReply e).toList.map (.write tcp) ++ [.close tcp])

/-- `current`. -/
def current (conn : ℕ) : Bool := c.conn.any (·.id = conn)

/-- `serving`. -/
def serving : Bool := c.conn.any fun k => k.authed && !k.closing

/-- `ctrl_of`. -/
def ctrlOf (s : ℕ) : Bool := (c.conn.bind Conn.ctrl).any (·.s = s)

/-- `close`: the exit follows at `ConnClosed`. -/
def close : Client := { c with conn := c.conn.map fun k => { k with closing := true } }

/-- `maybe_exit`. -/
def maybeExit (a : Answers) : Client :=
  if c.shuttingDown && c.conn.isNone && a.h3Gone then c.note [.exit] else c

/-! ### UDP sessions -/

/-- A session's record. -/
def putSession (sid : UInt32) (s : Session) : Client :=
  { c with sess := { c.sess with bySid := c.sess.bySid.insert sid s } }

/-- `session_send`: a datagram is queued before auth; after it, it goes out. -/
def sessionSend (sid : UInt32) (payload : List UInt8) : Option Client :=
  match c.sess.bySid.lookup sid with
  | some s =>
    match s.phase with
    | .pendingAuth queue => (enqueue queue payload).map fun q => c.putSession sid { s with phase := .pendingAuth q }
    | _ => some c
  | none => some c

/-- The destination of a session that ends; `refused` is kept for a while. -/
def clearDst (tcp : ℕ) (target : Target) (refused : Bool) : Client :=
  match c.assocs.lookup tcp with
  | none => c
  | some a =>
    match a.dsts.lookup target with
    | none => c
    | some e =>
      let e := { e with session := none, failedAt := if refused then some c.now else e.failedAt }
      { c with assocs := c.assocs.insert tcp { a with dsts := a.dsts.insert target e } }

/-- The deadline of a session that ends. -/
def clearDeadline : UdpPhase → Client
  | .awaitResp deadline _ => c.cancel deadline
  | _ => c

/-- The stream of a session that ends. -/
def clearStream (stream : Option ℕ) : Client :=
  match stream with
  | none => c
  | some st => { c with sess := { c.sess with byStream := c.sess.byStream.erase st } }

/-- `end_session`. -/
def endSession (sid : UInt32) (refused : Bool) : Client :=
  match c.sess.bySid.lookup sid with
  | none => c
  | some s =>
    let c := { c with sess := { c.sess with bySid := c.sess.bySid.erase sid } }
    ((c.clearDeadline s.phase).clearDst s.assoc s.target refused).clearStream s.stream

/-- `issue`: open the stream, write the OPEN, arm the deadline, flush the queue. -/
def issue (a : Answers) (sid : UInt32) : Option (Bool × Client) :=
  let (st, c) := if c.conn.isSome then c.openStream a else (none, c)
  match st with
  | none => some (false, c.endSession sid false)
  | some st =>
    match c.sess.bySid.lookup sid with
    | none => none
    | some s =>
      let (ok, tx) := flush (a.send st) s.tx
      let c := { c with sess := { c.sess with byStream := c.sess.byStream.insert st sid } }
      let c := c.putSession sid { s with stream := some st, tx }
      if !ok then some (false, c.endSession sid false)
      else
        let (deadline, c) := c.timer SESSION_RESP_WAIT (.udpResp sid)
        -- the datagrams of the queue go out
        some (true, c.putSession sid { s with stream := some st, tx, phase := .awaitResp deadline [] })

/-- `udp_available`: the sessions that wait for auth open, in the order of their sids. -/
def udpAvailable (a : Answers) : Option Client :=
  let sids := (c.sess.bySid.entries.filter fun e => e.2.phase matches .pendingAuth _).map (·.1)
  (sids.mergeSort (· ≤ ·)).foldlM (fun c sid => (c.issue a sid).map (·.2)) c

/-- A session for a destination of an association, and the first datagram. -/
def newSession (a : Answers) (tcp : ℕ) (assoc : Assoc) (target : Target) (dst : Socks5Udp.Dst)
    (payload : List UInt8) : Option Client :=
  match allocSid (fun sid => (c.sess.bySid.lookup sid).isSome) (2 ^ 32) c.sess.nextSid with
  | none => none
  | some (sid, nextSid) =>
    match openRequest sid dst, assoc.dsts.lookup target with
    | some tx, some _ =>
      let assoc := { assoc with dsts := assoc.dsts.insert target ⟨some sid, none⟩ }
      let c := { c with assocs := c.assocs.insert tcp assoc, sess := { c.sess with nextSid } }
      let c := c.putSession sid ⟨tcp, target, none, tx, .pendingAuth []⟩
      if c.udp = .available then
        match c.issue a sid with
        | some (true, c) => c.sessionSend sid payload
        | r => r.map (·.2)
      else c.sessionSend sid payload
    | _, _ => none

/-- `udp_outbound` for a destination without a session: the negative cache, the bound on sessions, and an
entry for the destination. -/
def udpOpen (a : Answers) (tcp : ℕ) (assoc : Assoc) (target : Target) (dst : Socks5Udp.Dst)
    (payload : List UInt8) : Option Client :=
  let e := assoc.dsts.lookup target
  if (e.bind DstEntry.failedAt).any fun f => c.now - f < NEG_CACHE then some c
  else if MAX_SESSIONS_PER_CONN ≤ c.sess.bySid.keys.length then some c
  else
    match if e.isSome then some assoc else assoc.insertDst target c.now with
    | none => some c
    | some assoc => c.newSession a tcp assoc target dst payload

/-- `udp_outbound`. -/
def udpOutbound (a : Answers) (tcp : ℕ) (d : List UInt8) : Option Client :=
  match Socks5Udp.parse d with
  | none => some c
  | some (dst, off) =>
    match Socks5Udp.targetOf dst, c.assocs.lookup tcp with
    | none, _ => some c
    | some _, none => none
    | some target, some assoc =>
      match (assoc.dsts.lookup target).bind DstEntry.session with
      | some sid => c.sessionSend sid (d.drop off)
      | none => c.udpOpen a tcp assoc target dst (d.drop off)

/-- `session_writable`. -/
def sessionWritable (a : Answers) (st : ℕ) : Option Client :=
  match c.sess.byStream.lookup st with
  | none => none
  | some sid =>
    match c.sess.bySid.lookup sid with
    | none => none
    | some s =>
      let (ok, tx) := flush (a.send st) s.tx
      let c := c.putSession sid { s with tx }
      some (if ok then c else c.endSession sid false)

/-- `session_readable`. -/
def sessionReadable (a : Answers) (st : ℕ) : Option Client :=
  match c.sess.byStream.lookup st with
  | none => none
  | some sid =>
    match c.sess.bySid.lookup sid with
    | none => none
    | some s =>
      match s.phase with
      | .awaitResp deadline rx =>
        match readResp rx a.recv with
        | (.wait rx, _) => some (c.putSession sid { s with phase := .awaitResp deadline rx })
        | (.ended refused, _) => some (c.endSession sid refused)
        | (.opened, inc) =>
          let c := (c.putSession sid { s with phase := .open }).cancel deadline
          some (if readOpen inc then c else c.endSession sid false)
      | _ => some (if readOpen a.recv then c else c.endSession sid false)

/-- `end_assoc`. -/
def endAssoc (tcp : ℕ) : Client :=
  match c.assocs.lookup tcp with
  | none => c
  | some a =>
    (a.dsts.entries.filterMap fun e => e.2.session).foldl (fun c sid => c.endSession sid false)
      { c with assocs := c.assocs.erase tcp }

/-- `udp_conn_gone`. -/
def udpConnGone : Client := c.sess.bySid.keys.foldl (fun c sid => c.endSession sid false) c

/-- `set_udp`. -/
def setUdp (avail : UdpAvail) : Client :=
  let c := { c with udp := avail }
  if avail = .unavailable then c.assocs.keys.foldl (fun c tcp => (c.endAssoc tcp).note [.close tcp]) c else c

/-! ### Requests -/

/-- `open`: a data stream with the type byte and CONNECT_TCP_REQUEST. -/
def openData (a : Answers) (tcp : ℕ) (kind : IngressKind) (target : Target) : Option Client :=
  let (s, c) := c.openStream a
  match s with
  | none => some (c.refuse tcp kind .connRefused)
  | some s =>
    (connectRequest target).map fun tx =>
      let (ok, tx) := flush (a.send s) tx
      if ok then { c with opens := c.opens.insert s ⟨tcp, kind, tx, []⟩ } else c.refuse tcp kind .connRefused

/-- `request`: a complete ingress request. -/
def request (cfg : Cfg) (c : Client) (a : Answers) (tcp : ℕ) (kind : IngressKind) (target : Target) : Option Client :=
  let c := c.note [.completed tcp]
  if c.terminal || c.shuttingDown then some (c.refuse tcp kind .connRefused)
  else if c.serving then c.openData a tcp kind target
  else
    match pushPending c.pending ⟨tcp, target, kind, c.now⟩ with
    | some pending => some ({ c with pending }.timer cfg.pendingDeadline .pending).2
    | none => some (c.refuse tcp kind .connRefused)

/-- Requests that waited are refused. -/
def refuseAll (os : List PendingOpen) (e : TcpErr) : Client :=
  os.foldl (fun c o => c.refuse o.tcp o.kind e) c

/-- `open_readable`. -/
def openReadable (a : Answers) (s : ℕ) : Client :=
  match c.opens.lookup s with
  | none => c
  | some o =>
    let gone := { c with opens := c.opens.erase s }
    match readConnectResp o.rx a.recv with
    | (.wait rx, _) => { c with opens := c.opens.insert s { o with rx } }
    | (.failed, _) => gone.refuse o.tcp o.kind .connRefused
    | (.decided rx fin, _) =>
      match ConnectTcpResp.decode rx with
      | .error _ => gone.refuse o.tcp o.kind .connRefused
      | .ok (r, used) =>
        if MAX_FRAME < used then gone.refuse o.tcp o.kind .connRefused
        else if r.status = STATUS_OK then
          let c := gone.note (o.kind.successReply.toList.map (.write o.tcp))
          let c := c.note [.relay o.tcp s (rx.drop used) fin a.relayed]
          if a.relayed then c else c.note [.abort o.tcp]
        else gone.refuse o.tcp o.kind ((tcpErrOf r.errorCode).getD .connRefused)

/-- An open that fails before its response. -/
def dropOpen (s : ℕ) : Client :=
  match c.opens.lookup s with
  | none => c
  | some o => { c with opens := c.opens.erase s }.refuse o.tcp o.kind .connRefused

/-- The rest of a request on `StreamWritable`. -/
def openWritable (a : Answers) (s : ℕ) : Client :=
  match c.opens.lookup s with
  | none => c
  | some o =>
    let (ok, tx) := flush (a.send s) o.tx
    let c := { c with opens := c.opens.insert s { o with tx } }
    if ok then c else c.dropOpen s

/-! ### The connection -/

/-- `conn_gone`. -/
def connGone (cfg : Cfg) (c : Client) (a : Answers) : Client :=
  let timer := c.conn.bind Conn.authTimer
  let c := { c with conn := none }
  let c := timer.elim c c.cancel
  let opens := c.opens.entries.map (·.2)
  let c := opens.foldl (fun (c : Client) (o : Open) => c.refuse o.tcp o.kind .connRefused) { c with opens := ∅ }
  let c := c.udpConnGone
  if c.shuttingDown then (c.setUdp .unavailable).maybeExit a
  else if cfg.reconnect then
    let (id, c) := (c.setUdp .unknown).timer a.delay .reconnect
    { c with reconnect := some id }
  else
    let c := { c with terminal := true }.setUdp .unavailable
    { c with pending := [] }.refuseAll c.pending .connRefused

/-- `connect`. -/
def connect (cfg : Cfg) (c : Client) (a : Answers) : Client :=
  if a.connect then { c with conn := some ⟨c.nextId, none, false, none, false⟩, nextId := c.nextId + 1 }
  else c.connGone cfg a

/-- The AUTH_REQUEST, with the fields that `Client::new` cut to their limits. -/
def authRequest (cfg : Cfg) : Option (List UInt8) :=
  let req : AuthReq :=
    { version := 1, clientId := cfg.clientId.take MAX_CLIENT_ID, authToken := cfg.token.take MAX_AUTH_TOKEN, features := 0 }
  match req.encode (List.replicate MAX_FRAME 0) with
  | .ok (n, b) => some (b.take n)
  | .error _ => none

/-- `on_established`. -/
def onEstablished (cfg : Cfg) (c : Client) (a : Answers) : Option Client :=
  match c.conn with
  | none => some c
  | some k =>
    if k.ctrl.isSome then some c
    else
      let (s, c) := c.openStream a
      match s with
      | none => some c.close
      | some s =>
        (authRequest cfg).map fun tx =>
          let (timer, c) := c.timer cfg.authDeadline .auth
          let (ok, tx) := flush (a.send s) tx
          let c := { c with conn := some { k with authTimer := some timer, ctrl := some ⟨s, tx, []⟩ } }
          if ok then c else c.close

/-- The server has answered: the requests that waited are opened, or refused. -/
def authed (a : Answers) (k : Conn) (ctrl : Ctrl) (inc : Incoming) : Option UInt64 → Option Client
  | none =>
    let c := { c with conn := some { k with ctrl := some ctrl } }
    let c := c.setUdp .unavailable
    some ({ c with pending := [] }.refuseAll c.pending .connRefused).close
  | some features =>
    let c := { c with conn := some { k with authed := true, authTimer := none, ctrl := some { ctrl with rx := [] } } }
    let c := k.authTimer.elim c c.cancel
    let avail := if features &&& 1 ≠ 0 ∧ a.datagrams ∧ c.shuttingDown = false then UdpAvail.available else .unavailable
    let c := c.setUdp avail
    if !(drain inc).1 then some c.close
    else
      (c.pending.foldlM (fun (c : Client) o => c.openData a o.tcp o.kind o.target) { c with pending := [] }).bind fun c =>
        if avail = .available then c.udpAvailable a else some c

/-- `ctrl_readable`. -/
def ctrlReadable (a : Answers) : Option Client :=
  match c.conn with
  | none => some c
  | some k =>
    if k.authed then some (if (drain a.recv).1 then c else c.close)
    else
      match k.ctrl with
      | none => none
      | some ctrl =>
        match readAuthResp ctrl.rx a.recv with
        | (.wait rx, _) => some { c with conn := some { k with ctrl := some { ctrl with rx } } }
        | (.failed rx, _) => some { c with conn := some { k with ctrl := some { ctrl with rx } } }.close
        | (.judged rx features, inc) => c.authed a k { ctrl with rx } inc features

/-- The rest of the AUTH_REQUEST on `StreamWritable`. -/
def ctrlWritable (a : Answers) (s : ℕ) : Client :=
  match c.conn with
  | none => c
  | some k =>
    match k.ctrl with
    | none => c
    | some ctrl =>
      let (ok, tx) := flush (a.send s) ctrl.tx
      let c := { c with conn := some { k with ctrl := some { ctrl with tx } } }
      if ok then c else c.close

/-! ### Sockets -/

/-- A front has had a callback for a socket that it holds. -/
def frontTurn (cfg : Cfg) (c : Client) (a : Answers) (tcp : ℕ) : Option Client :=
  if tcp ∈ c.fronts then
    match a.handoff with
    | some target => { c with fronts := c.fronts.erase tcp }.request cfg a tcp .transparent target
    | none => some (if a.holds then c else { c with fronts := c.fronts.erase tcp })
  else some c

/-- `on_accepted`. -/
def onAccepted (cfg : Cfg) (c : Client) (a : Answers) (l : Listener) (tcp : ℕ) (peerIp : IpAddr) (dst : Option Target) :
    Option Client :=
  let c := { c with nextId := tcp + 1 }.note [.accepted tcp]
  let ingress (kind : IngressKind) (parser : Parser) : Option Client :=
    let (timer, c) := c.timer cfg.ingressDeadline (.ingress tcp)
    some { c with ingress := c.ingress.insert tcp ⟨kind, parser, timer, peerIp⟩ }
  match l with
  | .fetch => some (if cfg.gateway then { c with fronts := tcp :: c.fronts } else c.note [.close tcp])
  | .other => some (c.note [.close tcp])
  | .socks5 => ingress .socks5 (.socks5 ⟨false⟩)
  | .httpConnect => ingress .httpConnect .http
  | .transparent =>
    match dst with
    | none => some (c.note [.close tcp])
    | some target =>
      if cfg.mitm && a.handoff.isNone then some { c with fronts := tcp :: c.fronts }
      else c.request cfg a tcp .transparent target

/-- `associate`. -/
def associate (a : Answers) (tcp : ℕ) (peerIp : IpAddr) : Client :=
  let c := c.note [.consume tcp a.rx.length]
  { c with nextId := c.nextId + 1, assocs := c.assocs.insert tcp ⟨none, some c.nextId, peerIp, none, ∅⟩ }

/-- `on_tcp_data`. -/
def onTcpData (cfg : Cfg) (c : Client) (a : Answers) (tcp : ℕ) : Option Client :=
  if tcp ∈ c.fronts then c.frontTurn cfg a tcp
  else if (c.assocs.lookup tcp).isSome then some (c.note [.consume tcp a.rx.length])
  else
    match c.ingress.lookup tcp with
    | none => some c
    | some ing =>
      let udp := decide (c.udp ≠ .unavailable) && !c.shuttingDown
      (feed tcp udp a.written 2 ing.parser a.rx).bind fun (fed, parser, notes) =>
        let c := c.note notes
        let gone := { c with ingress := c.ingress.erase tcp }.cancel ing.timer
        match fed with
        | .wait => some { c with ingress := c.ingress.insert tcp { ing with parser } }
        | .done target => gone.request cfg a tcp ing.kind target
        | .associate => some (gone.associate a tcp ing.peerIp)
        | .closed => some gone

/-- `on_tcp_end`. -/
def onTcpEnd (cfg : Cfg) (c : Client) (a : Answers) (tcp : ℕ) (error : Bool) : Option Client :=
  let c := if error then c.note [.failed tcp] else c
  let closed (c : Client) : Client := if error then c else c.note [.close tcp]
  -- a front lets go of a socket that has failed
  if tcp ∈ c.fronts then if error then some { c with fronts := c.fronts.erase tcp } else c.frontTurn cfg a tcp
  else
    match c.ingress.lookup tcp with
    | some ing => some (closed ({ c with ingress := c.ingress.erase tcp }.cancel ing.timer))
    | none =>
      if (c.assocs.lookup tcp).isSome then some (closed (c.endAssoc tcp))
      -- a request that waits stays so after EOF
      else if !error then some c
      else
        let c := { c with pending := removePending c.pending tcp }
        match c.opens.entries.find? (·.2.tcp = tcp) with
        | some e => some { c with opens := c.opens.erase e.1 }
        | none => some c

/-- `on_udp_socket`: the ASSOCIATE reply. -/
def onUdpSocket (op : ℕ) (r : Option (ℕ × SocketAddr)) : Client :=
  let c := { c with nextId := max c.nextId (r.elim 0 fun p => p.1 + 1) }
  match c.assocs.entries.find? (·.2.openOp = some op) with
  | none => c
  | some ⟨tcp, assoc⟩ =>
    match r with
    | some (sock, addr) =>
      { c with assocs := c.assocs.insert tcp { assoc with openOp := none, sock := some sock } }.note
        [.write tcp (socks5AssocReply addr)]
    | none => { c with assocs := c.assocs.erase tcp }.refuse tcp .socks5 .ok

/-- `on_udp_rx`. -/
def onUdpRx (a : Answers) (sock : ℕ) (peer : SocketAddr) (d : List UInt8) : Option Client :=
  match c.assocs.entries.find? (·.2.sock = some sock) with
  | none => some c
  | some ⟨tcp, assoc⟩ =>
    let (ok, assoc) := assoc.acceptSource peer
    let c := { c with assocs := c.assocs.insert tcp assoc }
    if ok then c.udpOutbound a tcp d else some c

/-- `on_timer`. -/
def onTimer (cfg : Cfg) (c : Client) (a : Answers) (id : ℕ) : Client :=
  match c.timers.lookup id with
  | none => c
  | some tm =>
    let c := c.cancel id
    match tm with
    | .auth => { c with conn := c.conn.map fun (k : Conn) => { k with authTimer := none } }.close
    | .reconnect => { c with reconnect := none }.connect cfg a
    | .metrics => cfg.metricsInterval.elim c fun every => (c.timer every .metrics).2
    | .ingress tcp =>
      if (c.ingress.lookup tcp).isSome then { c with ingress := c.ingress.erase tcp }.note [.close tcp] else c
    | .pending =>
      let (gone, keep) := expirePending c.pending c.now cfg.pendingDeadline
      { c with pending := keep }.refuseAll gone .timeout
    | .udpResp sid => c.endSession sid false

/-- `on_start`. -/
def onStart (cfg : Cfg) (c : Client) (a : Answers) : Client :=
  let c := cfg.metricsInterval.elim c fun every => (c.timer every .metrics).2
  if cfg.hasTcpIngress then c.connect cfg a else c

/-- `on_shutdown`. -/
def onShutdown (a : Answers) : Client :=
  let c := { c with shuttingDown := true }.setUdp .unavailable
  let timer := c.reconnect
  let c := { c with reconnect := none }
  let c := timer.elim c c.cancel
  c.close.maybeExit a

/-- A callback. -/
def next (cfg : Cfg) (c : Client) (b : Callback × Answers) : Option Client :=
  let a := b.2
  let c := { c with now := a.now }
  match b.1 with
  | .start => some (c.onStart cfg a)
  | .established conn => if c.current conn then c.onEstablished cfg a else some c
  | .connClosed conn => some (if c.current conn then c.connGone cfg a else c)
  | .readable s =>
    if c.ctrlOf s then c.ctrlReadable a
    else if (c.sess.byStream.lookup s).isSome then c.sessionReadable a s
    else some (c.openReadable a s)
  | .writable s =>
    if c.ctrlOf s then some (c.ctrlWritable a s)
    else if (c.sess.byStream.lookup s).isSome then c.sessionWritable a s
    else some (c.openWritable a s)
  | .closed s =>
    if c.ctrlOf s then some c.close
    else
      match c.sess.byStream.lookup s with
      | some sid => some (c.endSession sid false)
      | none => some (c.dropOpen s)
  | .accepted l tcp peerIp dst => c.onAccepted cfg a l tcp peerIp dst
  | .tcpData tcp => c.onTcpData cfg a tcp
  | .tcpEnd tcp error => c.onTcpEnd cfg a tcp error
  | .udpSocket op r => some (c.onUdpSocket op r)
  | .udpRx sock peer d => c.onUdpRx a sock peer d
  | .timer id => some (c.onTimer cfg a id)
  | .front tcp => c.frontTurn cfg a tcp
  | .h3 => some (c.maybeExit a)
  | .shutdown => some (c.onShutdown a)

/-- An id is new, and a timer is called when it is due. -/
def timely (b : Callback × Answers) : Bool :=
  match b.1 with
  | .accepted _ tcp _ _ => c.nextId ≤ tcp
  | .udpSocket _ (some (sock, _)) => c.nextId ≤ sock
  | .timer id => (c.armed.lookup id).all (· ≤ b.2.now)
  | _ => true

/-- What the shard does: time goes on, ids are new, and a timer is called when it is due. -/
def Fair (b : Callback × Answers) : Prop := c.now ≤ b.2.now ∧ c.timely b

instance (c : Client) (b : Callback × Answers) : Decidable (Fair c b) := inferInstanceAs (Decidable (_ ∧ _))

end Client

end MqProxy.Tunnel
