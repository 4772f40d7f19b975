import MqProxy.Library.Runs
import MqProxy.Runtime.ShardState

/-!
# The shard

`Shard` of `mq-runtime/src/shard/`: the inputs of the driver (`inputs.rs`), the routing of
transport events (`routing.rs`) and `drive` (`mod.rs`).

A callback of the app runs in the middle of an input, and the app may call back into the
shard there. So an input is not one step: `Control` says whether the shard or the app has
the control, and `Cont` is what the shard goes on with. The steps of the app are any calls
in any order, then a return. Between two callbacks the shard goes on by itself: it asks the
transport for the next event, takes the next completion of a batch, pumps the next relay.

The transport is a parameter as for a relay, one for each stream. What it does besides the
calls of the relays (its own `drive`, a datagram, a reset, the calls of the app) is a step
that gives it any state, and the events it gives are part of the steps that poll it.
-/

namespace MqProxy.Runtime

open MqProxy.Library

/-- What is left of an input when a callback returns. -/
inductive Cont where
  /-- Nothing. -/
  | done
  /-- The timers of `fire_timers` still to look at. -/
  | timers (due : List ℕ)
  /-- The loop of `dispatch_events`, with its `closed`. -/
  | dispatch (closed : List ℕ)
  /-- The rest of the batch taken from `limited`. -/
  | limited (ops : List ℕ)
  /-- The turns left of the loop over `resolved`. -/
  | resolved (turns : ℕ)
  /-- The rest of the batch taken from `limited_udp`. -/
  | limitedUdp (ops : List ℕ)
  /-- The relays of `pump_relays` still to look at. -/
  | relays (ids : List ℕ)
  deriving DecidableEq

/-- Who has the control. -/
inductive Control where
  | shard (k : Cont)
  | app (k : Cont)
  deriving DecidableEq

/-- What is left of the input, whoever has the control. -/
def Control.cont : Control → Cont
  | .shard k => k
  | .app k => k

/-- `IoResult` as the driver gives it to the shard: what was read or how much was written
(`α`), and the kind of an error. -/
inductive IoReport (α : Type) where
  | bytes (a : α)
  | eof
  | wouldBlock
  | error (kind : ErrorKind)

/-- The report as a relay takes it. -/
def IoReport.toIoResult {α : Type} (count : α → ℕ) : IoReport α → IoResult
  | .bytes a => .bytes (count a)
  | .eof => .eof
  | .wouldBlock => .wouldBlock
  | .error _ => .error

/-- `Shard`: its state, the transport, the listeners with their tags, and where
`pump_relays` starts. -/
structure Shard (τ : Type) where
  st : ShardState
  transport : τ
  listeners : AList fun _ : ℕ => ℕ
  rr : ℕ
  control : Control

/-- What happens to a shard. -/
inductive Action (τ : Type) where
  | start
  | addListener (tag : ℕ)
  | udpRx (sock : ℕ)
  | accepted (listener : ℕ)
  | rxCommit (tcp : ℕ) (r : IoReport (List UInt8))
  | txCommit (tcp : ℕ) (r : IoReport ℕ)
  | tcpError (tcp : ℕ) (kind : ErrorKind)
  | dialResult (op : ℕ) (r : Except DialError SocketAddr)
  | resolveResult (op : ℕ) (r : Except DialError SocketAddr)
  | udpSocket (op : ℕ) (r : Except ErrorKind SocketAddr)
  | shutdownSignal
  | drive (now : ℕ)
  | pollIoRequest
  /-- The shard goes on, outside of `dispatch_events`. -/
  | go
  /-- The shard polls the transport in `dispatch_events`. -/
  | poll (ev : Option Polled)
  /-- The app makes a call. -/
  | call (c : CxCall)
  /-- The app returns from its callback. -/
  | ret
  /-- The transport does something. -/
  | transport (t : τ)

namespace Shard

variable {τ : Type} (sh : Shard τ)

/-- `Shard::new`. -/
def new (t : τ) (primaryLocal : SocketAddr) : Shard τ where
  st := .new primaryLocal
  transport := t
  listeners := ∅
  rr := 0
  control := .shard .done

/-- `call_app`: the app gets a callback, and the shard goes on with `k` after it. -/
def callApp (st : ShardState) (c : Callback) (k : Cont) : Shard τ :=
  { sh with st := st.note (.callback c), control := .app k }

/-- The shard goes on with `k`. -/
def goOn (st : ShardState) (k : Cont) : Shard τ := { sh with st, control := .shard k }

/-! ### The inputs -/

/-- `on_udp_rx`: what a datagram does to the transport is the transport's step. -/
def onUdpRx (sock : ℕ) : Shard τ :=
  match sh.st.udp.lookup sock with
  | some ⟨_, .app⟩ => sh.callApp sh.st (.udpRx sock) .done
  | _ => sh

/-- `on_accepted`. -/
def onAccepted (listener : ℕ) : Shard τ :=
  match sh.listeners.lookup listener with
  | none => sh
  | some tag =>
    if sh.st.atCap then sh
    else
      let (tcp, st) := sh.st.insertAppTcp
      sh.callApp st (.accepted tag tcp) .done

/-- `on_tcp_error` for a socket that the app owns. -/
def appTcpError (tcp : ℕ) (e : AppTcp) (kind : ErrorKind) : Shard τ :=
  let st := sh.st.closeNow tcp true
  if e.closing then sh.goOn st .done else sh.callApp st (.tcpEnd tcp (.error kind)) .done

/-- `tcp_rx_commit` for a socket that the app owns and has not let go; `none` for a commit
past the buffer. -/
def appRxCommit (tcp : ℕ) (e : AppTcp) : IoReport (List UInt8) → Option (Shard τ)
  | .bytes [] => some sh
  | .wouldBlock => some sh
  | .bytes bs =>
    if e.rx.length + bs.length ≤ TCP_BUF then
      let st := (sh.st.putTcp tcp (.app { e with rx := e.rx ++ bs })).note (.tcpRead tcp bs)
      some (sh.callApp st (.tcpData tcp) .done)
    else none
  | .eof => some (sh.callApp (sh.st.putTcp tcp (.app { e with readEof := true })) (.tcpEnd tcp .readEof) .done)
  | .error kind => some (sh.appTcpError tcp e kind)

/-- What the driver read is in the buffer of the relay already when it reports the read. -/
def readInto (r : Relay) : IoReport (List UInt8) → Relay
  | .bytes bs => { r with toQuic := r.toQuic.write bs }
  | _ => r

/-- `tcp_rx_commit` for a relay; `none` for a commit past the buffer. -/
def relayRxCommit (T : ℕ → Transport τ) (sh : Shard τ) (tcp : ℕ) (r : Relay) (res : IoReport (List UInt8)) :
    Option (Shard τ) :=
  if h : (res.toIoResult List.length).count ≤ (readInto r res).toQuic.space then
    let (r, t) := (readInto r res).tcpRxCommit (T r.stream) (res.toIoResult List.length) sh.transport h
    some { sh with st := (sh.st.putTcp tcp (.relay r)).settleRelay tcp, transport := t }
  else none

/-- `tcp_rx_commit`. -/
def tcpRxCommit (T : ℕ → Transport τ) (sh : Shard τ) (tcp : ℕ) (res : IoReport (List UInt8)) : Option (Shard τ) :=
  match sh.st.tcp.lookup tcp with
  | some (.relay r) => sh.relayRxCommit T tcp r res
  | some (.app e) => if e.closing then some sh else sh.appRxCommit tcp e res
  | none => some sh

/-- `tcp_tx_commit` for a socket that the app owns. -/
def appTxCommit (tcp : ℕ) (e : AppTcp) : IoReport ℕ → Shard τ
  | .bytes n =>
    let st := sh.st.note (.tcpWritten tcp (e.tx.take n))
    let e := { e with tx := e.tx.drop n }
    if e.tx.isEmpty then
      if e.closing then sh.goOn (st.closeNow tcp false) .done
      else if e.wantWritable then
        sh.callApp (st.putTcp tcp (.app { e with wantWritable := false })) (.tcpWritable tcp) .done
      else sh.goOn (st.putTcp tcp (.app e)) .done
    else sh.goOn (st.putTcp tcp (.app e)) .done
  | .wouldBlock => sh
  -- a write cannot return EOF
  | .eof => sh.appTcpError tcp e .writeZero
  | .error kind => sh.appTcpError tcp e kind

/-- What a report of the driver does to a relay that is not read: the relay takes it, and
is settled. -/
def relayTxCommit (tcp : ℕ) (r : Relay) (res : IoResult) : Shard τ :=
  { sh with st := (sh.st.putTcp tcp (.relay (r.tcpTxCommit res))).settleRelay tcp }

/-- `tcp_tx_commit`. -/
def tcpTxCommit (tcp : ℕ) (res : IoReport ℕ) : Shard τ :=
  match sh.st.tcp.lookup tcp with
  | some (.relay r) => sh.relayTxCommit tcp r (res.toIoResult fun n => n)
  | some (.app e) => sh.appTxCommit tcp e res
  | none => sh

/-- `on_tcp_error`. -/
def onTcpError (tcp : ℕ) (kind : ErrorKind) : Shard τ :=
  match sh.st.tcp.lookup tcp with
  | some (.relay r) => sh.relayTxCommit tcp r .error
  | some (.app e) => sh.appTcpError tcp e kind
  | none => sh

/-- `on_dial_result`. -/
def onDialResult (op : ℕ) (r : Except DialError SocketAddr) : Shard τ :=
  if op ∈ sh.st.dials then
    let st := sh.st.dropDial op
    match r with
    | .ok _ =>
      let (tcp, st) := st.insertAppTcp
      sh.callApp st (.dialResult op (.ok tcp)) .done
    | .error e => sh.callApp st (.dialResult op (.error e)) .done
  else sh

/-- `on_resolve_result`. -/
def onResolveResult (op : ℕ) (r : Except DialError SocketAddr) : Shard τ :=
  if op ∈ sh.st.resolves then
    sh.callApp (sh.st.dropResolve op) (.resolveResult op r) .done
  else sh

/-- `on_udp_socket`. -/
def onUdpSocket (op : ℕ) (r : Except ErrorKind SocketAddr) : Shard τ :=
  if op ∈ sh.st.socketOps then
    let app := decide (op ∈ sh.st.appUdpOps)
    let st := sh.st.dropSocketOp op
    match r with
    | .ok localAddr =>
      let (sock, st) := st.insertUdp ⟨localAddr, if app then .app else .transport⟩
      sh.callApp st (.udpSocket op (.ok (sock, localAddr))) .done
    | .error k => sh.callApp st (.udpSocket op (.error k)) .done
  else sh

/-- `add_listener`. -/
def addListener (tag : ℕ) : Shard τ :=
  { sh with
    st := { sh.st with nextId := sh.st.nextId + 1 }
    listeners := sh.listeners.insert sh.st.nextId tag }

/-! ### The routing of events -/

/-- `Relay::on_stream_event` of the relay at a socket, if there is one. -/
def relayEvent (ev : Event) (st : ShardState) (tcp : ℕ) : ShardState :=
  match st.tcp.lookup tcp with
  | some (.relay r) => st.putTcp tcp (.relay (r.onStreamEvent ev))
  | _ => st

/-- The relays of a connection. -/
def swept (st : ShardState) (conn : ℕ) : List ℕ :=
  (st.tcp.entries.filter fun e =>
    match e.2 with
    | .relay r => r.conn = conn
    | .app _ => false).map fun e => e.1

/-- The entries of the dead streams of a connection go. -/
def forgetConn (st : ShardState) (conn : ℕ) : ShardState :=
  { st with deadStreams := retain (fun _ c => c ≠ conn) st.deadStreams }

/-- What `ConnClosed` does before the app hears of it. -/
def connClosed (st : ShardState) (conn : ℕ) : ShardState :=
  let ids := swept st conn
  let st := ids.foldl (relayEvent (.connClosed conn)) st
  let st := ids.foldl ShardState.settleRelay st
  (forgetConn st conn).closeConnSockets conn

/-- One turn of `dispatch_events` with an event about a stream. -/
def streamEvent (st : ShardState) (closed : List ℕ) (ev : Event) (s : ℕ) : Shard τ :=
  let closed' := if ev = .streamClosed s then closed ++ [s] else closed
  match st.streams.lookup s with
  | some tcp => sh.goOn ((relayEvent ev st tcp).settleRelay tcp) (.dispatch closed')
  | none =>
    if (st.deadStreams.lookup s).isSome then sh.goOn st (.dispatch closed')
    else sh.callApp st (.transportEvent (.event ev)) (.dispatch closed)

/-- One turn of `dispatch_events`. -/
def dispatch (closed : List ℕ) (ev : Polled) : Shard τ :=
  let st := sh.st.note (.polled ev)
  let tell (st : ShardState) : Shard τ := sh.callApp st (.transportEvent ev) (.dispatch closed)
  match ev with
  | .event (.streamReadable s) => sh.streamEvent st closed (.streamReadable s) s
  | .event (.streamWritable s) => sh.streamEvent st closed (.streamWritable s) s
  | .event (.streamClosed s) => sh.streamEvent st closed (.streamClosed s) s
  | .event (.connClosed c) => tell (connClosed st c)
  | .event .other => tell st
  | .pathRemoved c path => tell (st.closePathSocket c path)

/-- The end of `dispatch_events`: the entries of the streams that closed go. Then `drive`
takes the batch of refused dials. -/
def passEnd (closed : List ℕ) : Shard τ :=
  let st := { sh.st with deadStreams := closed.foldl (fun d s => d.erase s) sh.st.deadStreams }
  let st := st.note .passEnd
  sh.goOn { st with limited := [] } (.limited st.limited)

/-! ### `drive` -/

/-- The timers due, in the order of time and id. -/
def due (timers : AList fun _ : ℕ => ℕ) (now : ℕ) : List ℕ :=
  (((timers.entries.filter fun e => e.2 ≤ now).map fun e => (e.2, e.1)).mergeSort fun a b =>
    a.1 < b.1 || (a.1 = b.1 && a.2 ≤ b.2)).map fun e => e.2

/-- The order of `pump_relays`, and where the next one starts. -/
def relayOrder (st : ShardState) (rr : ℕ) : List ℕ × ℕ :=
  let ids := (st.streams.entries.map fun e => e.2).mergeSort
  if ids.isEmpty then ([], rr) else (ids.rotateLeft (rr % ids.length), rr + 1)

/-- One turn of `pump_relays`. -/
def pumpRelay (T : ℕ → Transport τ) (sh : Shard τ) (tcp : ℕ) (rest : List ℕ) : Shard τ :=
  match sh.st.tcp.lookup tcp with
  | some (.relay r) =>
    let (r, t) :=
      if r.isRunnable then let p := r.pump (T r.stream) sh.transport RELAY_BUDGET; (p.1, p.2.1)
      else (r, sh.transport)
    { sh with st := (sh.st.putTcp tcp (.relay r)).settleRelay tcp, transport := t, control := .shard (.relays rest) }
  | _ => sh.goOn sh.st (.relays rest)

/-- After the loop over `resolved`, `drive` takes the batch of refused socket opens. -/
def takeLimitedUdp : Shard τ :=
  sh.goOn { sh.st with limitedUdp := [] } (.limitedUdp sh.st.limitedUdp)

/-- What the shard does by itself, outside of `dispatch_events`. -/
def go (T : ℕ → Transport τ) (sh : Shard τ) : Cont → Option (Shard τ)
  | .done => none
  | .timers [] => some (sh.goOn sh.st (.dispatch []))
  | .timers (id :: rest) =>
    -- one that a callback cancelled does not fire
    if (sh.st.timers.lookup id).isSome then some (sh.callApp (sh.st.cancelTimer id) (.timer id) (.timers rest))
    else some (sh.goOn sh.st (.timers rest))
  | .dispatch _ => none
  | .limited [] => some (sh.goOn sh.st (.resolved sh.st.resolved.length))
  | .limited (op :: ops) => some (sh.callApp sh.st (.dialResult op (.error .limit)) (.limited ops))
  | .resolved 0 => some sh.takeLimitedUdp
  | .resolved (turns + 1) =>
    match sh.st.resolved with
    | [] => some sh.takeLimitedUdp
    | (op, addr) :: rest =>
      some (sh.callApp { sh.st with resolved := rest } (.resolveResult op (.ok addr)) (.resolved turns))
  | .limitedUdp [] =>
    let (ids, rr) := relayOrder sh.st sh.rr
    some { sh with rr, control := .shard (.relays ids) }
  | .limitedUdp (op :: ops) => some (sh.callApp sh.st (.udpSocket op (.error .other)) (.limitedUdp ops))
  | .relays [] => some (sh.goOn sh.st .done)
  | .relays (tcp :: rest) => some (sh.pumpRelay T tcp rest)

/-- A call of the app. -/
def call (c : CxCall) : Shard τ :=
  let r := sh.st.perform c
  { sh with st := r.2.note (.call c r.1) }

/-- What the driver may do between two inputs. -/
def input (T : ℕ → Transport τ) (sh : Shard τ) : Action τ → Option (Shard τ)
  | .start => some (sh.callApp sh.st .start .done)
  | .addListener tag => some (sh.addListener tag)
  | .udpRx sock => some (sh.onUdpRx sock)
  | .accepted listener => some (sh.onAccepted listener)
  | .rxCommit tcp res => sh.tcpRxCommit T tcp res
  | .txCommit tcp res => some (sh.tcpTxCommit tcp res)
  | .tcpError tcp kind => some (sh.onTcpError tcp kind)
  | .dialResult op r => some (sh.onDialResult op r)
  | .resolveResult op r => some (sh.onResolveResult op r)
  | .udpSocket op r => some (sh.onUdpSocket op r)
  | .shutdownSignal => some (sh.callApp sh.st .shutdown .done)
  | .drive now => some (sh.goOn sh.st (.timers (due sh.st.timers now)))
  | .pollIoRequest => some { sh with st := { sh.st with requests := sh.st.requests.tail } }
  | _ => none

/-- **One step of a shard.** `none` for what cannot happen now, and for a panic. -/
def step (T : ℕ → Transport τ) (sh : Shard τ) (a : Action τ) : Option (Shard τ) :=
  match a, sh.control with
  | .transport t, _ => some { sh with transport := t }
  | .call c, .app _ => some (sh.call c)
  | .ret, .app k => some { sh with control := .shard k }
  | .go, .shard k => sh.go T k
  | .poll (some ev), .shard (.dispatch closed) => some (sh.dispatch closed ev)
  | .poll none, .shard (.dispatch closed) => some (sh.passEnd closed)
  | a, .shard .done => sh.input T a
  | _, _ => none

theorem step_call {T : ℕ → Transport τ} {sh : Shard τ} {k : Cont} (h : sh.control = .app k) (c : CxCall) :
    sh.step T (.call c) = some (sh.call c) := by
  simp only [step, h]

theorem step_drive {T : ℕ → Transport τ} {sh : Shard τ} (h : sh.control = .shard .done) (now : ℕ) :
    sh.step T (.drive now) = some (sh.goOn sh.st (.timers (due sh.st.timers now))) := by
  simp only [step, h, input]

theorem step_drive_idle {T : ℕ → Transport τ} {sh : Shard τ} {now : ℕ} (hc : sh.control = .shard .done)
    (ht : sh.st.timers = ∅) : sh.step T (.drive now) = some (sh.goOn sh.st (.timers [])) := by
  have hdue : due ∅ now = [] := by simp [due]
  rw [step_drive hc, ht, hdue]

/-- A transport on which nothing moves. -/
def still : Transport Unit where
  streamSend t _ _ := (.error .blocked, t)
  streamRecv t _ := (.error .blocked, t)
  send_le := by simp
  recv_le := by simp

/-- An address, for runs on given inputs. -/
def anyLocal : SocketAddr := .v4 ⟨[0, 0, 0, 0], rfl⟩ 0

/-- A target, for runs on given inputs. -/
def anyTarget : Target := ⟨.ip (.v4 ⟨[0, 0, 0, 0], rfl⟩), 0⟩

/-- The steps of a shard, by who takes them. -/
inductive Takes (T : ℕ → Transport τ) (sh : Shard τ) : Action τ → Shard τ → Prop
  | transport (t : τ) : Takes T sh (.transport t) { sh with transport := t }
  | call {k : Cont} (c : CxCall) : sh.control = .app k → Takes T sh (.call c) (sh.call c)
  | ret {k : Cont} : sh.control = .app k → Takes T sh .ret { sh with control := .shard k }
  | go {k : Cont} {sh' : Shard τ} : sh.control = .shard k → sh.go T k = some sh' → Takes T sh .go sh'
  | event {closed : List ℕ} (ev : Polled) :
      sh.control = .shard (.dispatch closed) → Takes T sh (.poll (some ev)) (sh.dispatch closed ev)
  | passEnd {closed : List ℕ} : sh.control = .shard (.dispatch closed) → Takes T sh (.poll none) (sh.passEnd closed)
  | input {a : Action τ} {sh' : Shard τ} : sh.control = .shard .done → sh.input T a = some sh' → Takes T sh a sh'

theorem takes_of_step {T : ℕ → Transport τ} {sh sh' : Shard τ} {a : Action τ} (h : sh.step T a = some sh') :
    Takes T sh a sh' := by
  unfold step at h
  split at h
  · cases h; exact .transport _
  · next hc => cases h; exact .call _ hc
  · next hc => cases h; exact .ret hc
  · next hc => exact .go hc h
  · next hc => cases h; exact .event _ hc
  · next hc => cases h; exact .passEnd hc
  · next hc => exact .input hc h
  · cases h

end Shard

end MqProxy.Runtime
