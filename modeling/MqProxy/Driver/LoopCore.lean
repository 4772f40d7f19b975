import Mathlib.Data.List.Sort
import MqProxy.Library.Runs
import MqProxy.Runtime.ShardState

/-!
# The loop core

`LoopCore` of `mq-runtime/src/driver/core.rs` with its `Deadlines` (`deadlines.rs`) and its
`ResolverQueue` (`resolver.rs`): how the driver dials, resolves and opens sockets for the
shard.

The `Io` layer and the shard are the environment. A call of `Io` goes to the log; what `Io`
and the shard answer (the completions that `wait` returns, the socket of `open_udp`, the id
under which the shard takes a socket) is part of the step. An iteration is several steps,
one for each turn of its loops, and `Phase` says where it is; so the environment may do
something else at every point where the source calls it. Left out are the readiness latches
and the transfer of bytes and datagrams, which touch none of these tables.
-/

namespace MqProxy.Driver

open MqProxy.Library MqProxy.Runtime

/-- `RESOLVER_SLOTS`. -/
def RESOLVER_SLOTS : ℕ := 64

/-- `ErrorKind::TimedOut`. -/
def TIMED_OUT : ErrorKind := .named 0

/-- `Expired`. -/
inductive Expired where
  | dial (op : ℕ)
  | listenerRetry (listener : ℕ)
  | shutdownCap
  deriving DecidableEq

/-- The calls of `Io` that start, cancel, change or close something. -/
inductive IoCall where
  | startResolve (op : ℕ) (host : String) (port : UInt16)
  | startConnect (op : ℕ) (addr : SocketAddr)
  | cancelConnect (op : ℕ)
  | openUdp (localIp : IpAddr)
  | shutdownWrite (sock : ℕ)
  | setNodelay (sock : ℕ)
  | setKeepalive (sock : ℕ) (ka : KeepAlive)
  | closeTcp (sock : ℕ) (abort : Bool)
  | closeUdp (sock : ℕ)
  deriving DecidableEq

/-! ### Deadlines -/

/-- `Deadlines`. -/
structure Deadlines where
  set : List (ℕ × Expired)

namespace Deadlines

/-- `Deadlines::cancel`. -/
def cancel (d : Deadlines) (x : Expired) : Deadlines := ⟨d.set.filter fun e => e.2 ≠ x⟩

/-- `Deadlines::set`: a deadline is armed once. -/
def arm (d : Deadlines) (x : Expired) (at_ : ℕ) : Deadlines := ⟨(d.cancel x).set ++ [(at_, x)]⟩

/-- `Deadlines::expire`: what is due, earliest first, and what is left. -/
def expire (d : Deadlines) (now : ℕ) : List Expired × Deadlines :=
  (((d.set.filter fun e => e.1 ≤ now).insertionSort fun a b => a.1 ≤ b.1).map Prod.snd,
    ⟨d.set.filter fun e => ¬e.1 ≤ now⟩)

end Deadlines

/-! ### The resolver queue -/

/-- `ResolverQueue`. -/
structure ResolverQueue where
  /-- Holding a slot, abandoned ones included. -/
  running : Finset ℕ
  abandoned : Finset ℕ
  waiting : List (ℕ × String × UInt16)

namespace ResolverQueue

/-- `ResolverQueue::submit`, with the calls it makes. -/
def submit (q : ResolverQueue) (op : ℕ) (host : String) (port : UInt16) : ResolverQueue × List IoCall :=
  if q.running.card < RESOLVER_SLOTS then
    ({ q with running := insert op q.running }, [.startResolve op host port])
  else ({ q with waiting := q.waiting ++ [(op, host, port)] }, [])

/-- `ResolverQueue::cancel`. -/
def cancel (q : ResolverQueue) (op : ℕ) : ResolverQueue :=
  if op ∈ q.running then { q with abandoned := insert op q.abandoned }
  else { q with waiting := q.waiting.filter fun w => w.1 ≠ op }

/-- `ResolverQueue::finished`, with the calls it makes. -/
def finished (q : ResolverQueue) (op : ℕ) : Bool × ResolverQueue × List IoCall :=
  if op ∈ q.running then
    let used := decide (op ∉ q.abandoned)
    let abandoned := q.abandoned.erase op
    match q.waiting with
    | [] => (used, { q with running := q.running.erase op, abandoned }, [])
    | (next, host, port) :: rest =>
      (used, ⟨insert next (q.running.erase op), abandoned, rest⟩, [.startResolve next host port])
  else (false, q, [])

end ResolverQueue

/-! ### The loop core -/

/-- `DialState`. -/
inductive DialState where
  | resolving
  | connecting (addr : SocketAddr)
  | resolveOnly
  deriving DecidableEq

/-- `IoEvent::Resolved` and `IoEvent::Connected`. -/
inductive Completion where
  | resolved (op : ℕ) (r : Except ErrorKind (List SocketAddr))
  | connected (op : ℕ) (r : Except ErrorKind ℕ)

/-- What `open_udp` gives: a socket and its address. -/
abbrev Opened := Except ErrorKind (ℕ × SocketAddr)

/-- What is logged. -/
inductive LoopEdge where
  /-- `wait` returned a completion. -/
  | completed (ev : Completion)
  /-- `accept` returned a socket. -/
  | accepted (sock : ℕ)
  /-- The primary UDP socket was attached. -/
  | attached (sock : ℕ)
  | io (c : IoCall)
  | opened (op : ℕ) (r : Opened)
  /-- A request of the shard was executed. -/
  | request (r : IoRequest)
  /-- The shard was told, by `on_dial_result`, `on_resolve_result` or `on_udp_socket`. -/
  | dialReported (op : ℕ) (r : Except DialError SocketAddr)
  | resolveReported (op : ℕ) (r : Except DialError SocketAddr)
  | udpReported (op : ℕ) (r : Except ErrorKind SocketAddr)

/-- Where an iteration is. -/
inductive Phase where
  /-- Between two iterations. -/
  | waiting
  /-- Step 3, before the expired deadlines. -/
  | accepting (due : List Expired) (results : List Completion) (shutdown : Bool)
  | expiring (due : List Expired) (results : List Completion) (shutdown : Bool)
  | completing (results : List Completion) (shutdown : Bool)
  | delivering (shutdown : Bool)
  /-- Steps 4 to 8. -/
  | executing
  | exited (code : ℕ)

/-- `LoopConfig`. -/
structure LoopConfig where
  emfileRetry : ℕ
  shutdownCap : ℕ

/-- `LoopCore`: its tables, and the time and the place of the iteration. -/
structure LoopCore where
  cfg : LoopConfig
  deadlines : Deadlines
  resolver : ResolverQueue
  tcp : AList fun _ : ℕ => ℕ
  udp : AList fun _ : ℕ => ℕ
  dials : AList fun _ : ℕ => DialState
  /-- Results received but not yet delivered. -/
  held : List (ℕ × Opened)
  shuttingDown : Bool
  capHit : Bool
  now : ℕ
  phase : Phase
  log : List LoopEdge

/-- What `accept` returned. -/
inductive Accepted where
  | sock (s : ℕ)
  | wouldBlock
  /-- `EMFILE` or `ENFILE`. -/
  | emfile
  | other

/-- The steps of the loop and of its environment. -/
inductive LoopAction where
  /-- `attach_primary_udp`, before the loop starts. -/
  | attachPrimaryUdp (sock id : ℕ)
  /-- Step 1: `wait` returns. -/
  | wake (now : ℕ) (results : List Completion) (shutdown : Bool)
  /-- A turn of `accepts`; `answer` is the shard's `on_accepted`. -/
  | accept (listener : ℕ) (r : Accepted) (answer : Option ℕ)
  /-- The next turn of the loops of step 3; `answer` is what the shard returns if it is
  offered a socket. -/
  | next (answer : Option ℕ)
  /-- Step 8: a request of the shard; `opened` is what `open_udp` returns if it is called. -/
  | request (r : IoRequest) (opened : Opened)
  /-- Steps 9 and 10; `status` is the shard's `exit_status`. -/
  | finish (status : Option ℕ)

namespace LoopCore

/-- `LoopCore::new`. -/
def new (cfg : LoopConfig) : LoopCore where
  cfg
  deadlines := ⟨[]⟩
  resolver := ⟨∅, ∅, []⟩
  tcp := ∅
  udp := ∅
  dials := ∅
  held := []
  shuttingDown := false
  capHit := false
  now := 0
  phase := .waiting
  log := []

variable (lc : LoopCore)

/-- Something is logged. -/
def note (es : List LoopEdge) : LoopCore := { lc with log := lc.log ++ es }

/-- Calls of `Io`. -/
def calls (cs : List IoCall) : LoopCore := lc.note (cs.map .io)

/-- `attach_primary_udp`. -/
def attachPrimaryUdp (sock id : ℕ) : LoopCore :=
  { lc.note [.attached sock] with udp := lc.udp.insert id sock }

/-- `add_tcp`. -/
def addTcp (tcp sock : ℕ) : LoopCore := { lc with tcp := lc.tcp.insert tcp sock }

/-- The shard takes a TCP socket under an id, or it is closed. -/
def adoptTcp (sock : ℕ) : Option ℕ → LoopCore
  | some tcp => lc.addTcp tcp sock
  | none => lc.calls [.closeTcp sock false]

/-- A turn of `accepts`. -/
def accept (listener : ℕ) (r : Accepted) (answer : Option ℕ) : LoopCore :=
  match r with
  | .sock s => (lc.note [.accepted s]).adoptTcp s answer
  | .emfile => { lc with deadlines := lc.deadlines.arm (.listenerRetry listener) (lc.now + lc.cfg.emfileRetry) }
  | .wouldBlock => lc
  | .other => lc

/-- The entry and the deadline of a dial go. -/
def dropDial (op : ℕ) : LoopCore :=
  { lc with dials := lc.dials.erase op, deadlines := lc.deadlines.cancel (.dial op) }

/-- `fail_dial`. -/
def failDial (op : ℕ) (e : DialError) : LoopCore :=
  (lc.dropDial op).note [.dialReported op (.error e)]

/-- `connect_error`. -/
def connectError (kind : ErrorKind) : DialError := if kind = TIMED_OUT then .timeout else .refused

/-- The first address of an answer. -/
def firstAddr : Except ErrorKind (List SocketAddr) → Option SocketAddr
  | .ok addrs => addrs.head?
  | .error _ => none

/-- `dial_result` for `Resolved`. -/
def resolved (op : ℕ) (r : Except ErrorKind (List SocketAddr)) : LoopCore :=
  let (used, resolver, cs) := lc.resolver.finished op
  let lc := { lc with resolver }.calls cs
  -- abandoned: its slot is freed, the result dropped
  if used = false then lc
  else
    match lc.dials.lookup op, firstAddr r with
    | some .resolving, some a => { lc with dials := lc.dials.insert op (.connecting a) }.calls [.startConnect op a]
    | some .resolving, none => lc.failDial op .dns
    | some .resolveOnly, some a => (lc.dropDial op).note [.resolveReported op (.ok a)]
    | some .resolveOnly, none => (lc.dropDial op).note [.resolveReported op (.error .dns)]
    | _, _ => lc

/-- `dial_result` for `Connected`. -/
def connected (op : ℕ) (r : Except ErrorKind ℕ) (answer : Option ℕ) : LoopCore :=
  match lc.dials.lookup op, r with
  | some (.connecting a), .ok s => ((lc.dropDial op).note [.dialReported op (.ok a)]).adoptTcp s answer
  | some (.connecting _), .error kind => lc.failDial op (connectError kind)
  -- cancelled or timed out: a late socket is closed
  | _, .ok s => lc.calls [.closeTcp s false]
  | _, .error _ => lc

/-- `dial_result`. -/
def dialResult (ev : Completion) (answer : Option ℕ) : LoopCore :=
  match ev with
  | .resolved op r => lc.resolved op r
  | .connected op r => lc.connected op r answer

/-- `udp_opened`. -/
def udpOpened (op : ℕ) (r : Opened) (answer : Option ℕ) : LoopCore :=
  match r with
  | .ok (s, localAddr) =>
    let lc := lc.note [.udpReported op (.ok localAddr)]
    match answer with
    | some id => { lc with udp := lc.udp.insert id s }
    | none => lc.calls [.closeUdp s]
  | .error kind => lc.note [.udpReported op (.error kind)]

/-- `expired`. -/
def expired : Expired → LoopCore
  | .dial op =>
    let gone := { lc with dials := lc.dials.erase op }
    match lc.dials.lookup op with
    -- the resolver slot stays occupied until the result returns
    | some .resolving =>
      { gone with resolver := lc.resolver.cancel op }.note [.dialReported op (.error .timeout)]
    | some (.connecting _) => (gone.calls [.cancelConnect op]).note [.dialReported op (.error .timeout)]
    | some .resolveOnly =>
      { gone with resolver := lc.resolver.cancel op }.note [.resolveReported op (.error .timeout)]
    | none => lc
  | .listenerRetry _ => lc
  | .shutdownCap => { lc with capHit := true }

/-- Step 3's shutdown signal. -/
def shutdownSignal (shutdown : Bool) : LoopCore :=
  if shutdown && !lc.shuttingDown then
    { lc with shuttingDown := true, deadlines := lc.deadlines.arm .shutdownCap (lc.now + lc.cfg.shutdownCap) }
  else lc

/-- A dial of the shard enters the table, with its deadline. -/
def enterDial (op : ℕ) (st : DialState) (deadline : ℕ) : LoopCore :=
  { lc with
    deadlines := lc.deadlines.arm (.dial op) (lc.now + deadline)
    dials := lc.dials.insert op st }

/-- A name is to be resolved. -/
def submit (op : ℕ) (host : String) (port : UInt16) : LoopCore :=
  let (resolver, cs) := lc.resolver.submit op host port
  { lc with resolver }.calls cs

/-- `SocketAddr::new`. -/
def addrOf : IpAddr → UInt16 → SocketAddr
  | .v4 ip, port => .v4 ip port
  | .v6 ip, port => .v6 ip port 0 0

/-- `execute` for `CancelDial` and `CancelResolve`. -/
def cancelDial (op : ℕ) : LoopCore :=
  match lc.dials.lookup op with
  | some (.connecting _) => (lc.dropDial op).calls [.cancelConnect op]
  | some _ => { lc.dropDial op with resolver := lc.resolver.cancel op }
  | none => lc.dropDial op

/-- `execute` for `CancelUdpSocket`: the held result goes, and its socket is closed. -/
def cancelUdpSocket (op : ℕ) : LoopCore :=
  let rest := { lc with held := lc.held.eraseP fun h => h.1 = op }
  match lc.held.find? fun h => h.1 = op with
  | some (_, .ok (s, _)) => rest.calls [.closeUdp s]
  | _ => rest

/-- A call on the socket of a TCP id, if there is one. -/
def onTcp (tcp : ℕ) (c : ℕ → IoCall) : LoopCore :=
  match lc.tcp.lookup tcp with
  | some s => lc.calls [c s]
  | none => lc

/-- `execute`; `none` where the source panics: an IP target is not resolved. -/
def execute (r : IoRequest) (opened : Opened) : Option LoopCore :=
  let lc := lc.note [.request r]
  match r with
  | .dial op ⟨.ip ip, port⟩ deadline =>
    some ((lc.enterDial op (.connecting (addrOf ip port)) deadline).calls [.startConnect op (addrOf ip port)])
  | .dial op ⟨.domain host, port⟩ deadline => some ((lc.enterDial op .resolving deadline).submit op host port)
  | .resolve op ⟨.domain host, port⟩ deadline => some ((lc.enterDial op .resolveOnly deadline).submit op host port)
  | .resolve _ ⟨.ip _, _⟩ _ => none
  | .cancelDial op => some (lc.cancelDial op)
  | .cancelResolve op => some (lc.cancelDial op)
  | .openUdpSocket op localIp =>
    some { (lc.calls [.openUdp localIp]).note [.opened op opened] with held := lc.held ++ [(op, opened)] }
  | .cancelUdpSocket op => some (lc.cancelUdpSocket op)
  | .closeUdpSocket id =>
    match lc.udp.lookup id with
    | some s => some ({ lc with udp := lc.udp.erase id }.calls [.closeUdp s])
    | none => some lc
  | .tcpShutdownWrite tcp => some (lc.onTcp tcp .shutdownWrite)
  | .tcpSetNodelay tcp => some (lc.onTcp tcp .setNodelay)
  | .tcpSetKeepalive tcp ka => some (lc.onTcp tcp fun s => .setKeepalive s ka)
  | .tcpClose tcp abort =>
    match lc.tcp.lookup tcp with
    | some s => some ({ lc with tcp := lc.tcp.erase tcp }.calls [.closeTcp s abort])
    | none => some lc

/-- The iteration is elsewhere. -/
def at_ (phase : Phase) : LoopCore := { lc with phase }

/-- The next turn of the loops of step 3. -/
def next (answer : Option ℕ) : Option LoopCore :=
  match lc.phase with
  | .accepting due results shutdown => some (lc.at_ (.expiring due results shutdown))
  | .expiring [] results shutdown => some (lc.at_ (.completing results shutdown))
  | .expiring (e :: due) results shutdown => some ((lc.expired e).at_ (.expiring due results shutdown))
  | .completing [] shutdown => some (lc.at_ (.delivering shutdown))
  | .completing (ev :: results) shutdown => some ((lc.dialResult ev answer).at_ (.completing results shutdown))
  | .delivering shutdown =>
    match lc.held with
    | (op, r) :: held => some ({ lc with held }.udpOpened op r answer)
    | [] => some ((lc.shutdownSignal shutdown).at_ .executing)
  | _ => none

/-- Steps 9 and 10. -/
def finish (status : Option ℕ) : LoopCore :=
  match status with
  | some code => lc.at_ (.exited code)
  | none => if lc.capHit then lc.at_ (.exited 0) else lc.at_ .waiting

/-- **One step of the loop.** `none` for what cannot happen now, and for a panic. -/
def step (a : LoopAction) : Option LoopCore :=
  match a, lc.phase with
  | .attachPrimaryUdp sock id, .waiting => some (lc.attachPrimaryUdp sock id)
  | .wake now results shutdown, .waiting =>
    let (due, deadlines) := lc.deadlines.expire now
    some { lc.note (results.map .completed) with deadlines, now, phase := .accepting due results shutdown }
  | .accept listener r answer, .accepting _ _ _ => some (lc.accept listener r answer)
  | .next answer, _ => lc.next answer
  | .request r opened, .executing => lc.execute r opened
  | .finish status, .executing => some (lc.finish status)
  | _, _ => none

end LoopCore

end MqProxy.Driver
