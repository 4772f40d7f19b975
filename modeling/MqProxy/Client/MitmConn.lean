import MqProxy.Client.Gateway
import MqProxy.Client.MitmStream

/-!
# The connections of the MITM front

`Mitm` of `mq-proxy/src/client/mitm/mod.rs` and `conn.rs`: browser connections that are peeked
at, live with their streams, or closing, over the table of the exchanges. Of TLS, h2 and the
ClientHello only the outcome is modelled, as an argument: whether a pass over the connection
fails, which requests h2 hands out, what the peek decides. Timers, counters and the bytes of
the TLS connection are left out; a deadline is an event of its own (`Due`).
-/

namespace MqProxy.Client

open MqProxy.Server (HttpCrate)

/-- `Phase`; a live connection has the name it was intercepted for, and its streams. -/
inductive Phase where
  | peek
  | live (sni : List UInt8) (streams : List MStream)
  | closing

/-- `End`: why a live connection ends. -/
inductive End where
  | eof
  | tlsFatal
  | h2Closed
  | h2Fail
  | handshake
  | idle
  | dead
  | shutdown
  | socketError
  deriving DecidableEq

/-- What the front is set up with: the header rules of the `http` crate, the token, and the limits. -/
structure MitmCfg where
  http : HttpCrate
  auth : List UInt8
  maxConns : ℕ
  mstreamMax : ℕ

/-- `Mitm`, and the exchanges. -/
structure Mitm where
  ex : Exchanges Owner
  conns : AList fun _ : ℕ => Phase

/-- A request that `poll_accept` hands out, and the transport's answers to `open`. -/
structure AcceptTurn where
  stream : ℕ
  parts : Parts
  endStream : Bool
  opened : Option ℕ
  sent : Bool

/-- What h2 does in a pass: the handshake goes on or fails, or requests come, up to a
`Pending` (`none`) or an end. -/
inductive H2Turn where
  | handshake (ok : Bool)
  | accepts (reqs : List AcceptTurn) (ends : Option End)

/-- The answers in a pass. -/
structure PassTurn where
  /-- TLS takes the input. -/
  tls : Bool
  h2 : H2Turn
  room : Bool
  /-- The answers for each stream. -/
  steps : List (List UpTurn × DownTurn)
  /-- TLS, h2 or the output moved, or a waker fired. -/
  moved : Bool

/-- `on_ready` of a connection: the stream is told. -/
def Phase.onReady (stream : ℕ) (r : Ready) : Phase → Phase
  | .live sni ss =>
    .live sni (match ss.findIdx? (·.id = stream) with
      | some i => ss.modify i (·.onReady r)
      | none => ss)
  | phase => phase

namespace Mitm

variable (cfg : MitmCfg)

/-- One request of the accept loop. `none` if h2 hands out a stream that is there, or if the
transport opens a request that is there. -/
def accept (tunnel : Option ℕ) (tcp : ℕ) (sni : List UInt8) (ex : Exchanges Owner) (ss : List MStream)
    (a : AcceptTurn) : Option (Exchanges Owner × List MStream) :=
  -- REFUSED_STREAM
  if cfg.mstreamMax ≤ ss.length then some (ex, ss)
  else if !Fetch.fresh ex a.opened || ss.any (·.id = a.stream) then none
  else
    let r := MStream.openStream cfg.http ex tunnel a.stream (.mitm tcp a.stream) a.parts a.endStream sni cfg.auth
      a.opened a.sent
    match r.2.2 with
    | .ok s => some (r.1, ss ++ [s])
    | .error _ => some (r.1, ss)

/-- The accept loop. -/
def accepts (cfg : MitmCfg) (tunnel : Option ℕ) (tcp : ℕ) (sni : List UInt8) :
    Exchanges Owner → List MStream → List AcceptTurn → Option (Exchanges Owner × List MStream)
  | ex, ss, [] => some (ex, ss)
  | ex, ss, a :: as => (accept cfg tunnel tcp sni ex ss a).bind fun r => accepts cfg tunnel tcp sni r.1 r.2 as

/-- The streams step, from the front; the flag says whether anything moved. -/
def stepStreams (room : Bool) :
    Exchanges Owner → List MStream → List (List UpTurn × DownTurn) → Option (Exchanges Owner × List MStream × Bool)
  | ex, [], _ => some (ex, [], false)
  | _, _ :: _, [] => none
  | ex, s :: ss, a :: as =>
    (Relay.step ⟨s, ex, []⟩ room a.1 a.2).bind fun r =>
      (stepStreams room r.1.table ss as).map fun q => (q.1, r.1.stream :: q.2.1, r.2 || q.2.2)

/-- The streams of a pass: they step, those that are done go, and the front rotates. -/
def passStreams (ex : Exchanges Owner) (ss : List MStream) (a : PassTurn) :
    Option (Exchanges Owner × List MStream × Bool) :=
  (stepStreams a.room ex ss a.steps).map fun q => (q.1, (q.2.1.filter fun s => !s.isDone).rotate 1, q.2.2)

/-- `pass`. -/
def pass (tunnel : Option ℕ) (tcp : ℕ) (ex : Exchanges Owner) (phase : Phase) (a : PassTurn) :
    Option (Exchanges Owner × Phase × Except End Bool) :=
  match phase with
  | .peek => some (ex, .peek, .ok false)
  | .closing => some (ex, .closing, .ok a.moved)
  | .live sni ss =>
    if !a.tls then some (ex, .live sni ss, .error .tlsFatal)
    else
      match a.h2 with
      | .handshake false => some (ex, .live sni ss, .error .h2Fail)
      | .handshake true =>
        (passStreams ex ss a).map fun q => (q.1, .live sni q.2.1, .ok (q.2.2 || a.moved))
      | .accepts reqs ends =>
        (accepts cfg tunnel tcp sni ex ss reqs).bind fun r =>
          match ends with
          | some e => some (r.1, .live sni r.2, .error e)
          | none => (passStreams r.1 r.2 a).map fun q => (q.1, .live sni q.2.1, .ok (q.2.2 || a.moved))

/-- The owners of a connection's exchanges. -/
def ofConn (tcp : ℕ) : Owner → Bool
  | .mitm conn _ => conn = tcp
  | .fetch _ => false

/-- `end`: the exchanges of the connection are reset, and its streams go with them. -/
def endConn (m : Mitm) (tcp : ℕ) : Mitm :=
  match m.conns.lookup tcp with
  | some (.live _ _) => ⟨(m.ex.drainOwner m.ex.keys (ofConn tcp)).1, m.conns.insert tcp .closing⟩
  | _ => m

/-- `pump`: passes until nothing moves, or as many as the budget allows. -/
def pump (cfg : MitmCfg) (tunnel : Option ℕ) (tcp : ℕ) : Mitm → List PassTurn → Option Mitm
  | m, [] => some m
  | m, a :: turns =>
    match m.conns.lookup tcp with
    | none => some m
    | some phase =>
      match pass cfg tunnel tcp m.ex phase a with
      | none => none
      | some (ex, phase, out) =>
        let m := ⟨ex, m.conns.insert tcp phase⟩
        match out with
        | .ok false => some m
        | .ok true => pump cfg tunnel tcp m turns
        | .error _ => pump cfg tunnel tcp (m.endConn tcp) turns

/-- `remove`. -/
def remove (m : Mitm) (tcp : ℕ) : Mitm := { m with conns := m.conns.erase tcp }

/-- `on_accepted`: at capacity the socket goes elsewhere. -/
def onAccepted (m : Mitm) (tcp : ℕ) : Mitm :=
  if cfg.maxConns ≤ m.conns.keys.length then m else { m with conns := m.conns.insert tcp .peek }

/-- What the peek decides. -/
inductive Peeked where
  | wait
  /-- The socket leaves the front. -/
  | leave
  /-- The name is to be intercepted. -/
  | mitm (sni : List UInt8)

/-- `peek`. -/
def peek (m : Mitm) (tunnel : Option ℕ) (tcp : ℕ) (got : Peeked) (turns : List PassTurn) :
    Option Mitm :=
  match got with
  | .wait => some m
  | .leave => some (m.remove tcp)
  | .mitm sni => pump cfg tunnel tcp { m with conns := m.conns.insert tcp (.live sni []) } turns

/-- `on_tcp_data`. -/
def onTcpData (m : Mitm) (tunnel : Option ℕ) (tcp : ℕ) (got : Peeked) (turns : List PassTurn) :
    Option Mitm :=
  match m.conns.lookup tcp with
  | none => some m
  | some .peek => peek cfg m tunnel tcp got turns
  | some _ => pump cfg tunnel tcp m turns

/-- `on_tcp_end`; while peeking the socket is closed or leaves the front. -/
def onTcpEnd (m : Mitm) (tunnel : Option ℕ) (tcp : ℕ) (error : Bool) (turns : List PassTurn) :
    Option Mitm :=
  match m.conns.lookup tcp with
  | none => some m
  | some phase =>
    if error then some ((m.endConn tcp).remove tcp)
    else
      match phase with
      | .peek => some (m.remove tcp)
      | _ => pump cfg tunnel tcp m turns

/-- `on_ready`. -/
def onReady (cfg : MitmCfg) (m : Mitm) (tunnel : Option ℕ) (tcp stream : ℕ) (r : Ready) (turns : List PassTurn) :
    Option Mitm :=
  let m := match m.conns.lookup tcp with
    | some phase => { m with conns := m.conns.insert tcp (phase.onReady stream r) }
    | none => m
  pump cfg tunnel tcp m turns

/-- What a timer of a connection is for. -/
inductive Due where
  /-- The continuation of a pump. -/
  | cont
  /-- A deadline: the connection ends, or the timer is armed again. -/
  | deadline (ends : Option End)

/-- `on_timer`. -/
def onTimer (m : Mitm) (tunnel : Option ℕ) (tcp : ℕ) (due : Due) (turns : List PassTurn) :
    Option Mitm :=
  match m.conns.lookup tcp with
  | none => some m
  | some phase =>
    match due with
    | .cont => pump cfg tunnel tcp m turns
    | .deadline ends =>
      match phase with
      | .peek => some (m.remove tcp)
      | .closing => some (m.remove tcp)
      | .live _ _ => pump cfg tunnel tcp (if ends.isSome then m.endConn tcp else m) turns

/-- `on_shutdown`, for one connection. -/
def shutdownConn (m : Mitm) (tcp : ℕ) (turns : List PassTurn) : Option Mitm :=
  match m.conns.lookup tcp with
  | some .peek => some (m.remove tcp)
  | some (.live _ _) => pump cfg none tcp (m.endConn tcp) turns
  | _ => some m

/-- `on_shutdown`. -/
def onShutdown (m : Mitm) (turns : ℕ → List PassTurn) : Option Mitm :=
  m.conns.keys.foldlM (fun m tcp => shutdownConn cfg m tcp (turns tcp)) m

end Mitm

end MqProxy.Client
