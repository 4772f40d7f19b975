import MqProxy.Client.Exchange
import MqProxy.Server.Gateway
import MqProxy.Server.OriginTypes

/-!
# The relay of one request

`GwCore` of `mq-proxy/src/server/gateway/mod.rs` for one request that `origin.start` accepted: its
body is read into the upload (`fill`), and what the bridge reports goes out on the H3 request
(`on_response`, `on_body_frame`, `on_body_end`, `on_failure`, `flush`). What the transport
answers is an argument. What is read, sent and reported is logged.

The bridge's record of the request is modelled as far as it decides what is reported next:
`poll_exchanges` of `pump.rs` polls no frame while `held` is set, and `resume` clears it.
-/

namespace MqProxy.Server

open MqProxy.Http MqProxy.Runtime
open MqProxy.Client (bodyCheckApplies)
open MqProxy.Ingress.HttpConnect (ascii)

/-! ### The state -/

/-- `GwState` of a request that was started. -/
inductive GwPhase where
  | origin (recvd : ℕ) (head : Option (List Field)) (pending : List UInt8) (finDue : Bool)
  | done
  deriving DecidableEq

/-- What happens for the request. -/
inductive GwNote where
  /-- `h3_recv_body` gives bytes to `fill`. -/
  | recv (bs : List UInt8) (fin : Bool)
  /-- `drain` discards bytes. -/
  | drained (bs : List UInt8)
  /-- hyper polls the body. -/
  | polled (p : Polled)
  /-- The upload will not complete. -/
  | aborted
  | response (head : RelayHead)
  | frame (bs : List UInt8)
  | bodyEnd (done : Completion)
  | failure (f : OriginFailure) (afterHead : Bool)
  /-- `h3_send_headers`, and whether it was accepted. -/
  | headers (hs : List Field) (fin ok : Bool)
  /-- `h3_send_body`, with the bytes that it took. -/
  | body (bs : List UInt8)
  /-- `h3_finish`, and whether it was accepted. -/
  | fin (ok : Bool)
  | reset
  /-- The server is done with the request. -/
  | finished
  deriving DecidableEq

/-- The gateway's side of the request. -/
structure GwRelay where
  /-- `masquerade && !authed`. -/
  masq : Bool
  method : Method
  status : ℕ
  phase : GwPhase
  upload : UploadBuf
  log : List GwNote

/-- A read of the H3 body: the room that is offered, and what comes. -/
abbrev BodyRead := ℕ → Except StreamError (List UInt8 × Bool)

/-- What the transport answers while something goes out, and what a `drain` finds. -/
structure SendTurn where
  head : Except StreamError Unit
  body : List UInt8 → Except StreamError ℕ
  fin : Except StreamError Unit
  drained : List UInt8

namespace GwRelay

variable (r : GwRelay)

/-- The log grows. -/
def note (ns : List GwNote) : GwRelay := { r with log := r.log ++ ns }

@[simp] theorem log_note (ns : List GwNote) : (r.note ns).log = r.log ++ ns := rfl

/-- The upload is cut off. -/
def cutUpload : GwRelay :=
  { r with upload := r.upload.cut }.note (if r.upload.fin then [] else [.aborted])

/-- `finish`. -/
def finish (drained : List UInt8) : GwRelay :=
  match r.phase with
  | .origin .. => ({ r.cutUpload with phase := .done }).note [.finished, .drained drained]
  | .done => r.note [.drained drained]

/-- `reset`. -/
def reset (drained : List UInt8) : GwRelay :=
  match r.phase with
  | .origin .. => (r.note [.reset]).finish drained
  | .done => r

/-- `send_error`; a small block that is blocked counts as sent. -/
def sendError (status : ℕ) (xmq : List UInt8) (a : SendTurn) : GwRelay :=
  match r.phase with
  | .done => r
  | .origin .. =>
    let status := if r.masq then 404 else status
    let hs := [(ascii ":status", ascii (toString status))] ++
      (if r.masq then [] else [(ascii "x-mq-error", xmq)]) ++ [(ascii "content-length", ascii "0")]
    let r := { r with status }.note [.headers hs true a.head.isOk]
    let r := if sent a.head then r else r.note [.reset]
    r.finish a.drained

/-! ### The upload -/

/-- The loop of `fill`: what the upload and the count become, the log, and why it broke off. A read
beyond the answers is blocked. `none` if the room underflows. -/
def fillLoop (u : UploadBuf) (recvd : ℕ) : List BodyRead → Option (UploadBuf × ℕ × List GwNote × Option Bool)
  | [] => if UPLOAD_CAP < u.data.length then none else some (u, recvd, [], none)
  | a :: turns =>
    if UPLOAD_CAP < u.data.length then none
    else
      let room := UPLOAD_CAP - u.data.length
      if u.fin || u.aborted || room = 0 then some (u, recvd, [], none)
      else
        match a (min room SLICE) with
        | .error e => some (u, recvd, [], if e = .blocked then none else some true)
        | .ok (bs, fin) =>
          let recvd := recvd + bs.length
          if u.cl.any fun cl => cl < recvd || (fin && recvd < cl) then
            some (u, recvd, [.recv bs fin], some false)
          else
            let u := { u with data := u.data ++ bs, fin }
            if fin || bs = [] then some (u, recvd, [.recv bs fin], none)
            else (fillLoop u recvd turns).map fun q => (q.1, q.2.1, .recv bs fin :: q.2.2.1, q.2.2.2)

/-- `fill`; the flag says whether a receive error ended the request. -/
def fill (turns : List BodyRead) (drained : List UInt8) : Option (GwRelay × Bool) :=
  match r.phase with
  | .done => some (r, false)
  | .origin recvd head pending finDue =>
    (fillLoop r.upload recvd turns).map fun q =>
      let r := { r with upload := q.1, phase := .origin q.2.1 head pending finDue }.note q.2.2.1
      match q.2.2.2 with
      | none => (r, false)
      | some ended => (r.reset drained, ended)

/-- hyper polls the body. -/
def poll : GwRelay :=
  { r with upload := r.upload.pollFrame.1 }.note [.polled r.upload.pollFrame.2]

/-! ### The response -/

/-- The held head of `send_out`. -/
def sendHead (a : SendTurn) : GwRelay × Except StreamError Bool :=
  match r.phase with
  | .origin recvd (some hs) pending finDue =>
    match a.head with
    | .ok () => ({ r with phase := .origin recvd none pending finDue }.note [.headers hs false true], .ok true)
    | .error e => (r.note [.headers hs false false], if e = .blocked then .ok false else .error e)
  | _ => (r, .ok true)

/-- The pending bytes of `send_out`. -/
def sendPending (a : SendTurn) : GwRelay × Except StreamError Bool :=
  match r.phase with
  | .origin recvd head pending finDue =>
    if pending = [] then (r, .ok true)
    else
      match a.body pending with
      | .ok n =>
        ({ r with phase := .origin recvd head (pending.drop n) finDue }.note [.body (pending.take n)],
          .ok (pending.drop n = []))
      | .error e => (r, if e = .blocked then .ok false else .error e)
  | .done => (r, .ok true)

/-- `h3_finish` in `send_out`. -/
def sendFin (a : SendTurn) : GwRelay × Except StreamError Bool :=
  match r.phase with
  | .origin _ _ _ true => (r.note [.fin a.fin.isOk], a.fin.map fun _ => true)
  | _ => (r, .ok true)

/-- A part of `send_out` after another, if that one went out. -/
def andThen (q : GwRelay × Except StreamError Bool) (f : GwRelay → GwRelay × Except StreamError Bool) :
    GwRelay × Except StreamError Bool :=
  match q.2 with
  | .ok true => f q.1
  | _ => q

/-- `send_out`. -/
def sendOut (a : SendTurn) : GwRelay × Except StreamError Bool :=
  andThen (andThen (r.sendHead a) fun r => r.sendPending a) fun r => r.sendFin a

/-- `flush`; the flag says whether everything is out. -/
def flush (a : SendTurn) : GwRelay × Bool :=
  match r.phase with
  | .done => (r, false)
  | .origin _ _ _ fin =>
    match r.sendOut a with
    | (r, .ok false) => (r, false)
    | (r, .ok true) => (if fin then r.finish a.drained else r, true)
    | (r, .error _) => (r.reset a.drained, false)

/-- The head that is relayed. -/
def relayed (head : RelayHead) : List Field :=
  [(ascii ":status", ascii (toString (if 100 ≤ head.status ∧ head.status ≤ 599 then head.status else 502))),
    (ascii "x-mq-origin-protocol", head.version)] ++ head.headers

/-- `on_response`. -/
def onResponse (head : RelayHead) (a : SendTurn) : GwRelay :=
  match r.phase with
  | .done => r
  | .origin recvd _ pending finDue =>
    ({ r with status := head.status, phase := .origin recvd (some (relayed head)) pending finDue }.flush a).1

/-- `on_body_frame`; the flag says whether all was accepted. -/
def onBodyFrame (bs : List UInt8) (a : SendTurn) : GwRelay × Bool :=
  match r.phase with
  | .done => (r, true)
  | .origin recvd head pending finDue =>
    let kept := fun (r : GwRelay) n => { r with phase := .origin recvd head (pending ++ bs.drop n) finDue }
    if head.isSome then (kept r 0, bs = [])
    else
      match a.body bs with
      | .ok n => if n = bs.length then (r.note [.body bs], true) else ((kept r n).note [.body (bs.take n)], false)
      | .error e => if e = .blocked then (kept r 0, bs = []) else (r.reset a.drained, true)

/-- The body check of `on_body_end`. -/
def short (done : Completion) : Bool :=
  bodyCheckApplies r.method r.status && done.cl.any fun cl => done.delivered < cl

/-- `on_body_end`. -/
def onBodyEnd (done : Completion) (a : SendTurn) : GwRelay :=
  match r.phase with
  | .done => r
  | .origin recvd head pending _ =>
    if r.short done then r.reset a.drained
    else ({ r with phase := .origin recvd head pending true }.flush a).1

/-- The text of `x-mq-error`. -/
def xmqOf (f : OriginFailure) : List UInt8 :=
  if f.startFailed then ascii "origin-start-failed"
  else if f.upstreamProtocol then ascii "upstream-protocol"
  else ascii s!"curl:{f.curl}"

/-- `on_failure`. -/
def onFailure (f : OriginFailure) (afterHead : Bool) (a : SendTurn) : GwRelay :=
  if afterHead then r.reset a.drained else r.sendError f.status (xmqOf f) a

end GwRelay

/-! ### The request and the bridge -/

/-- What the bridge's record of the request says about what is reported next: `ended` once there is
none or it is `Ended`, `held`, `delivered` and `cl` of an `Assigned` record. -/
structure BridgeRec where
  responded : Bool
  ended : Bool
  held : Bool
  delivered : ℕ
  cl : Option ℕ

/-- A request, in the gateway and in the bridge. -/
structure Relayed where
  gw : GwRelay
  req : BridgeRec

/-- What happens to the request. -/
inductive RelayEvent where
  /-- `H3Readable`. -/
  | readable (turns : List BodyRead) (drained : List UInt8)
  /-- `want_h3`. -/
  | wantH3 (turns : List BodyRead) (drained : List UInt8)
  /-- `H3Writable`. -/
  | writable (a : SendTurn)
  | response (head : RelayHead) (a : SendTurn)
  | frame (bs : List UInt8) (a : SendTurn)
  /-- The body of the response ends; what `Completion` says besides the lengths. -/
  | bodyEnd (reused : Bool) (connectMs : ℕ) (tls : TlsOutcome) (a : SendTurn)
  | failure (f : OriginFailure) (a : SendTurn)
  /-- hyper polls a body of the upload. -/
  | poll
  | newBody
  | dropBody
  /-- `H3Closed`. -/
  | closed
  /-- `on_shutdown`. -/
  | shutdown (drained : List UInt8)

namespace Relayed

/-- The record is `Ended`, and the upload is cut off (`OriginReq::end`). -/
def endReq (w : Relayed) : Relayed := ⟨w.gw.cutUpload, { w.req with ended := true }⟩

/-- One event. -/
def step (w : Relayed) : RelayEvent → Option Relayed
  | .readable turns drained =>
    if w.gw.phase = .done then some { w with gw := w.gw.note [.drained drained] }
    else
      (w.gw.fill turns drained).map fun q =>
        -- a receive error: `origin.cancel`
        if q.2 then endReq { w with gw := q.1 } else { w with gw := q.1 }
  | .wantH3 turns drained => (w.gw.fill turns drained).map fun q => { w with gw := q.1 }
  | .writable a =>
    let q := w.gw.flush a
    -- `resume`
    some ⟨q.1, if q.2 then { w.req with held := false } else w.req⟩
  | .response head a =>
    some ⟨(w.gw.note [.response head]).onResponse head a, { w.req with responded := true, cl := head.cl }⟩
  | .frame bs a =>
    let q := (w.gw.note [.frame bs]).onBodyFrame bs a
    some ⟨q.1, { w.req with delivered := w.req.delivered + bs.length, held := !q.2 }⟩
  | .bodyEnd reused connectMs tls a =>
    let done := ⟨reused, connectMs, tls, w.req.delivered, w.req.cl⟩
    some (endReq { w with gw := (w.gw.note [.bodyEnd done]).onBodyEnd done a })
  | .failure f a =>
    some (endReq { w with gw := (w.gw.note [.failure f w.req.responded]).onFailure f w.req.responded a })
  | .poll => some { w with gw := w.gw.poll }
  | .newBody => some { w with gw := { w.gw with upload := w.gw.upload.newBody } }
  | .dropBody => some { w with gw := { w.gw with upload := w.gw.upload.dropBody } }
  -- the entry goes, and the origin request is cancelled
  | .closed => some (endReq { w with gw := { w.gw with phase := .done } })
  | .shutdown drained => some { w with gw := (w.gw.note [.reset]).finish drained }

/-- A request as `intake` leaves it: started, with its upload. -/
def start (masq : Bool) (method : Method) (body : BodyKind) : Relayed :=
  let cl := match body with
    | .known n => some n
    | _ => none
  ⟨⟨masq, method, 0, .origin 0 none [] false, .new cl (body = .none), []⟩, ⟨false, false, false, 0, none⟩⟩

end Relayed

/-- The transport takes no more than it is offered. -/
def SendTurn.Honest (a : SendTurn) : Prop := ∀ d n, a.body d = .ok n → n ≤ d.length

/-- A read gives no more than there is room for. -/
def HonestRead (a : BodyRead) : Prop := ∀ room bs fin, a room = .ok (bs, fin) → bs.length ≤ room

/-- The transport's answers in an event are honest. -/
def RelayEvent.Honest : RelayEvent → Prop
  | .readable turns _ | .wantH3 turns _ => ∀ a ∈ turns, HonestRead a
  | .writable a | .response _ a | .frame _ a | .bodyEnd _ _ _ a | .failure _ a => a.Honest
  | _ => True

end MqProxy.Server
