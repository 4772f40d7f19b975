import MqProxy.Client.Upload

/-!
# One stream of the MITM front

`MStream` of `mq-proxy/src/client/mitm/stream.rs`: one h2 stream of a browser, and the
exchange that serves it. h2 and the transport answer what they are asked; the answers of a
step are its arguments (`UpTurn` for each round of the upload loop, `DownTurn` for the
download). A stream works on the table of the exchanges, so the two are carried together,
with a log of what came from the browser and from the exchange and of what they were given
(`Relay`).

The buffers of a read are lists of bytes: `recv n` is what the transport writes into a buffer
of `n` bytes.
-/

namespace MqProxy.Client

open MqProxy.Http
open MqProxy.Runtime (StreamError)
open MqProxy.Server (HttpCrate)
open MqProxy.Ingress.HttpConnect (ascii)

variable {O : Type}

/-! ### The state -/

/-- `Up` of a stream. -/
inductive MUp where
  /-- `blocked`: `send_body` said `Blocked`. -/
  | recv (carry : List UInt8) (blocked : Bool)
  | done
  deriving DecidableEq

/-- `Down` of a stream. -/
inductive MDown where
  | awaitHead
  | body
  /-- The response has ended toward the browser; what is left of it is discarded. -/
  | drain
  | done
  deriving DecidableEq

/-- `MStream`. -/
structure MStream where
  id : ℕ
  ex : Option ℕ
  methodIsHead : Bool
  up : MUp
  down : MDown
  h3Ready : Bool
  deriving DecidableEq

/-- What passes between the browser, the stream and the exchange. -/
inductive MEvent where
  /-- `poll_data` gave DATA. -/
  | data (bs : List UInt8)
  /-- `poll_data` gave the end. -/
  | eof
  /-- `send_body` accepted bytes. -/
  | accepted (bs : List UInt8)
  /-- `send_body` was given the FIN. -/
  | fin
  /-- The transport took the FIN. -/
  | finTaken
  /-- The bytes that are dropped when the upload is over. -/
  | discarded (n : ℕ)
  /-- `release_capacity`. -/
  | released (n : ℕ)
  /-- `read_head` gave the head. -/
  | head (h : RespHead)
  /-- `read_body` gave bytes; `last` if it said `Last`. -/
  | body (bs : List UInt8) (last : Bool)
  /-- The head went to the browser. -/
  | response (endStream : Bool)
  /-- A reject response went to the browser, with END_STREAM. -/
  | reject (r : Reject)
  /-- DATA went to the browser. -/
  | sent (bs : List UInt8) (endStream : Bool)
  /-- RST_STREAM went to the browser. -/
  | reset
  deriving DecidableEq

/-- A stream, the exchanges, and the log. -/
structure Relay (O : Type) where
  stream : MStream
  table : Exchanges O
  log : List MEvent

/-- `done`. -/
def MStream.isDone (s : MStream) : Bool := s.ex = none && s.up = .done && s.down = .done

/-- `open`: the stream, or what the browser is answered at once. `opened` is the id that the
transport gives, `sent` whether it takes the head. -/
def MStream.openStream (http : HttpCrate) (t : Exchanges O) (tunnel : Option ℕ) (stream : ℕ) (owner : O) (parts : Parts)
    (endStream : Bool) (sni auth : List UInt8) (opened : Option ℕ) (sent : Bool) :
    Exchanges O × List XCall × Except MapErr MStream :=
  match mapRequest http parts endStream sni auth with
  | .error e => (t, [], .error e)
  | .ok head =>
    match tunnel with
    | none => (t, [], .error (.reject .tunnelUnavailable))
    | some conn =>
      let r := t.openReq conn head owner opened sent
      (r.1, r.2.1, (r.2.2.mapError .reject).map fun id =>
        ⟨stream, some id, parts.method = ascii "HEAD", if endStream then .done else .recv [] false, .awaitHead, false⟩)

/-- `on_ready`. -/
def MStream.onReady (s : MStream) : Ready → MStream
  | .readable => { s with h3Ready := true }
  | .writable =>
    match s.up with
    | .recv carry _ => { s with up := .recv carry false }
    | .done => s

namespace Relay

variable (w : Relay O)

/-- The log grows. -/
def note (es : List MEvent) : Relay O := { w with log := w.log ++ es }

/-- `cancel`. -/
def cancel : Relay O :=
  { w with
    table := w.stream.ex.elim w.table fun id => (w.table.fail id).1
    stream := { w.stream with ex := none, up := .done, down := .done } }

/-- `ended`. -/
def ended : Relay O := { w with stream := { w.stream with ex := none, up := .done } }

/-- The upload side moves on. -/
def setUp (up : MUp) : Relay O := { w with stream := { w.stream with up } }

/-- The download side moves on. -/
def setDown (down : MDown) : Relay O := { w with stream := { w.stream with down } }

end Relay

/-! ### The upload -/

/-- What `poll_data` gives. -/
inductive PollData where
  | pending
  | data (bs : List UInt8)
  | error
  | eof
  deriving DecidableEq

/-- The answers in one round of the upload loop. -/
structure UpTurn extends Turn where
  poll : PollData

/-- What `h3_send_body` answers when `send_body` asks it. -/
def Exchanges.reply (t : Exchanges O) (id : ℕ) (data : List UInt8) (fin : Bool) (a : Turn) : Except StreamError ℕ :=
  match (t.lookup id).bind fun x => toSend x.up data fin with
  | some (d, f, _) => a.sent d f
  | none => .ok 0

namespace Relay

/-- The end of a round of `upload`: the carry is offered to `send_body`. The flags say whether
anything moved, and whether the loop goes on. -/
def send (w : Relay O) (id : ℕ) (carry : List UInt8) (fin moved : Bool) (a : Turn) : Relay O × Bool × Bool :=
  let sent := w.table.reply id carry fin a
  let r := w.table.sendBody id carry fin a.finished sent
  let finTaken := (w.table.took id carry fin a.finished sent).2
  let w := { w with table := r.1, log := w.log ++ if fin then [MEvent.fin] else [] }
  match r.2.2 with
  | .accepted n =>
    let w := w.note (.accepted (carry.take n) :: ((if finTaken then [MEvent.finTaken] else []) ++ [.released n]))
    if fin then (w.setUp .done, true, false) else (w.setUp (.recv (carry.drop n) false), moved || 0 < n, true)
  | .blocked => (w.setUp (.recv carry true), moved, false)
  | .done => ((w.note [.discarded carry.length, .released carry.length]).setUp .done, true, false)

/-- One round of `upload`. -/
def uploadTurn (w : Relay O) (moved : Bool) (a : UpTurn) : Relay O × Bool × Bool :=
  match w.stream.ex, w.stream.up with
  | some id, .recv carry false =>
    if carry = [] then
      match a.poll with
      | .pending => (w, moved, false)
      -- an empty DATA frame is skipped
      | .data bs => ((w.note [.data bs]).setUp (.recv bs false), moved, true)
      | .error => (w.cancel, true, false)
      | .eof => (w.note [.eof]).send id [] true moved a.toTurn
    else w.send id carry false moved a.toTurn
  | _, _ => (w, moved, false)

/-- `upload`; `none` if the loop takes more rounds. -/
def upload (w : Relay O) (moved : Bool) : List UpTurn → Option (Relay O × Bool)
  | [] => none
  | a :: turns =>
    match w.uploadTurn moved a with
    | (w, moved, true) => w.upload moved turns
    | (w, moved, false) => some (w, moved)

end Relay

/-! ### The download -/

/-- What `poll_capacity` gives; with `ready`, what `capacity` is then. -/
inductive PollCap where
  | ready (cap : ℕ)
  | pending
  | closed
  deriving DecidableEq

/-- The wait for capacity; `none` if it takes more polls. -/
def capacity (cap : ℕ) : List PollCap → Option PollCap
  | [] => if cap = 0 then none else some (.ready cap)
  | p :: polls =>
    if cap = 0 then
      match p with
      | .ready cap => capacity cap polls
      | p => some p
    else some (.ready cap)

/-- What a read gives for a buffer of some size: the bytes and the fin. -/
abbrev Recv := ℕ → Except StreamError (List UInt8 × Bool)

/-- The bytes in the buffer. -/
def recvBytes : Except StreamError (List UInt8 × Bool) → List UInt8
  | .ok (bs, _) => bs
  | .error _ => []

/-- The answers in a download. -/
structure DownTurn where
  /-- `poll_reset` while the head is awaited. -/
  reset : Bool
  fields : List Field
  recvHead : Except StreamError Bool
  /-- The head passes `map_response` and `send_response`. -/
  responded : Bool
  /-- `poll_reset` of the body. -/
  bodyReset : Bool
  probe : Recv
  cap : ℕ
  polls : List PollCap
  recv : Recv
  /-- `send_data`. -/
  sent : Bool

namespace Relay

variable (w : Relay O)

/-- `read_body` with a buffer of `n` bytes. -/
def readBody (id n : ℕ) (recv : Recv) : Relay O × BodyOut :=
  let r := w.table.readBody id ((recv n).map fun p => (p.1.length, p.2))
  let w := { w with table := r.1 }
  match r.2.2 with
  | .data k => (w.note [.body ((recvBytes (recv n)).take k) false], r.2.2)
  | .last k => (w.note [.body ((recvBytes (recv n)).take k) true], r.2.2)
  | out => (w, out)

/-- `finish`. -/
def finish (tail : List UInt8) (sent : Bool) : Relay O :=
  let w := w.ended
  (if w.stream.down = .body then if sent then w.note [.sent tail true] else w.cancel else w).setDown .done

/-- `fail`. -/
def fail : Relay O :=
  let w := w.ended
  (if w.stream.down = .body then w.note [.reset] else w).setDown .done

/-- `drain`. -/
def drain (id : ℕ) (a : DownTurn) : Relay O × Bool :=
  if w.stream.down ≠ .drain then (w, false)
  else if a.bodyReset then (w.cancel, true)
  else
    match w.readBody id DL_CHUNK a.recv with
    | (w, .data _) => (w, true)
    | (w, .wait) => (w, false)
    | (w, .last _) | (w, .fail) => (w.ended.setDown .done, true)

/-- The payload of `body`: one read of what there is capacity for. After it the budget is spent. -/
def payloadTurn (id cap : ℕ) (a : DownTurn) : Relay O × Bool :=
  let size := min cap DL_CHUNK
  match w.readBody id size a.recv with
  | (w, .data n) => if a.sent then (w.note [.sent ((recvBytes (a.recv size)).take n) false], true) else (w.cancel, true)
  | (w, .last n) => (w.finish ((recvBytes (a.recv size)).take n) a.sent, true)
  | (w, .fail) => (w.fail, true)
  | (w, .wait) => ({ w with stream := { w.stream with h3Ready := false } }, false)

/-- What follows the probe of `body`: the wait for capacity, and the payload. -/
def bodyTurn (id : ℕ) (room : Bool) (a : DownTurn) : Option (Relay O × Bool) :=
  if !w.stream.h3Ready || !room then some (w, false)
  else
    match capacity a.cap a.polls with
    | none => none
    | some .pending => some (w, false)
    | some .closed => some (w.cancel, true)
    | some (.ready cap) => some (w.payloadTurn id cap a)

/-- `body`; `none` if the wait for capacity takes more polls. -/
def body (id : ℕ) (room : Bool) (a : DownTurn) : Option (Relay O × Bool) :=
  if w.stream.down ≠ .body then some (w, false)
  else if a.bodyReset then some (w.cancel, true)
  else
    -- the terminal probe, with an empty buffer
    match w.readBody id 0 a.probe with
    | (w, .last _) => some (w.finish [] a.sent, true)
    | (w, .fail) => some (w.fail, true)
    | (w, .wait) | (w, .data _) => w.bodyTurn id room a

/-- The response has no body toward the browser. -/
def bodiless (methodIsHead : Bool) (status : ℕ) : Bool := methodIsHead || status = 204 || status = 304

/-- `await_head`. -/
def awaitHead (id : ℕ) (room : Bool) (a : DownTurn) : Option (Relay O × Bool) :=
  if w.stream.down ≠ .awaitHead then some (w, false)
  else if a.reset then some (w.cancel, true)
  else
    let r := w.table.readHead id a.fields a.recvHead
    let w := { w with table := r.1 }
    match r.2.2 with
    | .wait => some (w, false)
    | .fail r => some (((w.note [.reject r]).ended).setDown .done, true)
    | .head h =>
      let w := w.note [.head h]
      if !a.responded then some ((w.note [.reset]).cancel, true)
      else
        let bodiless := bodiless w.stream.methodIsHead h.status
        let w := w.note [.response bodiless]
        let w := { w with stream := { w.stream with h3Ready := true } }
        if bodiless then some (((w.setDown .drain).drain id a).1, true)
        else ((w.setDown .body).body id room a).map fun r => (r.1, true)

/-- `download`. -/
def download (room : Bool) (a : DownTurn) : Option (Relay O × Bool) :=
  match w.stream.ex with
  | none => some (w, false)
  | some id =>
    match w.stream.down with
    | .awaitHead => w.awaitHead id room a
    | .body => w.body id room a
    | .drain => some (w.drain id a)
    | .done => some (w, false)

/-- `step`: the upload, then the download. -/
def step (room : Bool) (ups : List UpTurn) (a : DownTurn) : Option (Relay O × Bool) :=
  (w.upload false ups).bind fun u => (u.1.download room a).map fun d => (d.1, d.2 || u.2)

end Relay

end MqProxy.Client
