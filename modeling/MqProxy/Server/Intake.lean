import MqProxy.Library.Vec
import MqProxy.Runtime.Relay
import MqProxy.Server.Request
import MqProxy.Wire.FrameFormats

/-!
# The intake of a data stream

`data_readable` of `mq-proxy/src/server/mod.rs` for one data stream, with the functions
it calls: `recv`, `drain` and `flush` of `app_stream.rs`, `dial`, `respond_error` and
`drop_data`, and `udp_open` of `server/udp_session.rs`. What the stream has to give is
a script of reads (`Incoming`); a read that is longer than the room for it is cut, and
the rest stays for the next. What the server does to the stream, to its timer, its dial
and its session is a list of actions (`Act`).

`REQ_BUF - len` and `RELAY_BUF - len` are checked subtractions: where the source would
underflow, the model has no result.
-/

namespace MqProxy.Server

open MqProxy.Wire MqProxy.Runtime MqProxy.Library

/-- `CHUNK` of `app_stream.rs`. -/
def CHUNK : ℕ := 1024

/-- `REQ_BUF`. -/
def REQ_BUF : ℕ := 1024

/-- `MAX_SESSIONS_PER_CONN`. -/
def MAX_SESSIONS_PER_CONN : ℕ := 1024

/-! ### Reads of a stream -/

/-- What the stream gives to one read that has room enough. -/
inductive Read where
  /-- Bytes, none perhaps, and the peer's FIN after them. -/
  | data (bytes : List UInt8) (fin : Bool)
  /-- Nothing now. -/
  | blocked
  /-- A reset or a dead stream. -/
  | failed
  deriving DecidableEq

/-- The reads to come. -/
abbrev Incoming := List Read

/-- `Recv`, with the bytes that were appended. -/
inductive Recv where
  /-- `Data`. -/
  | data (bytes : List UInt8) (fin : Bool)
  /-- `Blocked`. -/
  | blocked
  /-- `Failed`: the stream has been reset. -/
  | failed
  deriving DecidableEq

/-- One `stream_recv` of at most `cap` bytes. -/
def recv (cap : ℕ) : Incoming → Recv × Incoming
  | [] => (.blocked, [])
  | .blocked :: rs => (.blocked, rs)
  | .failed :: rs => (.failed, rs)
  | .data bytes fin :: rs =>
    if bytes.length ≤ cap then (.data bytes fin, rs)
    else (.data (bytes.take cap) false, .data (bytes.drop cap) fin :: rs)

/-- What bounds the reads of a script. -/
def weight : Incoming → ℕ
  | [] => 0
  | .data bytes _ :: rs => bytes.length + 1 + weight rs
  | .blocked :: rs => 1 + weight rs
  | .failed :: rs => 1 + weight rs

variable {inc inc' : Incoming}

/-- A read of bytes takes them from the script. -/
theorem weight_recv {cap : ℕ} {bytes : List UInt8} {fin : Bool}
    (h : recv cap inc = (.data bytes fin, inc')) : weight inc' + bytes.length ≤ weight inc := by
  match inc with
  | [] => cases h
  | .blocked :: rs => cases h
  | .failed :: rs => cases h
  | .data bs f :: rs =>
    simp only [recv] at h
    split at h <;> cases h <;> simp only [weight, List.length_take, List.length_drop] <;> omega

/-- `drain`: read and discard until `Blocked` or FIN; `false` when the stream failed. -/
def drain (inc : Incoming) : Bool × Incoming :=
  match _h : recv CHUNK inc with
  | (.data bytes false, inc') => if 0 < bytes.length then drain inc' else (true, inc')
  | (.data _ true, inc') => (true, inc')
  | (.blocked, inc') => (true, inc')
  | (.failed, inc') => (false, inc')
termination_by weight inc
decreasing_by
  have := weight_recv _h
  omega

/-! ### The data stream -/

/-- `Phase`. -/
inductive Phase where
  /-- Awaiting the request. -/
  | request
  /-- The target is being dialled. -/
  | dialling
  /-- The OK response is not yet fully accepted. -/
  | responding
  /-- The error response was sent with FIN. -/
  | retiring
  /-- The stream of the UDP session `sid`. -/
  | udp (sid : UInt32)
  deriving DecidableEq

/-- `Data`. -/
structure Data where
  /-- The phase. -/
  phase : Phase
  /-- The request so far, then the early payload. -/
  rx : List UInt8
  /-- The peer's FIN was read. -/
  fin : Bool
  /-- The unsent rest of the response. -/
  tx : List UInt8
  deriving DecidableEq

/-- What the server does for a data stream. -/
inductive Act where
  /-- `cx.dial`. -/
  | dial (target : Target)
  /-- A call of `udp_open`. -/
  | udpOpen (sid : UInt32) (target : Option Target) (idle : UInt64)
  /-- `cx.resolve` of an admitted session. -/
  | resolve (target : Target)
  /-- `cx.stream_send`. -/
  | send (bytes : List UInt8) (fin : Bool)
  /-- `cx.stream_reset`. -/
  | reset
  /-- The request's timer is cancelled. -/
  | cancelTimer
  /-- `cx.cancel_dial`. -/
  | cancelDial
  /-- `cx.tcp_abort`. -/
  | tcpAbort
  /-- `end_session`. -/
  | endSession (sid : UInt32)
  deriving DecidableEq

/-- A data stream of the server: its entry while it is held, and what was done for it. -/
structure Stream where
  /-- The entry of `Server::data`. -/
  data : Option Data
  /-- The actions, oldest first. -/
  acts : List Act
  deriving DecidableEq

/-- What the intake finds around the stream: the gates of `udp_open` and the answer to a
`stream_send`. -/
structure Env where
  /-- `cfg.udp_enabled`. -/
  udpEnabled : Bool
  /-- The connection has a session of this id. -/
  sidTaken : UInt32 → Bool
  /-- The number of the connection's sessions. -/
  sessions : ℕ
  /-- `stream_send`. -/
  send : List UInt8 → Bool → Except StreamError ℕ

/-- A stream as it arrives. -/
def Stream.new : Stream := ⟨some ⟨.request, [], false, []⟩, []⟩

/-- What ending a stream does to what its phase holds. -/
def Phase.release : Phase → List Act
  | .request => [.cancelTimer]
  | .dialling => [.cancelDial]
  | .responding => [.tcpAbort]
  | .retiring => []
  | .udp sid => [.endSession sid]

/-- Leaving the request phase cancels its timer. -/
def Phase.leave : Phase → List Act
  | .request => [.cancelTimer]
  | _ => []

/-- `drop_data`. -/
def dropData (d : Data) (acts : List Act) (reset : Bool) : Stream :=
  ⟨none, acts ++ d.phase.release ++ if reset then [.reset] else []⟩

/-- `flush`: whether the stream still stands, the rest to send, and what was done. -/
def flush (env : Env) (tx : List UInt8) (fin : Bool) : Bool × List UInt8 × List Act :=
  if tx = [] then (true, tx, [])
  else
    match env.send tx fin with
    | .ok n => (true, tx.drop (min n tx.length), [.send tx fin])
    | .error .blocked => (true, tx, [.send tx fin])
    | .error _ => (false, tx, [.send tx fin])

/-- `respond_error`: the response with FIN; the stream retires. -/
def respondError (env : Env) (d : Data) (acts : List Act) (resp : List UInt8) : Stream :=
  let (ok, tx, sent) := flush env resp true
  let d' : Data := { phase := .retiring, rx := [], fin := d.fin, tx }
  if ok then ⟨some d', acts ++ d.phase.leave ++ sent⟩ else dropData d' (acts ++ d.phase.leave ++ sent) true

/-- `dial`. -/
def dial (d : Data) (acts : List Act) (target : Target) : Stream :=
  ⟨some { d with phase := .dialling }, acts ++ [.dial target] ++ d.phase.leave⟩

/-- A response frame as the server sends it. -/
def respBytes (encode : List UInt8 → Except EncodeError (ℕ × List UInt8)) : List UInt8 :=
  match encode (List.replicate MAX_FRAME 0) with
  | .ok (n, b) => b.take n
  -- `expect("fits")`
  | .error _ => []

/-- `tcp_resp`. -/
def tcpResp (status : UInt8) (e : TcpErr) : List UInt8 :=
  respBytes (ConnectTcpResp.encode { status, errorCode := e.toRaw, message := [] })

/-- `udp_resp` of an error. -/
def udpRespError (e : UdpErr) : List UInt8 :=
  respBytes (UdpSessionResp.encode { status := STATUS_ERROR, errorCode := e.toRaw, message := [], idleTimeoutMs := 0 })

/-- A frame that can be written is the response: `expect("fits")` holds. -/
theorem respBytes_eq {φ : Type} {writer : φ → Encoder ℕ} {reader : Decoder (φ × ℕ)} {bytes : φ → List UInt8}
    {Encodable : φ → Prop} (F : Format writer reader bytes Encodable MAX_FRAME) {f : φ} (hf : Encodable f) :
    respBytes (fun out => encodeWith (writer f) out) = bytes f := by
  have hout : (bytes f).length ≤ (List.replicate MAX_FRAME (0 : UInt8)).length := by
    rw [List.length_replicate]
    exact F.bounded hf
  simp only [respBytes, F.encodeWith_eq hf hout]
  exact take_splice_zero _ _

theorem tcpErr_le_max (e : TcpErr) : e.toRaw ≤ Varint.MAX := by cases e <;> decide

theorem tcpResp_eq (status : UInt8) (e : TcpErr) :
    tcpResp status e = ConnectTcpResp.bytes { status, errorCode := e.toRaw, message := [] } :=
  respBytes_eq ConnectTcpResp.format ⟨tcpErr_le_max e, Nat.zero_le _⟩

theorem udpRespError_eq (e : UdpErr) : udpRespError e =
    UdpSessionResp.bytes { status := STATUS_ERROR, errorCode := e.toRaw, message := [], idleTimeoutMs := 0 } :=
  respBytes_eq UdpSessionResp.format ⟨by cases e <;> decide, by cases e <;> decide, Nat.zero_le _, by cases e <;> decide⟩

/-- What the gates of `udp_open` say. -/
inductive Gate where
  /-- Answered with an error. -/
  | refused (e : UdpErr)
  /-- The session id is taken. -/
  | duplicate
  /-- Admitted, to this target. -/
  | admitted (target : Target)
  deriving DecidableEq

/-- The gates of `udp_open`, in their order. -/
def udpGate (env : Env) (sid : UInt32) (target : Option Target) : Gate :=
  if !env.udpEnabled then .refused .policyDenied
  else if env.sidTaken sid then .duplicate
  else if MAX_SESSIONS_PER_CONN ≤ env.sessions then .refused .sessionLimit
  else
    match target with
    | none => .refused .dnsFailed
    | some t => .admitted t

/-- `udp_open`. -/
def udpOpen (env : Env) (d : Data) (acts : List Act) (sid : UInt32) (target : Option Target) (idle : UInt64) :
    Stream :=
  let acts := acts ++ [.udpOpen sid target idle]
  match udpGate env sid target with
  | .refused e => respondError env d acts (udpRespError e)
  | .duplicate => dropData d acts true
  | .admitted t => ⟨some { d with phase := .udp sid }, acts ++ [.resolve t] ++ d.phase.leave⟩

/-! ### The loop -/

/-- How a turn of the loop ends. -/
inductive Turn where
  /-- `data_readable` returns. -/
  | done (st : Stream)
  /-- The loop goes on. -/
  | again (st : Stream)
  deriving DecidableEq

/-- What a turn of the loop makes room for, and the buffer it reads into. -/
def room (d : Data) : Option (ℕ × List UInt8) :=
  match d.phase with
  | .request => (checkedSub REQ_BUF d.rx.length).map fun cap => (cap, d.rx)
  | .udp _ => some (CHUNK, [])
  -- early payload; once full, or after FIN, only zero-capacity probes
  | _ => if d.fin then some (0, d.rx) else (checkedSub RELAY_BUF d.rx.length).map fun cap => (min CHUNK cap, d.rx)

/-- What a turn does with the `n` bytes it has read, and the FIN. -/
def handle (env : Env) (d : Data) (acts : List Act) (n : ℕ) (fin : Bool) : Turn :=
  let next : Turn := if n = 0 || fin then .done ⟨some d, acts⟩ else .again ⟨some d, acts⟩
  match d.phase with
  | .udp _ => if fin then .done (dropData d acts true) else next
  | .request =>
    match parseRequest d.rx d.fin with
    | .wait => next
    | .bad => .done (dropData d acts true)
    | .undialable used =>
      .again (respondError env { d with rx := d.rx.drop used } acts (tcpResp STATUS_ERROR .dnsFailed))
    | .dial used target => .again (dial { d with rx := d.rx.drop used } acts target)
    | .udpOpen sid target idle =>
      if d.fin then .done (dropData d acts true) else .again (udpOpen env d acts sid target idle)
  | _ => next

/-- A turn of `data_readable`'s loop. -/
def dataTurn (env : Env) (st : Stream) (inc : Incoming) : Option (Turn × Incoming) :=
  match st.data with
  | none => some (.done st, inc)
  | some d =>
    if d.phase = .retiring then
      match drain inc with
      | (true, inc') => some (.done st, inc')
      -- the stream was reset by `recv`
      | (false, inc') => some (.done (dropData d (st.acts ++ [.reset]) false), inc')
    else
      (room d).map fun (cap, rx) =>
        match recv cap inc with
        | (.blocked, inc') => (.done { st with data := some { d with rx } }, inc')
        | (.failed, inc') => (.done (dropData d (st.acts ++ [.reset]) false), inc')
        | (.data bytes fin, inc') =>
          (handle env { d with rx := rx ++ bytes, fin := d.fin || fin } st.acts bytes.length fin, inc')

/-- The stream a turn leaves. -/
def Turn.stream : Turn → Stream
  | .done st => st
  | .again st => st

/-- A stream can leave the request phase once. -/
def Stream.rank (st : Stream) : ℕ :=
  match st.data with
  | some ⟨.request, _, _, _⟩ => 1
  | _ => 0

theorem rank_respondError (env : Env) (d : Data) (acts : List Act) (resp : List UInt8) :
    (respondError env d acts resp).rank = 0 := by
  unfold respondError
  dsimp only
  split <;> rfl

theorem rank_udpOpen (env : Env) (d : Data) (acts : List Act) (sid : UInt32) (target : Option Target) (idle : UInt64) :
    (udpOpen env d acts sid target idle).rank = 0 := by
  unfold udpOpen
  dsimp only
  split
  · exact rank_respondError _ _ _ _
  · rfl
  · rfl

/-- The loop goes on after a read of some bytes, or once the request is decided. -/
theorem handle_again {env : Env} {d : Data} {acts : List Act} {n : ℕ} {fin : Bool} {st : Stream}
    (h : handle env d acts n fin = .again st) :
    (0 < n ∧ st.data = some d) ∨ (d.phase = .request ∧ st.rank = 0) := by
  have hnext : ∀ {st : Stream}, (if n = 0 || fin then Turn.done ⟨some d, acts⟩ else .again ⟨some d, acts⟩) = .again st →
      0 < n ∧ st.data = some d := by
    intro st h
    split at h
    · cases h
    · next hn =>
      cases h
      simp only [Bool.or_eq_true, decide_eq_true_eq, not_or] at hn
      exact ⟨Nat.pos_of_ne_zero hn.1, rfl⟩
  unfold handle at h
  cases hphase : d.phase with
  | udp _ =>
    simp only [hphase] at h
    split at h
    · cases h
    · exact .inl (hnext h)
  | request =>
    simp only [hphase] at h
    split at h
    · exact .inl (hnext h)
    · cases h
    · rw [Turn.again.injEq] at h
      exact .inr ⟨rfl, h ▸ rank_respondError _ _ _ _⟩
    · rw [Turn.again.injEq] at h
      exact .inr ⟨rfl, h ▸ rfl⟩
    · split at h
      · cases h
      · rw [Turn.again.injEq] at h
        exact .inr ⟨rfl, h ▸ rank_udpOpen _ _ _ _ _ _⟩
  | _ =>
    simp only [hphase] at h
    exact .inl (hnext h)

variable {env : Env} {st st' : Stream}

/-- Each turn but the last takes from what is to come, or decides the request. -/
theorem dataTurn_again
    (h : dataTurn env st inc = some (.again st', inc')) : weight inc' + st'.rank < weight inc + st.rank := by
  unfold dataTurn at h
  split at h
  · cases h
  · next d hd =>
    split at h
    · split at h <;> cases h
    · obtain ⟨⟨cap, rx⟩, -, hread⟩ := Option.map_eq_some_iff.mp h
      dsimp only at hread
      split at hread
      · cases hread
      · cases hread
      · next bytes fin inc'' hrecv =>
        simp only [Prod.mk.injEq] at hread
        obtain ⟨hh, rfl⟩ := hread
        have hw := weight_recv hrecv
        have hrank : st.rank = if d.phase = .request then 1 else 0 := by
          unfold Stream.rank
          rw [hd]
          obtain ⟨phase, _, _, _⟩ := d
          cases phase <;> rfl
        rcases handle_again hh with ⟨hn, hst⟩ | ⟨hphase, hst⟩
        · have : st'.rank = st.rank := by
            unfold Stream.rank
            rw [hst, hd]
            obtain ⟨phase, _, _, _⟩ := d
            cases phase <;> rfl
          omega
        · rw [hrank, if_pos (show d.phase = .request from hphase)]
          omega

/-- `data_readable`: turns until one returns. -/
def dataReadable (env : Env) (st : Stream) (inc : Incoming) : Option (Stream × Incoming) :=
  match _h : dataTurn env st inc with
  | none => none
  | some (.done st', inc') => some (st', inc')
  | some (.again st', inc') => dataReadable env st' inc'
termination_by weight inc + st.rank
decreasing_by exact dataTurn_again _h

/-- `n` calls of `data_readable` for a stream. -/
def serve (env : Env) : ℕ → Stream → Incoming → Option (Stream × Incoming)
  | 0, st, inc => some (st, inc)
  | n + 1, st, inc => (dataReadable env st inc).bind fun (st', inc') => serve env n st' inc'

end MqProxy.Server
