import MqProxy.Client.Request
import MqProxy.Library.Table
import MqProxy.Server.Intake
import MqProxy.Udp.Socks5Udp

/-!
# The state of the client

What `Client` of `mq-proxy/src/client/mod.rs` keeps for the raw tunnel: the connection with
its control stream, the sockets that are still to say what they want, the requests that wait
for a tunnel or for an answer, and the UDP associations with their sessions. The types are
those of `mod.rs`, `ingress_glue.rs`, `pending.rs`, `udp_assoc.rs` and `udp_session.rs`, with the
functions of these files that are about one of them alone.

What a stream gives is a script of reads, as for the server. A loop over the reads of one
stream is a function from the script to what the loop comes to.
-/

namespace MqProxy.Tunnel

open MqProxy.Runtime MqProxy.Wire MqProxy.Ingress MqProxy.Udp
open MqProxy.Server (Incoming Recv recv weight weight_recv CHUNK)
open MqProxy.Ingress.HttpConnect (ascii)

/-! ### Replies -/

/-- `IngressKind`. -/
inductive IngressKind where
  | socks5
  | httpConnect
  /-- No reply: the socket is just closed. -/
  | transparent
  deriving DecidableEq

/-- `http_success_reply`. -/
def httpSuccessReply : List UInt8 := ascii "HTTP/1.1 200 Connection Established\r\n\r\n"

/-- `socks5_error_reply`. -/
def socks5ErrorReply (e : TcpErr) : List UInt8 :=
  Socks5.reply
    (match e with
    | .dnsFailed => 0x04
    | .connRefused => 0x05
    | .timeout => 0x06
    | .policyDenied => 0x02
    | .ok => 0x01)

/-- `http_error_reply`. -/
def httpErrorReply : TcpErr → List UInt8
  | .timeout => ascii "HTTP/1.1 504 Gateway Timeout\r\n\r\n"
  | .policyDenied => ascii "HTTP/1.1 403 Forbidden\r\n\r\n"
  | _ => ascii "HTTP/1.1 502 Bad Gateway\r\n\r\n"

/-- `IngressKind::success_reply`. -/
def IngressKind.successReply : IngressKind → Option (List UInt8)
  | .socks5 => some (Socks5.reply 0x00)
  | .httpConnect => some httpSuccessReply
  | .transparent => none

/-- `IngressKind::error_reply`. -/
def IngressKind.errorReply (kind : IngressKind) (e : TcpErr) : Option (List UInt8) :=
  match kind with
  | .socks5 => some (socks5ErrorReply e)
  | .httpConnect => some (httpErrorReply e)
  | .transparent => none

/-- `socks5_assoc_reply`. -/
def socks5AssocReply : SocketAddr → List UInt8
  | .v4 ip port => [Socks5.VER, 0x00, 0x00, 0x01] ++ ip.val ++ u16ToBeBytes port
  | .v6 ip port _ _ => [Socks5.VER, 0x00, 0x00, 0x04] ++ ip.val ++ u16ToBeBytes port

/-- `TcpErr::from_raw`. -/
def tcpErrOf (v : UInt64) : Option TcpErr :=
  [TcpErr.ok, .dnsFailed, .connRefused, .timeout, .policyDenied].find? (·.toRaw = v)

/-! ### Requests that wait -/

/-- `PendingOpen`. -/
structure PendingOpen where
  tcp : ℕ
  target : Target
  kind : IngressKind
  enqueuedAt : ℕ
  deriving DecidableEq

/-- `MAX_PENDING`. -/
def MAX_PENDING : ℕ := 256

/-- `Pending::push`; `none` for `Full`. -/
def pushPending (q : List PendingOpen) (o : PendingOpen) : Option (List PendingOpen) :=
  if MAX_PENDING ≤ q.length then none else some (q ++ [o])

/-- `Pending::remove`. -/
def removePending (q : List PendingOpen) (tcp : ℕ) : List PendingOpen := q.eraseP (·.tcp = tcp)

/-- `Pending::expire`: those that are over, and those that stay. -/
def expirePending (q : List PendingOpen) (now deadline : ℕ) : List PendingOpen × List PendingOpen :=
  q.partition fun o => deadline ≤ now - o.enqueuedAt

/-! ### The ingress -/

/-- `Parser`. -/
inductive Parser where
  | socks5 (p : Socks5.Socks5Parser)
  | http
  deriving DecidableEq

/-- `Ingress`. -/
structure Ingress where
  kind : IngressKind
  parser : Parser
  timer : ℕ
  /-- The IP of the peer, which an association learns from. -/
  peerIp : IpAddr

/-- `feed` of the parser, and `own`: an ASSOCIATE is refused while UDP is not served. -/
def Parser.feed (p : Parser) (rx : List UInt8) (udp : Bool) : Progress × Parser :=
  let (step, p) :=
    match p with
    | .socks5 p => let r := p.feed rx; (r.1, Parser.socks5 r.2)
    | .http => (HttpConnect.feed rx, .http)
  match step with
  | .associate consumed => (if udp then .associate consumed else .reply consumed (Socks5.reply 0x07) true, p)
  | step => (step, p)

/-- `Fed`. -/
inductive Fed where
  | wait
  | done (target : Target)
  | associate
  | closed
  deriving DecidableEq

/-- What is done to the socket of a request. -/
inductive Note where
  /-- `on_accepted`. -/
  | accepted (tcp : ℕ)
  /-- The request is complete. -/
  | completed (tcp : ℕ)
  /-- `tcp_consume`. -/
  | consume (tcp n : ℕ)
  /-- `tcp_write`. -/
  | write (tcp : ℕ) (bytes : List UInt8)
  /-- `tcp_close`. -/
  | close (tcp : ℕ)
  /-- `tcp_abort`. -/
  | abort (tcp : ℕ)
  /-- `start_relay`, and whether it was done. -/
  | relay (tcp stream : ℕ) (bytes : List UInt8) (fin ok : Bool)
  /-- `on_tcp_end` with an error: the shard has closed the socket. -/
  | failed (tcp : ℕ)
  /-- `request_exit`. -/
  | exit
  deriving DecidableEq

/-- `Ingress::feed`, of so many turns at most: what it comes to, the parser, and what was done.
`written` is what `tcp_write` answers. -/
def feed (tcp : ℕ) (udp written : Bool) : ℕ → Parser → List UInt8 → Option (Fed × Parser × List Note)
  | 0, _, _ => none
  | turns + 1, p, rx =>
    match p.feed rx udp with
    | (.need, p) => some (.wait, p, [])
    | (.done consumed target, p) => some (.done target, p, [.consume tcp consumed])
    | (.associate consumed, p) => some (.associate, p, [.consume tcp consumed])
    | (.reply consumed bytes close, p) =>
      let notes : List Note := [.consume tcp consumed, .write tcp bytes]
      if !written || close then some (.closed, p, notes ++ [.close tcp])
      else (feed tcp udp written turns p (rx.drop consumed)).map fun r => (r.1, r.2.1, notes ++ r.2.2)
    | (.close, p) => some (.closed, p, [.close tcp])

/-! ### Streams -/

/-- `flush`: whether the stream still stands, and the rest to send. -/
def flush (send : Except StreamError ℕ) (tx : List UInt8) : Bool × List UInt8 :=
  if tx = [] then (true, tx)
  else
    match send with
    | .ok n => (true, tx.drop (min n tx.length))
    | .error .blocked => (true, tx)
    | .error _ => (false, tx)

/-- `Ctrl`. -/
structure Ctrl where
  s : ℕ
  tx : List UInt8
  rx : List UInt8
  deriving DecidableEq

/-- `Conn`. -/
structure Conn where
  id : ℕ
  ctrl : Option Ctrl
  authed : Bool
  authTimer : Option ℕ
  closing : Bool
  deriving DecidableEq

/-- `Open`. -/
structure Open where
  tcp : ℕ
  kind : IngressKind
  tx : List UInt8
  rx : List UInt8
  deriving DecidableEq

/-- What the loop of `ctrl_readable` comes to. -/
inductive AuthOut where
  | wait (rx : List UInt8)
  | failed (rx : List UInt8)
  /-- The features of the server, or none if it refuses or its frame is malformed. -/
  | judged (rx : List UInt8) (features : Option UInt64)
  deriving DecidableEq

/-- The frame of `ctrl_readable`, if there is one to be judged. -/
def judgeAuth (rx : List UInt8) (fin : Bool) : Option (Option UInt64) :=
  match AuthResp.decode rx with
  | .ok (r, used) => if MAX_FRAME < used then some none else some (if r.status = STATUS_OK then some r.features else none)
  | .error .short => if !fin && rx.length < MAX_FRAME then none else some none
  | .error _ => some none

/-- The loop of `ctrl_readable`, before auth. -/
def readAuthResp (rx : List UInt8) (inc : Incoming) : AuthOut × Incoming :=
  match _h : recv CHUNK inc with
  | (.blocked, inc') => (.wait rx, inc')
  | (.failed, inc') => (.failed rx, inc')
  | (.data bytes fin, inc') =>
    match judgeAuth (rx ++ bytes) fin with
    | some features => (.judged (rx ++ bytes) features, inc')
    | none => if bytes.length = 0 then (.wait (rx ++ bytes), inc') else readAuthResp (rx ++ bytes) inc'
termination_by weight inc
decreasing_by
  have := weight_recv _h
  omega

/-- What the loop of `open_readable` comes to. -/
inductive OpenOut where
  | wait (rx : List UInt8)
  | failed
  /-- There is a frame, or there will be none. -/
  | decided (rx : List UInt8) (fin : Bool)
  deriving DecidableEq

/-- The loop of `open_readable`. -/
def readConnectResp (rx : List UInt8) (inc : Incoming) : OpenOut × Incoming :=
  match _h : recv CHUNK inc with
  | (.blocked, inc') => (.wait rx, inc')
  | (.failed, inc') => (.failed, inc')
  | (.data bytes fin, inc') =>
    if ConnectTcpResp.decode (rx ++ bytes) = .error .short ∧ fin = false ∧ (rx ++ bytes).length < MAX_FRAME then
      if bytes.length = 0 then (.wait (rx ++ bytes), inc') else readConnectResp (rx ++ bytes) inc'
    else (.decided (rx ++ bytes) fin, inc')
termination_by weight inc
decreasing_by
  have := weight_recv _h
  omega

/-! ### UDP -/

/-- `UdpAvail`. -/
inductive UdpAvail where
  | unknown
  | available
  | unavailable
  deriving DecidableEq

/-- `MAX_DST_PER_ASSOC`. -/
def MAX_DST_PER_ASSOC : ℕ := 64

/-- `NEG_CACHE`, in microseconds. -/
def NEG_CACHE : ℕ := 2000000

/-- `SESSION_RESP_WAIT`, in microseconds. -/
def SESSION_RESP_WAIT : ℕ := 10000000

/-- `PREAUTH_SENDQ_DGRAMS`. -/
def PREAUTH_SENDQ_DGRAMS : ℕ := 8

/-- `PREAUTH_SENDQ_BYTES`. -/
def PREAUTH_SENDQ_BYTES : ℕ := 8 * 1024

/-- `DstEntry`. -/
structure DstEntry where
  session : Option UInt32
  failedAt : Option ℕ
  deriving DecidableEq

/-- `Assoc`. -/
structure Assoc where
  sock : Option ℕ
  openOp : Option ℕ
  peerIp : IpAddr
  learned : Option SocketAddr
  dsts : AList fun _ : Target => DstEntry

/-- `SocketAddr::ip`. -/
def ipOf : SocketAddr → IpAddr
  | .v4 ip _ => .v4 ip
  | .v6 ip _ _ _ => .v6 ip

/-- `Assoc::accept_source`. -/
def Assoc.acceptSource (a : Assoc) (peer : SocketAddr) : Bool × Assoc :=
  match a.learned with
  | some l => (l = peer, a)
  | none => if ipOf peer = a.peerIp then (true, { a with learned := some peer }) else (false, a)

/-- An entry that `insert_dst` may take: it has no session, and no failure of late. -/
def DstEntry.free (e : DstEntry) (now : ℕ) : Bool := e.session.isNone && e.failedAt.all fun f => NEG_CACHE ≤ now - f

/-- `Assoc::insert_dst`. -/
def Assoc.insertDst (a : Assoc) (target : Target) (now : ℕ) : Option Assoc :=
  if MAX_DST_PER_ASSOC ≤ a.dsts.keys.length then
    (a.dsts.entries.find? fun e => e.2.free now).map fun e =>
      { a with dsts := (a.dsts.erase e.1).insert target ⟨none, none⟩ }
  else some { a with dsts := a.dsts.insert target ⟨none, none⟩ }

/-- `Phase` of a session. -/
inductive UdpPhase where
  | pendingAuth (queue : List (List UInt8))
  | awaitResp (deadline : ℕ) (rx : List UInt8)
  | open
  deriving DecidableEq

/-- `Session`. -/
structure Session where
  assoc : ℕ
  target : Target
  stream : Option ℕ
  tx : List UInt8
  phase : UdpPhase
  deriving DecidableEq

/-- `Sessions`. -/
structure Sessions where
  nextSid : UInt32
  bySid : AList fun _ : UInt32 => Session
  byStream : AList fun _ : ℕ => UInt32

/-- `alloc_sid`, of so many turns at most: the sid, and the counter after it. -/
def allocSid (live : UInt32 → Bool) : ℕ → UInt32 → Option (UInt32 × UInt32)
  | 0, _ => none
  | turns + 1, next => if live next then allocSid live turns (next + 1) else some (next, next + 1)

/-- The loop of `enqueue`: the oldest go; `none` for the `expect`. -/
def evict (n : ℕ) : List (List UInt8) → Option (List (List UInt8))
  | [] => if 0 + n > PREAUTH_SENDQ_BYTES then none else some []
  | p :: q =>
    if PREAUTH_SENDQ_DGRAMS ≤ (p :: q).length ∨ ((p :: q).map List.length).sum + n > PREAUTH_SENDQ_BYTES then evict n q
    else some (p :: q)

/-- `enqueue`. -/
def enqueue (q : List (List UInt8)) (p : List UInt8) : Option (List (List UInt8)) :=
  if PREAUTH_SENDQ_BYTES < p.length then some q else (evict p.length q).map (· ++ [p])

/-- What the loop of `session_readable` comes to; `refused` if the server answered with an error. -/
inductive RespOut where
  | wait (rx : List UInt8)
  | opened
  | ended (refused : Bool)
  deriving DecidableEq

/-- What is made of a RESP. -/
inductive RespVerdict where
  | more
  | opened
  | ended (refused : Bool)
  deriving DecidableEq

/-- The frame of `session_readable`. -/
def judgeResp (rx : List UInt8) (fin : Bool) : RespVerdict :=
  match UdpSessionResp.decode rx with
  | .error .short => if !fin && rx.length < MAX_FRAME then .more else .ended false
  | .error _ => .ended false
  | .ok (r, used) =>
    if r.status = STATUS_OK ∧ used ≤ MAX_FRAME ∧ fin = false then .opened
    else if r.status ≠ STATUS_OK ∧ used ≤ MAX_FRAME then .ended (1 ≤ r.errorCode ∧ r.errorCode ≤ 4)
    else .ended false

/-- More is awaited only if there may be more. -/
theorem fin_of_judgeResp {rx : List UInt8} {fin : Bool} (h : judgeResp rx fin = .more) : fin = false := by
  unfold judgeResp at h
  split at h
  · split at h
    · next hmore => simp_all
    · cases h
  · cases h
  · split at h
    · cases h
    · split at h <;> cases h

/-- The loop of `session_readable` while the RESP is awaited. -/
def readResp (rx : List UInt8) (inc : Incoming) : RespOut × Incoming :=
  match _h : recv CHUNK inc with
  | (.blocked, inc') => (.wait rx, inc')
  | (.failed, inc') => (.ended false, inc')
  | (.data bytes fin, inc') =>
    if _hempty : bytes.length = 0 ∧ fin = false then (.wait (rx ++ bytes), inc')
    else
      match _hj : judgeResp (rx ++ bytes) fin with
      | .opened => (.opened, inc')
      | .ended refused => (.ended refused, inc')
      | .more => readResp (rx ++ bytes) inc'
termination_by weight inc
decreasing_by
  have := weight_recv _h
  have := fin_of_judgeResp _hj
  rw [not_and] at _hempty
  have : bytes.length ≠ 0 := fun hzero => _hempty hzero this
  omega

/-- The loop of `session_readable` once the session is open: whether it stays. -/
def readOpen (inc : Incoming) : Bool :=
  match _h : recv CHUNK inc with
  | (.blocked, _) => true
  | (.failed, _) => false
  | (.data bytes fin, inc') => if fin then false else if bytes.length = 0 then true else readOpen inc'
termination_by weight inc
decreasing_by
  have := weight_recv _h
  omega

end MqProxy.Tunnel
