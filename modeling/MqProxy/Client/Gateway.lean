import MqProxy.Client.Upload
import MqProxy.Http.HeaderSafety

/-!
# The fetch front of the client

`Gateway` of `mq-proxy/src/client/gateway/mod.rs`: the requests of the fetch listener, by
their socket, over the table of the exchanges (`Fetch`). What the parser of the head, the
transport and the sockets answer are arguments; a function that loops takes a list of answers
and gives `none` if it takes more. What was written to a socket, and whether it fitted, is
logged together with the closes.
-/

namespace MqProxy.Client

open MqProxy.Http
open MqProxy.Runtime (StreamError)
open MqProxy.Ingress.HttpConnect (ascii)

/-! ### Replies -/

/-- `reject_xmq`. -/
def rejectXmq : Reject → String
  | .dupControl => "duplicate-control-header"
  | .missingAuth => "missing-auth"
  | .badAuthFormat => "bad-auth-format"
  | .badTarget => "bad-target"
  | .badMethod => "bad-method"
  | .badOriginProto => "bad-origin-protocol"
  | .badCacheTtl => "bad-cache-ttl"
  | .headerTooLong => "header-too-long"
  | .tunnelUnavailable => "tunnel-unavailable"
  | .internalError => "internal-error"
  | .upstreamReset => "upstream-reset"
  | .upstreamProtocol => "upstream-protocol"

/-- `reject_status`. -/
def rejectStatus : Reject → ℕ
  | .tunnelUnavailable | .internalError | .upstreamReset | .upstreamProtocol => 502
  | _ => 400

/-- A header whose name and value are fixed texts. -/
def fixedHeader (out : List UInt8) (name value : String) : List UInt8 :=
  (writeHeader out (ascii name) (ascii value)).getD out

/-- `error_reply`. -/
def errorReply (code : ℕ) (reason : String) (xmq : Option String) : List UInt8 :=
  let o := writeStatus [] code reason
  let o := fixedHeader o "Connection" "close"
  let o := fixedHeader o "Content-Length" "0"
  xmq.elim o (fixedHeader o "X-Mq-Error") ++ CRLF

/-- `synth_error`. -/
def synthError (code : ℕ) (xmq : String) : List UInt8 :=
  let o := writeStatus [] code ""
  let o := fixedHeader o "X-Mq-Error" xmq
  let o := fixedHeader o "Content-Length" "0"
  fixedHeader o "Connection" "close" ++ CRLF

/-- `chunk_frame`. -/
def chunkFrame (data : List UInt8) : List UInt8 :=
  (Nat.toDigits 16 data.length).map (fun c => UInt8.ofNat c.toNat) ++ CRLF ++ data ++ CRLF

/-- `chunk_end`. -/
def chunkEnd : List UInt8 := ascii "0" ++ CRLF ++ CRLF

/-! ### The state -/

/-- `Owner`. -/
inductive Owner where
  | fetch (tcp : ℕ)
  /-- `MStreamKey`. -/
  | mitm (conn stream : ℕ)
  deriving DecidableEq

/-- `GwReq`. -/
inductive GwReq where
  | head (timer : ℕ)
  /-- `Open`; `started` if the response head was written, `pending` is a frame that did not fit. -/
  | opened (h3 : ℕ) (method : Method) (started chunked : Bool) (pending : List UInt8)
  | finishing (pending : List UInt8) (chunked : Bool)
  deriving DecidableEq

/-- What the front does to its sockets. -/
inductive TcpCall where
  /-- `tcp_write`, and whether it fitted. -/
  | write (tcp : ℕ) (bs : List UInt8) (ok : Bool)
  /-- `tcp_write` of a reply, the answer to which is ignored. -/
  | reply (tcp : ℕ) (bs : List UInt8)
  | close (tcp : ℕ)
  | abort (tcp : ℕ)
  deriving DecidableEq

/-- `Gateway`, and the exchanges. -/
structure Fetch where
  ex : Exchanges Owner
  reqs : AList fun _ : ℕ => GwReq
  /-- `GwTm::Head`, by timer. -/
  timers : AList fun _ : ℕ => ℕ
  calls : List TcpCall

namespace Fetch

variable (f : Fetch)

/-- The log grows. -/
def call (cs : List TcpCall) : Fetch := { f with calls := f.calls ++ cs }

/-- `reply_close`. -/
def replyClose (tcp : ℕ) (reply : List UInt8) : Fetch := f.call [.reply tcp reply, .close tcp]

/-- `listener_reply`. -/
def listenerReply (tcp code : ℕ) (phrase : String) : Fetch :=
  f.replyClose tcp (errorReply code phrase none)

/-- `cancel`. -/
def cancel (timer : ℕ) : Fetch := { f with timers := f.timers.erase timer }

/-- `on_accepted`; `timer` is what `set_timer` gives. -/
def onAccepted (tcp timer : ℕ) : Fetch :=
  { f with timers := f.timers.insert timer tcp, reqs := f.reqs.insert tcp (.head timer) }

/-- `remove`. -/
def remove (tcp : ℕ) : Fetch :=
  let g := { f with reqs := f.reqs.erase tcp }
  match f.reqs.lookup tcp with
  | some (.head timer) => g.cancel timer
  | some (.opened h3 _ _ _ _) => { g with ex := (g.ex.fail h3).1 }
  | _ => g

/-- `synth_reply`. -/
def synthReply (tcp : ℕ) (r : Reject) : Fetch :=
  (f.replyClose tcp (synthError (rejectStatus r) (rejectXmq r))).remove tcp

/-- `abort`. -/
def abort (f : Fetch) (tcp : ℕ) : Fetch := (f.call [.abort tcp]).remove tcp

/-! ### The download -/

/-- The first write of `flush`; the answers that are left, or `none` if there is none. -/
def writePending (tcp : ℕ) (pending : List UInt8) (oks : List Bool) : Option (Fetch × Bool × List Bool) :=
  if pending = [] then some (f, true, oks)
  else
    match oks with
    | [] => none
    | ok :: oks => some (f.call [.write tcp pending ok], ok, oks)

/-- `flush`: the frame, the chunk terminator, the close; each after the one before fitted. -/
def flush (tcp : ℕ) (oks : List Bool) : Option Fetch :=
  match f.reqs.lookup tcp with
  | some (.finishing pending chunked) =>
    (f.writePending tcp pending oks).bind fun (f, ok, oks) =>
      if !ok then some f
      else
        let closed := fun (f : Fetch) => { f with reqs := f.reqs.erase tcp }.call [.close tcp]
        if !chunked then some (closed f)
        else
          (f.writePending tcp chunkEnd oks).map fun (f, ok, _) =>
            if ok then closed f else { f with reqs := f.reqs.insert tcp (.finishing chunkEnd false) }
  | _ => some f

/-- The answers for one read of the body: what the transport gives, whether the frame fits, and
the answers for `flush`. -/
structure ReadTurn where
  recv : ℕ → Except StreamError (List UInt8 × Bool)
  ok : Bool
  oks : List Bool

/-- The bytes of a read, as they are written. -/
def framed (chunked : Bool) (bs : List UInt8) : List UInt8 := if chunked then chunkFrame bs else bs

/-- A frame is written, or kept. An empty read is never framed. -/
def frame (tcp : ℕ) (chunked : Bool) (bs : List UInt8) (ok : Bool) : Fetch × List UInt8 :=
  if bs = [] then (f, [])
  else (f.call [.write tcp (framed chunked bs) ok], if ok then [] else framed chunked bs)

/-- The entry of an open request whose response has started. -/
def keep (tcp h3 : ℕ) (method : Method) (chunked : Bool) (pending : List UInt8) : Fetch :=
  { f with reqs := f.reqs.insert tcp (.opened h3 method true chunked pending) }

/-- One read of the body; the pump goes on if there is a new `pending`. -/
def pumpTurn (tcp h3 : ℕ) (chunked : Bool) (a : ReadTurn) : Option (Fetch × Option (List UInt8)) :=
  let buffer := a.recv DL_CHUNK
  let r := f.ex.readBody h3 (buffer.map fun p => (p.1.length, p.2))
  let bytes := fun n => (buffer.toOption.elim [] Prod.fst).take n
  let f := { f with ex := r.1 }
  match r.2.2 with
  | .wait => some (f, none)
  | .fail => some (f.abort tcp, none)
  | .data n =>
    let (f, pending) := f.frame tcp chunked (bytes n) a.ok
    some (f, some pending)
  | .last n =>
    let (f, pending) := f.frame tcp chunked (bytes n) a.ok
    ({ f with reqs := f.reqs.insert tcp (.finishing pending chunked) }.flush tcp a.oks).map fun f => (f, none)

/-- The body pump of `download`. -/
def pump (f : Fetch) (tcp h3 : ℕ) (method : Method) (chunked : Bool) (pending : List UInt8) :
    List ReadTurn → Option Fetch
  | [] => if pending ≠ [] then some (f.keep tcp h3 method chunked pending) else none
  | a :: turns =>
    let f := f.keep tcp h3 method chunked pending
    if pending ≠ [] then some f
    else
      match f.pumpTurn tcp h3 chunked a with
      | none => none
      | some (f, none) => some f
      | some (f, some pending) => f.pump tcp h3 method chunked pending turns

/-- The answers in a download: the head, whether it fits, and the reads. -/
structure DlTurn where
  fields : List Field
  recvHead : Except StreamError Bool
  ok : Bool
  reads : List ReadTurn

/-- `download`. -/
def download (tcp : ℕ) (a : DlTurn) : Option Fetch :=
  match f.reqs.lookup tcp with
  | some (.opened h3 method started chunked pending) =>
    if started then f.pump tcp h3 method chunked pending a.reads
    else
      let r := f.ex.readHead h3 a.fields a.recvHead
      let f := { f with ex := r.1 }
      match r.2.2 with
      | .wait => some f
      | .fail reject => some (f.synthReply tcp reject)
      | .head head =>
        match renderHead head (method = ascii "HEAD") with
        | none => some (f.synthReply tcp .upstreamProtocol)
        | some bytes =>
          (f.call [.write tcp bytes a.ok]).pump tcp h3 method (!head.hasCl) (if a.ok then pending else bytes) a.reads
  | _ => some f

/-! ### The request -/

/-- `upload`: `rx` is what the socket holds. On `Done` the rest is discarded and the response pulled. -/
def upload (f : Fetch) (tcp : ℕ) (rx : List UInt8) (turns : List Turn) (a : DlTurn) : Option Fetch :=
  match f.reqs.lookup tcp with
  | some (.opened h3 _ _ _ _) =>
    (f.ex.upload h3 rx turns).bind fun (ex, _, _, out) =>
      let f := { f with ex }
      match out with
      | .empty | .blocked => some f
      | .done => f.download tcp a
  | _ => some f

/-- What the head is: incomplete, refused by the listener, or a fetch with its checks. -/
inductive Parsed where
  | need
  | refused (code : ℕ) (phrase : String)
  | fetch (req : Except Reject ReqHead)

/-- The transport opens a request under an id that the table does not hold. -/
def fresh (ex : Exchanges Owner) (opened : Option ℕ) : Bool := opened.all fun id => (ex.lookup id).isNone

theorem owner_of_fresh {ex : Exchanges Owner} {opened : Option ℕ} {id : ℕ} (h : fresh ex opened = true)
    (hopened : opened = some id) : ex.owner id = none := by
  subst hopened
  simp only [fresh, Option.all_some, Option.isNone_iff_eq_none] at h
  rw [Exchanges.owner, h, Option.map_none]

/-- `head_data`; `opened` and `sent` are the transport's answers to `open`, `rx` is what is left
behind the head. -/
def headData (tcp : ℕ) (parsed : Parsed) (tunnel opened : Option ℕ) (sent : Bool) (rx : List UInt8)
    (turns : List Turn) (a : DlTurn) : Option Fetch :=
  match parsed with
  | .need => some f
  | .refused code phrase => some ((f.remove tcp).listenerReply tcp code phrase)
  | .fetch req =>
    let f := f.remove tcp
    let refuse := fun (f : Fetch) (r : Reject) =>
      let code := rejectStatus r
      f.replyClose tcp (errorReply code (if code = 400 then "Bad Request" else "Bad Gateway") (some (rejectXmq r)))
    match req with
    | .error r => some (refuse f r)
    | .ok req =>
      match tunnel with
      | none => some (refuse f .tunnelUnavailable)
      | some conn =>
        if !fresh f.ex opened then none
        else
          let r := f.ex.openReq conn req (.fetch tcp) opened sent
          let f := { f with ex := r.1 }
          match r.2.2 with
          | .error r => some (refuse f r)
          | .ok h3 =>
            { f with reqs := f.reqs.insert tcp (.opened h3 req.method false false []) }.upload tcp rx turns a

/-- `on_tcp_data`. -/
def onTcpData (tcp : ℕ) (parsed : Parsed) (tunnel opened : Option ℕ) (sent : Bool) (rx : List UInt8)
    (turns : List Turn) (a : DlTurn) : Option Fetch :=
  match f.reqs.lookup tcp with
  | some (.head _) => f.headData tcp parsed tunnel opened sent rx turns a
  | some (.opened ..) => f.upload tcp rx turns a
  | _ => some f

/-- `on_ready`. -/
def onReady (tcp : ℕ) (r : Ready) (rx : List UInt8) (turns : List Turn) (a : DlTurn) : Option Fetch :=
  match r with
  | .readable => f.download tcp a
  | .writable => f.upload tcp rx turns a

/-- `on_tcp_end`; `error` if the socket failed, `buffered` is what it still holds. -/
def onTcpEnd (tcp : ℕ) (error : Bool) (buffered : UInt64) : Fetch :=
  match f.reqs.lookup tcp with
  | none => f
  | some (.head _) => if error then f.remove tcp else (f.remove tcp).call [.close tcp]
  | some (.opened h3 _ _ _ _) =>
    if error then f.remove tcp
    else
      let r := f.ex.uploadEof h3 buffered
      let f := { f with ex := r.1 }
      if r.2.2 = .truncated then f.abort tcp else f
  | some (.finishing _ _) => if error then f.remove tcp else f

/-- `on_tcp_writable`. -/
def onTcpWritable (tcp : ℕ) (ok : Bool) (oks : List Bool) (a : DlTurn) : Option Fetch :=
  match f.reqs.lookup tcp with
  | some (.opened h3 method started chunked pending) =>
    let f := f.call [.write tcp pending ok]
    if ok then { f with reqs := f.reqs.insert tcp (.opened h3 method started chunked []) }.download tcp a else some f
  | some (.finishing _ _) => f.flush tcp oks
  | _ => some f

/-- `on_timer`; `none` if the timer is not the gateway's. -/
def onTimer (timer : ℕ) : Option Fetch :=
  (f.timers.lookup timer).map fun tcp =>
    let g := { f with timers := f.timers.erase timer, reqs := f.reqs.erase tcp }
    if (f.reqs.lookup tcp).isSome then g.listenerReply tcp 400 "Bad Request" else g

/-- `on_shutdown`. -/
def onShutdown : Fetch := f.reqs.keys.foldl abort f

end Fetch

end MqProxy.Client
