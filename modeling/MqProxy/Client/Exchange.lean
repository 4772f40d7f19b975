import Mathlib.Data.List.AList
import MqProxy.Client.MitmHead
import MqProxy.Library.Runs
import MqProxy.Runtime.Relay

/-!
# The exchange core of the client

`Exchanges` of `mq-proxy/src/client/exchange/mod.rs`, the table of the client's H3 requests,
with the response head of `exchange/resp.rs`. An operation asks the transport for little,
and for each thing at most once, so what the transport answers is an argument of the
operation; what was asked is its list of calls (`XCall`). Ids of requests and connections
are numbers.

The lengths `remaining` and `delivered` are machine integers that wrap; they do not if the
transport takes no more bytes than it was given.
-/

namespace MqProxy.Client

open MqProxy.Http
open MqProxy.Runtime (StreamError)
open MqProxy.Ingress.HttpConnect (ascii)

/-! ### The response head -/

/-- `RespHead`. -/
structure RespHead where
  status : ℕ
  headers : List Field
  cl : Option ℕ
  hasCl : Bool
  deriving DecidableEq

/-- `HeadCollector`. -/
structure HeadCollector where
  status : Option ℕ
  headers : List Field
  budget : SectionBudget
  clCount : ℕ
  cl : Option ℕ
  bad : Bool

/-- `HeadCollector::default`. -/
def HeadCollector.default : HeadCollector := ⟨none, [], .default, 0, none, false⟩

/-- The status of three digits; 502 when it is none. -/
def statusOf (a b c : UInt8) : ℕ :=
  let code := [a, b, c].foldl (fun n d => n * 10 + (d.toNat - 0x30)) 0
  if 100 ≤ code ∧ code ≤ 599 then code else 502

/-- A byte that no relayed field may have. -/
def hasCtl (s : List UInt8) : Bool := s.any fun c => c == 0x0D || c == 0x0A || c == 0

/-- `HeadCollector::push`. -/
def HeadCollector.push (col : HeadCollector) (name value : List UInt8) : HeadCollector :=
  if col.bad then col
  else if name = ascii ":status" then
    match value with
    | [a, b, c] =>
      if value.all isAsciiDigit then
        match col.budget.add name value with
        | some budget => { col with budget, status := some (statusOf a b c) }
        | none => { col with bad := true, status := some (statusOf a b c) }
      else { col with bad := true }
    | _ => { col with bad := true }
  -- other pseudo-headers and hop-by-hop ones are dropped
  else if name.head? = some 0x3A || isHopByHop name then col
  else
    match col.budget.add name value with
    | none => { col with bad := true }
    | some budget =>
      if hasCtl name || hasCtl value then { col with budget, bad := true }
      else
        let col := { col with budget, headers := col.headers ++ [(name, value)] }
        if eqIgnoreAsciiCase name (ascii "content-length") then
          { col with clCount := col.clCount + 1, cl := parseContentLength value }
        else col

/-- `HeadCollector::finish`. -/
def HeadCollector.finish (col : HeadCollector) : Option RespHead :=
  match col.status with
  | some status =>
    if col.bad then none
    else some ⟨status, col.headers, col.cl.filter fun _ => col.clCount = 1, 0 < col.clCount⟩
  | none => none

/-- The head of a section. -/
def collect (fs : List Field) : Option RespHead :=
  (fs.foldl (fun (col : HeadCollector) (f : Field) => col.push f.1 f.2) .default).finish

/-- `body_check_applies`. -/
def bodyCheckApplies (method : Method) (status : ℕ) : Bool :=
  method ≠ ascii "HEAD" && !(100 ≤ status && status < 200) && status ≠ 204 && status ≠ 304

/-! ### The table -/

/-- `Up`: the upload side. -/
inductive Up where
  | known (remaining : UInt64)
  | streaming
  | done
  deriving DecidableEq

/-- `Down`: the response side. -/
inductive Down where
  | awaitHead
  /-- `H3Closed` arrived before the response head. -/
  | closedBeforeHead
  /-- `fin`: the transport fin was observed. -/
  | body (status : ℕ) (cl : Option ℕ) (delivered : UInt64) (fin : Bool)
  /-- The next `read_head` or `read_body` returns `Fail`. -/
  | failed
  deriving DecidableEq

/-- `Exch`. -/
structure Exch (O : Type) where
  owner : O
  method : Method
  /-- Neither `H3Closed` seen nor reset by the core. -/
  live : Bool
  up : Up
  down : Down

/-- `Exchanges`. -/
abbrev Exchanges (O : Type) := AList fun _ : ℕ => Exch O

/-- What the core asks of the transport. -/
inductive XCall where
  /-- `open_h3_request` on a connection, and the id it gave. -/
  | openRequest (conn : ℕ) (opened : Option ℕ)
  /-- `h3_send_headers`. -/
  | sendHeaders (id : ℕ) (hs : List Field) (fin : Bool)
  /-- `h3_send_body`. -/
  | sendBody (id : ℕ) (data : List UInt8) (fin : Bool)
  /-- `h3_finish`. -/
  | finish (id : ℕ)
  /-- `h3_recv_headers`. -/
  | recvHeaders (id : ℕ)
  /-- `h3_recv_body`. -/
  | recvBody (id : ℕ)
  /-- `h3_reset`. -/
  | reset (id : ℕ)
  deriving DecidableEq

/-- `HeadOut`. -/
inductive HeadOut where
  | head (h : RespHead)
  | wait
  | fail (r : Reject)
  deriving DecidableEq

/-- `BodyOut`. -/
inductive BodyOut where
  | data (n : ℕ)
  | last (n : ℕ)
  | wait
  | fail
  deriving DecidableEq

/-- `SendOut`. -/
inductive SendOut where
  | accepted (n : ℕ)
  | blocked
  | done
  deriving DecidableEq

/-- `EofOut`. -/
inductive EofOut where
  | complete
  | truncated
  deriving DecidableEq

/-- `Ready`. -/
inductive Ready where
  | readable
  | writable
  deriving DecidableEq

/-- The events that concern exchanges. -/
inductive XEvent where
  /-- `H3Readable`. -/
  | readable (id : ℕ)
  /-- `H3Writable`. -/
  | writable (id : ℕ)
  /-- `H3Closed`. -/
  | closed (id : ℕ)
  deriving DecidableEq

namespace Exchanges

variable {O : Type}

/-- `fail`: `h3_reset` while live, then remove. -/
def fail (t : Exchanges O) (id : ℕ) : Exchanges O × List XCall :=
  match t.lookup id with
  | none => (t, [])
  | some x => (t.erase id, if x.live then [.reset id] else [])

/-- The upload side of a new exchange. -/
def upOf : BodyLen → Up
  | .empty => .done
  | .known n => if n = 0 then .done else .known (UInt64.ofNat n)
  | .unknown => .streaming

/-- `open`; `opened` is what `open_h3_request` gives, `sent` whether the head is taken. -/
def openReq (t : Exchanges O) (conn : ℕ) (head : ReqHead) (owner : O) (opened : Option ℕ) (sent : Bool) :
    Exchanges O × List XCall × Except Reject ℕ :=
  match render head with
  | .error r => (t, [], .error r)
  | .ok wire =>
    match opened with
    | none => (t, [.openRequest conn none], .error .tunnelUnavailable)
    | some id =>
      let up := upOf head.body
      let calls := [.openRequest conn (some id), .sendHeaders id wire (up = .done)]
      if sent then (t.insert id ⟨owner, head.method, true, up, .awaitHead⟩, calls, .ok id)
      else (t, calls ++ [.reset id], .error .tunnelUnavailable)

/-- What `send_body` hands on: the bytes, the FIN, and the bytes it drops. -/
def toSend (up : Up) (data : List UInt8) (fin : Bool) : Option (List UInt8 × Bool × ℕ) :=
  match up with
  | .done => none
  | .known remaining =>
    let take := min data.length remaining.toNat
    some (data.take take, take = remaining.toNat, data.length - take)
  | .streaming => some (data, fin, 0)

/-- `send_body`; `finished` is what `h3_finish` answers, `sent` what `h3_send_body` does. -/
def sendBody (t : Exchanges O) (id : ℕ) (data : List UInt8) (fin : Bool) (finished : Except StreamError Unit)
    (sent : Except StreamError ℕ) : Exchanges O × List XCall × SendOut :=
  match t.lookup id with
  | none => (t, [], .done)
  | some x =>
    match toSend x.up data fin with
    | none => (t, [], .done)
    | some (data, fin, excess) =>
      if data = [] ∧ !fin then (t, [], .accepted 0)
      else
        let call : XCall := if data = [] then .finish id else .sendBody id data fin
        match if data = [] then finished.map fun _ => 0 else sent with
        | .ok n =>
          if n = 0 ∧ data ≠ [] then (t, [call], .blocked)
          else
            let up : Up :=
              match x.up with
              | .known remaining => .known (remaining - UInt64.ofNat n)
              | up => up
            if fin ∧ n = data.length then (t.insert id { x with up := .done }, [call], .accepted (n + excess))
            else (t.insert id { x with up }, [call], .accepted n)
        | .error .blocked | .error .stale => (t, [call], .blocked)
        | .error .reset | .error .conn =>
          (t.insert id { x with live := false, up := .done, down := .failed }, [call, .reset id], .done)

/-- `upload_eof`. -/
def uploadEof (t : Exchanges O) (id : ℕ) (buffered : UInt64) : Exchanges O × List XCall × EofOut :=
  match (t.lookup id).map Exch.up with
  | some (.known remaining) =>
    if buffered < remaining then ((t.fail id).1, (t.fail id).2, .truncated) else (t, [], .complete)
  | _ => (t, [], .complete)

/-- The response side once `H3Closed` is seen. -/
def downClosed : Down → Down
  | .awaitHead => .closedBeforeHead
  | .body _ _ _ false => .failed
  | d => d

/-- `on_event`. -/
def onEvent (t : Exchanges O) : XEvent → Exchanges O × Option (O × ℕ × Ready)
  | .readable id => (t, (t.lookup id).map fun x => (x.owner, id, .readable))
  | .writable id => (t, (t.lookup id).map fun x => (x.owner, id, .writable))
  | .closed id =>
    match t.lookup id with
    | none => (t, none)
    | some x =>
      (t.insert id { x with live := false, up := .done, down := downClosed x.down }, some (x.owner, id, .readable))

/-- `drain_owner`; `order` is the order in which the table gives its ids. -/
def drainOwner (t : Exchanges O) (order : List ℕ) (pred : O → Bool) : Exchanges O × List XCall :=
  (order.filter fun id => (t.lookup id).any fun x => pred x.owner).foldl
    (fun (s : Exchanges O × List XCall) id => ((s.1.fail id).1, s.2 ++ (s.1.fail id).2)) (t, [])

/-- `read_head`; the transport gives the fields and how the read ended. -/
def readHead (t : Exchanges O) (id : ℕ) (fields : List Field) (recv : Except StreamError Bool) :
    Exchanges O × List XCall × HeadOut :=
  let failed := fun (calls : List XCall) (r : Reject) => ((t.fail id).1, calls ++ (t.fail id).2, HeadOut.fail r)
  match t.lookup id with
  | none => (t, [], .fail .upstreamReset)
  | some x =>
    match x.down with
    | .awaitHead =>
      match recv with
      | .ok fin =>
        match collect fields with
        | none => failed [.recvHeaders id] .upstreamProtocol
        | some head => (t.insert id { x with down := .body head.status head.cl 0 fin }, [.recvHeaders id], .head head)
      | .error .blocked | .error .stale => (t, [.recvHeaders id], .wait)
      | .error .reset | .error .conn => failed [.recvHeaders id] .upstreamReset
    | .closedBeforeHead | .failed => failed [] .upstreamReset
    | .body _ _ _ _ => (t, [], .wait)

/-- The body is shorter than its content-length. -/
def isShort (method : Method) (status : ℕ) (cl : Option ℕ) (delivered : UInt64) : Bool :=
  bodyCheckApplies method status && cl.any fun c => delivered.toNat < c

/-- The end rules of `read_body`: a short body fails, an early response resets the upload. -/
def endBody (t : Exchanges O) (id : ℕ) (x : Exch O) (calls : List XCall) (n : ℕ) (short : Bool) :
    Exchanges O × List XCall × BodyOut :=
  if short then ((t.fail id).1, calls ++ (t.fail id).2, .fail)
  else (t.erase id, calls ++ if x.up = .done then [] else [.reset id], .last n)

/-- `read_body`; the transport gives a number of bytes and the fin. -/
def readBody (t : Exchanges O) (id : ℕ) (recv : Except StreamError (ℕ × Bool)) :
    Exchanges O × List XCall × BodyOut :=
  match t.lookup id with
  | none => (t, [], .fail)
  | some x =>
    match x.down with
    | .awaitHead | .closedBeforeHead => (t, [], .wait)
    | .failed => ((t.fail id).1, (t.fail id).2, .fail)
    | .body status cl delivered true => t.endBody id x [] 0 (isShort x.method status cl delivered)
    | .body status cl delivered false =>
      match recv with
      | .error .blocked | .error .stale => (t, [.recvBody id], .wait)
      | .error .reset | .error .conn => ((t.fail id).1, .recvBody id :: (t.fail id).2, .fail)
      | .ok (n, fin) =>
        if n = 0 ∧ !fin then (t, [.recvBody id], .wait)
        else
          let delivered := delivered + UInt64.ofNat n
          if fin then t.endBody id x [.recvBody id] n (isShort x.method status cl delivered)
          else (t.insert id { x with down := .body status cl delivered false }, [.recvBody id], .data n)

end Exchanges

end MqProxy.Client
