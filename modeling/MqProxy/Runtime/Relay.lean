import MqProxy.Runtime.RingBuf

/-!
# The flow relay

`Relay` of `mq-runtime/src/shard/relay.rs`: one QUIC stream bound to one TCP socket,
with a buffer for each direction and the latches that say what may be tried. The
transport is a parameter: `Transport` has the two calls the relay makes, with any
results that keep to what was offered. The loops of the source are here as recursions
on the budget that is left; each of their turns uses some of it, or clears the latch
or ends the relay and so is the last.
-/

namespace MqProxy.Runtime

/-- `TCP_BUF`. -/
def TCP_BUF : ℕ := 64 * 1024

/-- `RELAY_BUF`: each direction's buffer. -/
def RELAY_BUF : ℕ := TCP_BUF

/-- `StreamError`. -/
inductive StreamError where
  /-- Nothing can move now. -/
  | blocked
  /-- The peer reset the stream. -/
  | reset
  /-- The id's object is gone. -/
  | stale
  /-- The connection failed. -/
  | conn
  deriving DecidableEq

/-- The calls of `TransportOps` that a relay makes on its stream, over a transport
state `τ`: the bytes accepted of those offered, and the bytes received into a slice of
the given length, with the FIN flag. -/
structure Transport (τ : Type) where
  /-- `stream_send`. -/
  streamSend : τ → List UInt8 → Bool → Except StreamError ℕ × τ
  /-- `stream_recv`. -/
  streamRecv : τ → ℕ → Except StreamError (List UInt8 × Bool) × τ
  /-- No more is accepted than was offered. -/
  send_le : ∀ t data fin n, (streamSend t data fin).1 = .ok n → n ≤ data.length
  /-- No more is received than there is room for. -/
  recv_le : ∀ t cap bs fin, (streamRecv t cap).1 = .ok (bs, fin) → bs.length ≤ cap

/-- `RelayEnd`. -/
inductive RelayEnd where
  /-- Both directions finished. -/
  | clean
  /-- Error or reset. -/
  | abort
  deriving DecidableEq

/-- `RelayState`. -/
inductive RelayState where
  /-- The relay runs. -/
  | open
  /-- The relay ended. -/
  | closed (e : RelayEnd)
  deriving DecidableEq

/-- `PumpOutcome`. -/
inductive PumpOutcome where
  /-- Something moved. -/
  | progressed
  /-- Nothing moved. -/
  | idle
  /-- The relay ended. -/
  | closed (e : RelayEnd)
  deriving DecidableEq

/-- `IoResult`: what the driver reports of a read or a write of the socket. -/
inductive IoResult where
  /-- So many bytes. -/
  | bytes (n : ℕ)
  /-- A zero read. -/
  | eof
  /-- Nothing now. -/
  | wouldBlock
  /-- The socket failed. -/
  | error
  deriving DecidableEq

/-- The bytes a report counts. -/
def IoResult.count : IoResult → ℕ
  | .bytes n => n
  | _ => 0

/-- `Event`, of which a relay looks at these. -/
inductive Event where
  /-- `StreamReadable`. -/
  | streamReadable (s : ℕ)
  /-- `StreamWritable`. -/
  | streamWritable (s : ℕ)
  /-- `StreamClosed`. -/
  | streamClosed (s : ℕ)
  /-- `ConnClosed`. -/
  | connClosed (c : ℕ)
  /-- Any other event. -/
  | other
  deriving DecidableEq

/-- `Interest`. -/
structure Interest where
  /-- The driver may read the socket. -/
  read : Bool
  /-- The driver may write the socket. -/
  write : Bool

/-- `StreamPreread`: what the app already read from the stream. -/
structure StreamPreread where
  /-- The bytes. -/
  bytes : List UInt8
  /-- The peer's FIN was read too. -/
  fin : Bool

/-- `Relay`. -/
structure Relay where
  /-- The connection of the stream. -/
  conn : ℕ
  /-- The socket. -/
  tcp : ℕ
  /-- The stream. -/
  stream : ℕ
  /-- TCP → QUIC. -/
  toQuic : RingBuf
  /-- QUIC → TCP. -/
  toTcp : RingBuf
  /-- Latched by `StreamReadable`; cleared by `Blocked` or once FIN is read. -/
  streamReadable : Bool
  /-- Starts set; cleared by a short or `Blocked` send; set by `StreamWritable`. -/
  streamWritable : Bool
  /-- The peer's FIN has been read. -/
  finSeen : Bool
  /-- `StreamClosed` after both FINs. -/
  streamGone : Bool
  /-- One zero-capacity `stream_recv` owed. -/
  resetProbe : Bool
  /-- TCP EOF was seen. -/
  tcpReadEof : Bool
  /-- The TCP write side is shut down. -/
  tcpWriteShut : Bool
  /-- The FIN was sent. -/
  finSent : Bool
  /-- `SHUT_WR` was asked for. -/
  shutWrRequested : Bool
  /-- Running or ended. -/
  state : RelayState

namespace Relay

/-- `Relay::start`: `none` when the queued output with the preread, or the bytes
already read from TCP, do not fit. -/
def start (conn tcp stream : ℕ) (tcpPrebuf : List UInt8) (tcpReadEof : Bool) (toTcpQueued : List UInt8)
    (preread : StreamPreread) : Option Relay :=
  if h : toTcpQueued.length + preread.bytes.length ≤ RELAY_BUF ∧ tcpPrebuf.length ≤ RELAY_BUF then
    some
      { conn, tcp, stream
        toQuic := (RingBuf.new RELAY_BUF).push tcpPrebuf (by rw [RingBuf.space_new]; omega)
        toTcp := ((RingBuf.new RELAY_BUF).push toTcpQueued (by rw [RingBuf.space_new]; omega)).push preread.bytes
          (by rw [RingBuf.space_push, RingBuf.space_new]; omega)
        streamReadable := !preread.fin
        streamWritable := true
        finSeen := preread.fin
        streamGone := false
        resetProbe := false
        tcpReadEof
        tcpWriteShut := false
        finSent := false
        shutWrRequested := false
        state := .open }
  else none

variable (r : Relay)

/-- `Relay::open`. -/
def isOpen : Bool := r.state == .open

/-- `Relay::abort`. -/
def abort (r : Relay) : Relay := if r.isOpen then { r with state := .closed .abort } else r

/-- `Relay::check_clean`: both directions finished. -/
def checkClean : Relay :=
  if r.isOpen && r.finSent && r.tcpWriteShut && r.toTcp.isEmpty then { r with state := .closed .clean } else r

/-- `Relay::fin_owed`. -/
def finOwed : Bool := r.tcpReadEof && r.toQuic.isEmpty && !r.finSent

/-- `Relay::shut_wr_owed`. -/
def shutWrOwed : Bool := r.finSeen && r.toTcp.isEmpty && !r.tcpWriteShut && !r.shutWrRequested

/-- `Relay::is_runnable`. -/
def isRunnable : Bool :=
  r.isOpen && ((!r.toQuic.isEmpty && r.streamWritable) || (r.streamReadable && r.toTcp.space > 0 && !r.streamGone) ||
    r.resetProbe || (r.finOwed && r.streamWritable) || r.shutWrOwed)

section Pump

variable {τ : Type} (T : Transport τ) (r : Relay)

/-- After an accepted send of `chunk`: `n` bytes of it, at most all. -/
def sent (chunk : List UInt8) (fin : Bool) (n : ℕ) (h : chunk.length ≤ r.toQuic.len) : Relay :=
  let m := min n chunk.length
  let short := decide (m < chunk.length)
  { r with
    finSent := r.finSent || (fin && !short)
    toQuic := r.toQuic.consume m (le_trans (Nat.min_le_right _ _) h)
    streamWritable := r.streamWritable && !short }

theorem length_take_readSlice_le (b : RingBuf) (left : ℕ) : (b.readSlice.take left).length ≤ b.len := by
  rw [List.length_take, RingBuf.length_readSlice]
  exact Nat.min_le_right _ _

/-- What bounds the turns of `pump_to_quic`'s loop. -/
def quicTurns (left : ℕ) : ℕ := if r.isOpen && r.streamWritable then left else 0

theorem quicTurns_abort (left : ℕ) : quicTurns r.abort left = 0 := by
  unfold abort
  split
  · simp [quicTurns, isOpen]
  · next h => simp [quicTurns, h]

/-- A send that leaves the stream writable took the whole chunk from the budget. -/
theorem quicTurns_sent {r : Relay} {left : ℕ} (hopen : r.isOpen = true) (hw : r.streamWritable = true)
    (hleft : 0 < left) {chunk : List UInt8} (hpos : 0 < chunk.length) (fin : Bool) (n : ℕ)
    (h : chunk.length ≤ r.toQuic.len) :
    quicTurns (r.sent chunk fin n h) (left - min n chunk.length) < quicTurns r left := by
  have ho : (r.sent chunk fin n h).isOpen = r.isOpen := rfl
  have hs : (r.sent chunk fin n h).streamWritable = (r.streamWritable && !decide (min n chunk.length < chunk.length)) :=
    rfl
  simp only [quicTurns, ho, hs, hopen, hw, Bool.true_and, Bool.not_eq_true', decide_eq_false_iff_not, if_true]
  split <;> omega

/-- The loop of `pump_to_quic`: data, with the FIN on the write that drains the buffer. -/
def pumpToQuicLoop (r : Relay) (t : τ) (left : ℕ) (progressed : Bool) : Relay × τ × Bool :=
  if _hgo : (r.isOpen && r.streamWritable && !r.toQuic.isEmpty && decide (0 < left)) = true then
    let data := r.toQuic.readSlice
    let chunk := data.take left
    let fin := r.tcpReadEof && decide (chunk.length = data.length)
    match T.streamSend t chunk fin with
    | (.ok n, t) =>
      let r' := r.sent chunk fin n (length_take_readSlice_le _ _)
      pumpToQuicLoop r' t (left - min n chunk.length) (progressed || decide (0 < min n chunk.length) || r'.finSent)
    | (.error .blocked, t) => pumpToQuicLoop { r with streamWritable := false } t left progressed
    | (.error _, t) => pumpToQuicLoop r.abort t left progressed
  else (r, t, progressed)
termination_by quicTurns r left
decreasing_by
  all_goals simp only [Bool.and_eq_true, Bool.not_eq_true', decide_eq_true_eq] at _hgo
  all_goals obtain ⟨⟨⟨hopen, hw⟩, hne⟩, hleft⟩ := _hgo
  · refine quicTurns_sent hopen hw hleft ?_ _ _ _
    have hdata : r.toQuic.readSlice ≠ [] := fun h => by simp [(RingBuf.isEmpty_iff _).mpr h] at hne
    have := List.length_pos_of_ne_nil hdata
    rw [List.length_take]
    omega
  · simp [quicTurns, hopen, hw, hleft]
  · rw [quicTurns_abort]
    simpa [quicTurns, hopen, hw] using hleft

/-- `Relay::pump_to_quic`: the loop, then a FIN-only write. -/
def pumpToQuic (t : τ) (budget : ℕ) : Relay × τ × Bool :=
  let (r, t, progressed) := pumpToQuicLoop T r t budget false
  if r.isOpen && r.streamWritable && r.finOwed then
    match T.streamSend t [] true with
    | (.ok _, t) => ({ r with finSent := true }, t, true)
    | (.error .blocked, t) => ({ r with streamWritable := false }, t, progressed)
    | (.error _, t) => (r.abort, t, progressed)
  else (r, t, progressed)

/-- After a receive of `bs` into a slice of `cap` bytes. -/
def received (cap : ℕ) (bs : List UInt8) (fin : Bool) (h : cap ≤ r.toTcp.space) : Relay :=
  let n := min bs.length cap
  { r with
    toTcp := (r.toTcp.write bs).commit n (by rw [RingBuf.space_write]; exact le_trans (Nat.min_le_right _ _) h)
    finSeen := r.finSeen || fin
    -- moved nothing: treated as `Blocked`
    streamReadable := r.streamReadable && !fin && decide (n ≠ 0) }

/-- What bounds the turns of `pump_to_tcp`'s loop. -/
def tcpTurns (left : ℕ) : ℕ := if r.isOpen && r.streamReadable then left else 0

theorem tcpTurns_abort (left : ℕ) : tcpTurns r.abort left = 0 := by
  unfold abort
  split
  · simp [tcpTurns, isOpen]
  · next h => simp [tcpTurns, h]

/-- A receive that leaves the stream readable took something from the budget. -/
theorem tcpTurns_received {r : Relay} {left : ℕ} (hopen : r.isOpen = true) (hr : r.streamReadable = true)
    (hleft : 0 < left) (cap : ℕ) (bs : List UInt8) (fin : Bool) (h : cap ≤ r.toTcp.space) :
    tcpTurns (r.received cap bs fin h) (left - min bs.length cap) < tcpTurns r left := by
  have ho : (r.received cap bs fin h).isOpen = r.isOpen := rfl
  have hs : (r.received cap bs fin h).streamReadable =
      (r.streamReadable && !fin && decide (min bs.length cap ≠ 0)) := rfl
  simp only [tcpTurns, ho, hs, hopen, hr, Bool.true_and, Bool.and_eq_true, decide_eq_true_eq, if_true]
  split <;> omega

/-- `Relay::pump_to_tcp`'s loop. -/
def pumpToTcpLoop (r : Relay) (t : τ) (left : ℕ) (progressed : Bool) : Relay × τ × Bool :=
  if _hgo : (r.isOpen && r.streamReadable && decide (0 < r.toTcp.space) && !r.streamGone && decide (0 < left)) = true then
    let cap := min r.toTcp.space left
    match T.streamRecv t cap with
    | (.ok (bs, fin), t) =>
      let r' := r.received cap bs fin (Nat.min_le_left _ _)
      pumpToTcpLoop r' t (left - min bs.length cap) (progressed || decide (0 < min bs.length cap) || fin)
    | (.error .blocked, t) => pumpToTcpLoop { r with streamReadable := false } t left progressed
    | (.error _, t) => pumpToTcpLoop r.abort t left progressed
  else (r, t, progressed)
termination_by tcpTurns r left
decreasing_by
  all_goals simp only [Bool.and_eq_true, decide_eq_true_eq] at _hgo
  all_goals obtain ⟨⟨⟨⟨hopen, hr⟩, -⟩, -⟩, hleft⟩ := _hgo
  · exact tcpTurns_received hopen hr hleft _ _ _ _
  · simp [tcpTurns, hopen, hr, hleft]
  · rw [tcpTurns_abort]
    simpa [tcpTurns, hopen, hr] using hleft

/-- `Relay::pump_to_tcp`. -/
def pumpToTcp (t : τ) (budget : ℕ) : Relay × τ × Bool := pumpToTcpLoop T r t budget false

/-- The zero-capacity receive of `pump` that is owed after a `StreamReadable` the relay
could not act on. -/
def probe (t : τ) : Relay × τ × Bool :=
  if r.isOpen && r.resetProbe then
    match T.streamRecv t 0 with
    | (.ok (_, true), t) => ({ r with resetProbe := false, finSeen := true, streamReadable := false }, t, true)
    | (.ok (_, false), t) => ({ r with resetProbe := false }, t, true)
    | (.error .blocked, t) => ({ r with resetProbe := false }, t, true)
    | (.error _, t) => (abort { r with resetProbe := false }, t, true)
  else (r, t, false)

/-- `Relay::pump`: the probe, then each direction with its own budget. -/
def pump (t : τ) (budgetPerDir : ℕ) : Relay × τ × PumpOutcome :=
  let (r, t, p₀) := r.probe T t
  let (r, t, p₁) := r.pumpToQuic T t budgetPerDir
  let (r, t, p₂) := r.pumpToTcp T t budgetPerDir
  let r := r.checkClean
  (r, t, match r.state with
    | .closed e => .closed e
    | .open => if p₀ || p₁ || p₂ then .progressed else .idle)

/-- `Relay::tcp_rx_commit`: commits the read and forwards at once. The report is of no
more bytes than there is room for. -/
def tcpRxCommit (res : IoResult) (t : τ) (h : res.count ≤ r.toQuic.space) : Relay × τ :=
  let forward (r : Relay) : Relay × τ :=
    let (r, t, _) := r.pumpToQuic T t RELAY_BUF
    (r.checkClean, t)
  if r.isOpen then
    match res, h with
    | .bytes n, h => forward { r with toQuic := r.toQuic.commit n h }
    | .eof, _ => forward { r with tcpReadEof := true }
    | .wouldBlock, _ => (r, t)
    | .error, _ => (r.abort, t)
  else (r, t)

end Pump

/-- `Relay::tcp_tx_data`. -/
def tcpTxData : List UInt8 := r.toTcp.readSlice

/-- `Relay::tcp_tx_commit`. -/
def tcpTxCommit (res : IoResult) : Relay :=
  if r.isOpen then
    match res with
    | .bytes n => { r with toTcp := r.toTcp.consume (min n r.toTcp.len) (Nat.min_le_right _ _) }
    | .wouldBlock => r
    | .eof => r.abort
    | .error => r.abort
  else r

/-- `Relay::tcp_interest`. -/
def tcpInterest : Interest where
  read := r.isOpen && !r.tcpReadEof && r.streamWritable && decide (0 < r.toQuic.space)
  write := r.isOpen && !r.toTcp.isEmpty

/-- `Relay::on_stream_event`. -/
def onStreamEvent (ev : Event) : Relay :=
  if r.isOpen then
    match ev with
    | .streamReadable s =>
      if s = r.stream && !r.streamGone then
        { r with
          streamReadable := !r.finSeen
          resetProbe := r.resetProbe || r.finSeen || decide (r.toTcp.space = 0) }
      else r
    | .streamWritable s => if s = r.stream then { r with streamWritable := true } else r
    | .streamClosed s =>
      if s = r.stream then
        if r.finSeen && r.finSent then
          -- `to_tcp` still drains
          checkClean { r with streamGone := true, streamReadable := false, resetProbe := false }
        else r.abort
      else r
    | .connClosed c => if c = r.conn then r.abort else r
    | .other => r
  else r

/-- `Relay::take_owed_shutdown`: true when `SHUT_WR` is owed, which is then asked for. -/
def takeOwedShutdown : Relay × Bool :=
  if r.isOpen && r.shutWrOwed then ({ r with shutWrRequested := true }, true) else (r, false)

/-- `Relay::shutdown_done`. -/
def shutdownDone : Relay := checkClean { r with tcpWriteShut := true }

/-- `Relay::end_reason`. -/
def endReason : Option RelayEnd :=
  match r.state with
  | .open => none
  | .closed e => some e

end Relay

end MqProxy.Runtime
