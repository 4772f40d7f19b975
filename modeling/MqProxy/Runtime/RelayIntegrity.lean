import MqProxy.Library.History
import MqProxy.Runtime.Relay

/-!
# The relay neither loses, nor repeats, nor reorders a byte

The history of a relay is what crossed its edges: what the transport accepted and
delivered, with the FIN flags, what was read from and written to the socket, and the
`SHUT_WR` asked for. A transport is made to write its part of the history by `record`;
the relay's own code is not touched.

`Allowed` says when an entry may be made after a given past. `Inv` joins the history
with the two buffers and the latches: what went out, followed by what the buffer
holds, is what came in. An entry of one direction leaves the other as it was (`Inv.up`,
`Inv.down`), so each edge of the relay has one lemma about its own direction (`Inv.sent`,
`Inv.finOnly`, `Inv.received`, …). The loops keep `Inv` by induction on their turns, and
so does every run (`Reaches.inv`).
-/

namespace MqProxy.Runtime

open MqProxy.Library

/-- An entry of a relay's history. -/
inductive Io where
  /-- The transport accepted the bytes, and committed a FIN after them. -/
  | accepted (bytes : List UInt8) (fin : Bool)
  /-- The transport delivered the bytes, and the peer's FIN after them. -/
  | received (bytes : List UInt8) (fin : Bool)
  /-- The driver committed bytes read from the socket. -/
  | tcpRead (bytes : List UInt8)
  /-- The driver reported the end of the socket's input. -/
  | tcpEof
  /-- The socket took the bytes. -/
  | tcpWritten (bytes : List UInt8)
  /-- `SHUT_WR` was asked for. -/
  | shutWr
  deriving DecidableEq

/-- What a relay is started with. -/
structure Opening where
  /-- Bytes already read from TCP. -/
  tcpPrebuf : List UInt8
  /-- TCP EOF was already seen. -/
  tcpReadEof : Bool
  /-- Output the app queued on the socket. -/
  toTcpQueued : List UInt8
  /-- What the app read from the stream. -/
  preread : StreamPreread

namespace Io

/-- The bytes the transport accepted. -/
def acceptedBytes (h : List Io) : List UInt8 := h.flatMap fun
  | accepted bs _ => bs
  | _ => []

/-- The bytes the transport delivered. -/
def receivedBytes (h : List Io) : List UInt8 := h.flatMap fun
  | received bs _ => bs
  | _ => []

/-- The bytes committed from the socket. -/
def readBytes (h : List Io) : List UInt8 := h.flatMap fun
  | tcpRead bs => bs
  | _ => []

/-- The bytes the socket took. -/
def writtenBytes (h : List Io) : List UInt8 := h.flatMap fun
  | tcpWritten bs => bs
  | _ => []

/-- A FIN that was sent. -/
def isFin : Io → Bool
  | accepted _ fin => fin
  | _ => false

/-- TCP EOF was seen. -/
def EofSeen (o : Opening) (h : List Io) : Prop := o.tcpReadEof = true ∨ tcpEof ∈ h

/-- The stream's FIN was read. -/
def FinSeen (o : Opening) (h : List Io) : Prop := o.preread.fin = true ∨ ∃ bs, received bs true ∈ h

/-- What has come in for the stream. -/
def forStream (o : Opening) (h : List Io) : List UInt8 := o.tcpPrebuf ++ readBytes h

/-- What has come in for the socket. -/
def forSocket (o : Opening) (h : List Io) : List UInt8 := o.toTcpQueued ++ o.preread.bytes ++ receivedBytes h

/-- **The rule of a relay**: what may happen after the past. -/
def Allowed (o : Opening) (past : List Io) : Io → Prop
  | accepted bs fin => acceptedBytes past ++ bs <+: forStream o past ∧
      (fin = true → EofSeen o past ∧ acceptedBytes past ++ bs = forStream o past ∧ ∀ x ∈ past, x.isFin = false)
  | received bs _ => bs ≠ [] → ¬FinSeen o past
  | tcpRead bs => bs ≠ [] → ¬EofSeen o past
  | tcpEof => True
  | tcpWritten bs => writtenBytes past ++ bs <+: forSocket o past ∧ (bs ≠ [] → shutWr ∉ past)
  | shutWr => FinSeen o past ∧ writtenBytes past = forSocket o past ∧ shutWr ∉ past

/-- The entries of the direction from the socket to the stream. -/
def isUp : Io → Bool
  | accepted _ _ | tcpRead _ | tcpEof => true
  | received _ _ | tcpWritten _ | shutWr => false

section Direction

variable {o : Opening} {h : List Io} {x : Io}

theorem writtenBytes_up (hx : x.isUp = true) : writtenBytes (h ++ [x]) = writtenBytes h := by
  cases x <;> simp_all [writtenBytes, isUp]

theorem forSocket_up (hx : x.isUp = true) : forSocket o (h ++ [x]) = forSocket o h := by
  cases x <;> simp_all [forSocket, receivedBytes, isUp]

theorem finSeen_up (hx : x.isUp = true) : FinSeen o (h ++ [x]) ↔ FinSeen o h := by
  cases x <;> simp_all [FinSeen, isUp]

theorem shutWr_mem_up (hx : x.isUp = true) : shutWr ∈ h ++ [x] ↔ shutWr ∈ h := by
  cases x <;> simp_all [isUp]

theorem acceptedBytes_down (hx : x.isUp = false) : acceptedBytes (h ++ [x]) = acceptedBytes h := by
  cases x <;> simp_all [acceptedBytes, isUp]

theorem forStream_down (hx : x.isUp = false) : forStream o (h ++ [x]) = forStream o h := by
  cases x <;> simp_all [forStream, readBytes, isUp]

theorem eofSeen_down (hx : x.isUp = false) : EofSeen o (h ++ [x]) ↔ EofSeen o h := by
  cases x <;> simp_all [EofSeen, isUp]

theorem noFin_snoc : (∀ y ∈ h ++ [x], y.isFin = false) ↔ (∀ y ∈ h, y.isFin = false) ∧ x.isFin = false := by
  rw [List.forall_mem_append, List.forall_mem_singleton]

theorem isFin_down (hx : x.isUp = false) : x.isFin = false := by
  cases x <;> simp_all [isUp, isFin]

end Direction

end Io

open Io

/-- The transport `T`, with the history of its calls. A FIN counts as sent when all that
was offered with it was accepted. -/
def Transport.record {τ : Type} (T : Transport τ) : Transport (τ × List Io) where
  streamSend := fun (t, h) data fin =>
    match T.streamSend t data fin with
    | (.ok n, t) => (.ok n, t, h ++ [.accepted (data.take n) (fin && decide (n = data.length))])
    | (.error e, t) => (.error e, t, h)
  streamRecv := fun (t, h) cap =>
    match T.streamRecv t cap with
    | (.ok (bs, fin), t) => (.ok (bs, fin), t, h ++ [.received bs fin])
    | (.error e, t) => (.error e, t, h)
  send_le := by
    rintro ⟨t, h⟩ data fin n hn
    dsimp only at hn
    split at hn
    · next hs =>
      cases hn
      exact T.send_le t data fin n (by rw [hs])
    · cases hn
  recv_le := by
    rintro ⟨t, h⟩ cap bs fin hn
    dsimp only at hn
    split at hn
    · next hs =>
      cases hn
      exact T.recv_le t cap bs fin (by rw [hs])
    · cases hn

section Record

variable {τ : Type} {T : Transport τ} {s s' : τ × List Io}

theorem record_send_ok {data : List UInt8} {fin : Bool} {n : ℕ} (h : T.record.streamSend s data fin = (.ok n, s')) :
    n ≤ data.length ∧ s'.2 = s.2 ++ [.accepted (data.take n) (fin && decide (n = data.length))] := by
  refine ⟨T.record.send_le s data fin n (by rw [h]), ?_⟩
  simp only [Transport.record] at h
  split at h <;> cases h
  rfl

theorem record_send_error {data : List UInt8} {fin : Bool} {e : StreamError}
    (h : T.record.streamSend s data fin = (.error e, s')) : s'.2 = s.2 := by
  simp only [Transport.record] at h
  split at h <;> cases h
  rfl

theorem record_recv_ok {cap : ℕ} {bs : List UInt8} {fin : Bool} (h : T.record.streamRecv s cap = (.ok (bs, fin), s')) :
    bs.length ≤ cap ∧ s'.2 = s.2 ++ [.received bs fin] := by
  refine ⟨T.record.recv_le s cap bs fin (by rw [h]), ?_⟩
  simp only [Transport.record] at h
  split at h <;> cases h
  rfl

theorem record_recv_error {cap : ℕ} {e : StreamError} (h : T.record.streamRecv s cap = (.error e, s')) :
    s'.2 = s.2 := by
  simp only [Transport.record] at h
  split at h <;> cases h
  rfl

end Record

/-! ### The invariant -/

/-- **The invariant of a relay** and its history. -/
structure Inv (o : Opening) (r : Relay) (h : List Io) : Prop where
  /-- Every entry was allowed. -/
  lawful : Lawful (Allowed o) h
  /-- What the stream took, then what waits for it, is what came in for it. -/
  quic : acceptedBytes h ++ r.toQuic.readSlice = forStream o h
  /-- What the socket took, then what waits for it, is what came in for it. -/
  tcp : writtenBytes h ++ r.toTcp.readSlice = forSocket o h
  /-- The EOF latch. -/
  eof : r.tcpReadEof = true ↔ EofSeen o h
  /-- The latch of the stream's FIN. -/
  finSeen : r.finSeen = true ↔ FinSeen o h
  /-- The latch of the FIN that is sent. -/
  finSent : r.finSent = false ↔ ∀ x ∈ h, x.isFin = false
  /-- The latch of `SHUT_WR`. -/
  shut : r.shutWrRequested = true ↔ shutWr ∈ h
  /-- After the stream's FIN nothing is read from it. -/
  finished : r.finSeen = true → r.streamReadable = false
  /-- The FIN went out with the last byte. -/
  drained : r.finSent = true → r.toQuic.readSlice = [] ∧ r.tcpReadEof = true
  /-- `SHUT_WR` was asked for after the last byte. -/
  written : r.shutWrRequested = true → r.finSeen = true ∧ r.toTcp.readSlice = []

namespace Inv

variable {o : Opening} {r : Relay} {h : List Io}

variable (i : Inv o r h)
include i

/-- A relay with the same buffers, and the same latches of the history, that does not
turn readable. -/
theorem congr {r' : Relay} (hq : r'.toQuic = r.toQuic) (ht : r'.toTcp = r.toTcp)
    (he : r'.tcpReadEof = r.tcpReadEof) (hs : r'.finSeen = r.finSeen) (hf : r'.finSent = r.finSent)
    (hw : r'.shutWrRequested = r.shutWrRequested)
    (hr : r'.finSeen = true → r'.streamReadable = false) : Inv o r' h where
  lawful := i.lawful
  quic := hq ▸ i.quic
  tcp := ht ▸ i.tcp
  eof := he ▸ i.eof
  finSeen := hs ▸ i.finSeen
  finSent := hf ▸ i.finSent
  shut := hw ▸ i.shut
  finished := hr
  drained := by rw [hf, hq, he]; exact i.drained
  written := by rw [hw, hs, ht]; exact i.written

theorem abort : Inv o r.abort h := by
  unfold Relay.abort
  split
  · exact i.congr rfl rfl rfl rfl rfl rfl i.finished
  · exact i

theorem checkClean : Inv o r.checkClean h := by
  unfold Relay.checkClean
  split
  · exact i.congr rfl rfl rfl rfl rfl rfl i.finished
  · exact i

theorem notWritable : Inv o { r with streamWritable := false } h :=
  i.congr rfl rfl rfl rfl rfl rfl i.finished

theorem shutDown : Inv o { r with tcpWriteShut := true } h :=
  i.congr rfl rfl rfl rfl rfl rfl i.finished

theorem notReadable : Inv o { r with streamReadable := false } h :=
  i.congr rfl rfl rfl rfl rfl rfl fun _ => rfl

/-- An entry of the direction to the stream leaves the other direction as it was. -/
theorem up {x : Io} {r' : Relay} (hx : x.isUp = true) (hallowed : Allowed o h x)
    (hsame : (r'.toTcp, r'.finSeen, r'.shutWrRequested, r'.streamReadable) =
      (r.toTcp, r.finSeen, r.shutWrRequested, r.streamReadable))
    (hquic : acceptedBytes (h ++ [x]) ++ r'.toQuic.readSlice = forStream o (h ++ [x]))
    (heof : r'.tcpReadEof = true ↔ EofSeen o (h ++ [x]))
    (hsent : r'.finSent = false ↔ ∀ y ∈ h ++ [x], y.isFin = false)
    (hdrained : r'.finSent = true → r'.toQuic.readSlice = [] ∧ r'.tcpReadEof = true) : Inv o r' (h ++ [x]) := by
  simp only [Prod.mk.injEq] at hsame
  obtain ⟨htcp, hseen, hshut, hreadable⟩ := hsame
  exact {
    lawful := lawful_snoc.mpr ⟨i.lawful, hallowed⟩
    quic := hquic
    tcp := by rw [writtenBytes_up hx, forSocket_up hx, htcp, i.tcp]
    eof := heof
    finSeen := by rw [finSeen_up hx, hseen, i.finSeen]
    finSent := hsent
    shut := by rw [shutWr_mem_up hx, hshut, i.shut]
    finished := by rw [hseen, hreadable]; exact i.finished
    drained := hdrained
    written := by rw [hshut, hseen, htcp]; exact i.written }

/-- An entry of the direction to the socket leaves the other direction as it was. -/
theorem down {x : Io} {r' : Relay} (hx : x.isUp = false) (hallowed : Allowed o h x)
    (hsame : (r'.toQuic, r'.tcpReadEof, r'.finSent) = (r.toQuic, r.tcpReadEof, r.finSent))
    (htcp : writtenBytes (h ++ [x]) ++ r'.toTcp.readSlice = forSocket o (h ++ [x]))
    (hseen : r'.finSeen = true ↔ FinSeen o (h ++ [x]))
    (hshut : r'.shutWrRequested = true ↔ shutWr ∈ h ++ [x])
    (hfinished : r'.finSeen = true → r'.streamReadable = false)
    (hwritten : r'.shutWrRequested = true → r'.finSeen = true ∧ r'.toTcp.readSlice = []) : Inv o r' (h ++ [x]) := by
  simp only [Prod.mk.injEq] at hsame
  obtain ⟨hquic, heof, hsent⟩ := hsame
  exact {
    lawful := lawful_snoc.mpr ⟨i.lawful, hallowed⟩
    quic := by rw [acceptedBytes_down hx, forStream_down hx, hquic, i.quic]
    tcp := htcp
    eof := by rw [eofSeen_down hx, heof, i.eof]
    finSeen := hseen
    finSent := by rw [noFin_snoc, isFin_down hx, hsent, i.finSent, and_iff_left rfl]
    shut := hshut
    finished := hfinished
    drained := by rw [hsent, hquic, heof]; exact i.drained
    written := hwritten }

/-! ### Each edge keeps the invariant -/

/-- With bytes left to send, no FIN has been sent. -/
theorem finSent_of_ne (hne : r.toQuic.readSlice ≠ []) : r.finSent = false := by
  cases hf : r.finSent with
  | false => rfl
  | true => exact absurd (i.drained hf).1 hne

/-- The stream took `n` bytes of a chunk. -/
theorem sent {left n : ℕ} (hne : r.toQuic.readSlice ≠ []) {chunk : List UInt8} {fin : Bool}
    (hchunk : chunk = r.toQuic.readSlice.take left)
    (hfin : fin = (r.tcpReadEof && decide (chunk.length = r.toQuic.readSlice.length)))
    (hn : n ≤ chunk.length) (hlen : chunk.length ≤ r.toQuic.len) :
    Inv o (r.sent chunk fin n hlen) (h ++ [.accepted (chunk.take n) (fin && decide (n = chunk.length))]) := by
  have hnot := i.finSent_of_ne hne
  have hmin : min n chunk.length = n := Nat.min_eq_left hn
  have hshort : (!decide (n < chunk.length)) = decide (n = chunk.length) := by
    rw [← decide_not]
    exact decide_eq_decide.mpr (by omega)
  have hsent : (r.sent chunk fin n hlen).finSent = (fin && decide (n = chunk.length)) := by
    simp only [Relay.sent, hmin, hnot, Bool.false_or, hshort]
  have hbuf : (r.sent chunk fin n hlen).toQuic.readSlice = r.toQuic.readSlice.drop n := by
    simp only [Relay.sent, RingBuf.readSlice_consume, hmin]
  have htake : chunk.take n = r.toQuic.readSlice.take n := by
    rw [hchunk, List.take_take, Nat.min_eq_left]
    rw [hchunk, List.length_take] at hn
    omega
  -- all of the buffer went when the FIN did
  have hall : (fin && decide (n = chunk.length)) = true →
      r.tcpReadEof = true ∧ r.toQuic.readSlice.length ≤ n := by
    intro hf
    simp only [hfin, Bool.and_eq_true, decide_eq_true_eq] at hf
    exact ⟨hf.1.1, by omega⟩
  have hq := i.quic
  refine i.up rfl ⟨?_, fun hf => ?_⟩ rfl ?_ ?_ ?_ fun hf => ?_
  · rw [← hq, htake]
    exact (List.prefix_append_right_inj _).mpr (List.take_prefix _ _)
  · obtain ⟨heof, hle⟩ := hall hf
    refine ⟨i.eof.mp heof, ?_, i.finSent.mp hnot⟩
    rw [htake, List.take_of_length_le hle, hq]
  · rw [hbuf, htake]
    simpa [acceptedBytes, forStream, readBytes] using hq
  · simpa [EofSeen, Relay.sent] using i.eof
  · rw [hsent, noFin_snoc, isFin, and_iff_right (i.finSent.mp hnot)]
  · rw [hsent] at hf
    obtain ⟨heof, hle⟩ := hall hf
    exact ⟨by rw [hbuf, List.drop_of_length_le hle], heof⟩

/-- The stream took a FIN alone. -/
theorem finOnly (howed : r.finOwed = true) : Inv o { r with finSent := true } (h ++ [.accepted [] true]) := by
  simp only [Relay.finOwed, Bool.and_eq_true, Bool.not_eq_true'] at howed
  obtain ⟨⟨heof, hempty⟩, hnot⟩ := howed
  have hempty := (RingBuf.isEmpty_iff _).mp hempty
  have hq := i.quic
  rw [hempty, List.append_nil] at hq
  refine i.up rfl ⟨?_, fun _ => ⟨i.eof.mp heof, ?_, i.finSent.mp hnot⟩⟩ rfl ?_ ?_ ?_ fun _ => ⟨hempty, heof⟩
  · rw [List.append_nil, hq]
  · rw [List.append_nil, hq]
  · simpa [acceptedBytes, forStream, readBytes] using i.quic
  · simpa [EofSeen] using i.eof
  · rw [noFin_snoc, isFin, and_iff_right (i.finSent.mp hnot)]

/-- The stream delivered bytes. -/
theorem received (hread : r.streamReadable = true) {cap : ℕ} {bs : List UInt8} (fin : Bool)
    (hcap : cap ≤ r.toTcp.space) (hbs : bs.length ≤ cap) :
    Inv o (r.received cap bs fin hcap) (h ++ [.received bs fin]) := by
  have hnot : r.finSeen = false := by
    cases hf : r.finSeen with
    | false => rfl
    | true => exact absurd hread (by rw [i.finished hf]; exact Bool.noConfusion)
  have hshut : r.shutWrRequested = false := by
    cases hw : r.shutWrRequested with
    | false => rfl
    | true => exact absurd (i.written hw).1 (by rw [hnot]; exact Bool.noConfusion)
  have hmin : min bs.length cap = bs.length := Nat.min_eq_left hbs
  have hbuf : (r.received cap bs fin hcap).toTcp.readSlice = r.toTcp.readSlice ++ bs := by
    simp only [Relay.received]
    rw [RingBuf.readSlice_commit_write _ _ _ _ (Nat.min_le_left _ _), hmin, List.take_length]
  have hseen : ¬FinSeen o h := fun hs => by simp [i.finSeen.mpr hs] at hnot
  refine i.down rfl (fun _ => hseen) rfl ?_ ?_ ?_ ?_ ?_
  · rw [hbuf]
    have := congrArg (· ++ bs) i.tcp
    simpa [forSocket, writtenBytes, receivedBytes] using this
  · have : (r.received cap bs fin hcap).finSeen = fin := by simp only [Relay.received, hnot, Bool.false_or]
    rw [this]
    simp only [FinSeen, not_or] at hseen
    cases fin with
    | false => simp [FinSeen, hseen.1, not_exists.mp hseen.2]
    | true => simp [FinSeen]
  · simpa [Relay.received] using i.shut
  · intro hf
    simp only [Relay.received, hnot, Bool.false_or] at hf
    simp [Relay.received, hf]
  · intro hw
    simp [Relay.received, hshut] at hw

/-- The zero-capacity receive answered. -/
theorem probed (fin : Bool) :
    Inv o { r with resetProbe := false, finSeen := r.finSeen || fin, streamReadable := r.streamReadable && !fin }
      (h ++ [.received [] fin]) := by
  refine i.down rfl (fun hne => absurd rfl hne) rfl ?_ ?_ ?_ ?_ ?_
  · simpa [forSocket, writtenBytes, receivedBytes] using i.tcp
  · cases fin with
    | false => simpa [FinSeen] using i.finSeen
    | true => simp [FinSeen]
  · simpa using i.shut
  · intro hf
    cases fin with
    | false =>
      simp only [Bool.or_false] at hf
      simp [i.finished hf]
    | true => simp
  · intro hw
    exact ⟨by simp [(i.written hw).1], (i.written hw).2⟩

/-- The driver committed bytes of the socket, before its EOF. -/
theorem tcpRead {bs : List UInt8} (hroom : bs.length ≤ r.toQuic.space)
    (heof : r.tcpReadEof = true → bs = []) :
    Inv o { r with toQuic := r.toQuic.push bs hroom } (h ++ [.tcpRead bs]) := by
  refine i.up rfl (fun hne he => hne (heof (i.eof.mpr he))) rfl ?_ ?_ ?_ fun hf => ?_
  · have := congrArg (· ++ bs) i.quic
    simpa [acceptedBytes, forStream, readBytes] using this
  · simpa [EofSeen] using i.eof
  · rw [noFin_snoc]
    exact i.finSent.trans (and_iff_left rfl).symm
  · obtain ⟨hempty, he⟩ := i.drained hf
    exact ⟨by simp [hempty, heof he], he⟩

/-- The driver reported the end of the socket's input. -/
theorem tcpEof : Inv o { r with tcpReadEof := true } (h ++ [.tcpEof]) := by
  refine i.up rfl trivial rfl ?_ ?_ ?_ fun hf => ⟨(i.drained hf).1, rfl⟩
  · simpa [acceptedBytes, forStream, readBytes] using i.quic
  · simp [EofSeen]
  · rw [noFin_snoc]
    exact i.finSent.trans (and_iff_left rfl).symm

/-- The socket took bytes. -/
theorem tcpWritten (n : ℕ) :
    Inv o { r with toTcp := r.toTcp.consume (min n r.toTcp.len) (Nat.min_le_right _ _) }
      (h ++ [.tcpWritten (r.toTcp.readSlice.take n)]) := by
  have htcp := i.tcp
  have hdrop : r.toTcp.readSlice.drop (min n r.toTcp.len) = r.toTcp.readSlice.drop n := by
    rw [← RingBuf.length_readSlice]
    rcases Nat.le_total n r.toTcp.readSlice.length with hle | hle
    · rw [Nat.min_eq_left hle]
    · rw [Nat.min_eq_right hle, List.drop_length, List.drop_of_length_le hle]
  refine i.down rfl ⟨?_, ?_⟩ rfl ?_ ?_ ?_ i.finished fun hw => ?_
  · rw [← htcp]
    exact (List.prefix_append_right_inj _).mpr (List.take_prefix _ _)
  · intro hne hs
    rw [(i.written (i.shut.mpr hs)).2] at hne
    simp at hne
  · rw [RingBuf.readSlice_consume, hdrop]
    simpa [forSocket, writtenBytes, receivedBytes] using htcp
  · simpa [FinSeen] using i.finSeen
  · simpa using i.shut
  · exact ⟨(i.written hw).1, by rw [RingBuf.readSlice_consume, (i.written hw).2, List.drop_nil]⟩

/-- `SHUT_WR` was asked for. -/
theorem shutWr (howed : r.shutWrOwed = true) :
    Inv o { r with shutWrRequested := true } (h ++ [.shutWr]) := by
  simp only [Relay.shutWrOwed, Bool.and_eq_true, Bool.not_eq_true'] at howed
  obtain ⟨⟨⟨hfin, hempty⟩, -⟩, hnot⟩ := howed
  have hempty := (RingBuf.isEmpty_iff _).mp hempty
  have htcp := i.tcp
  rw [hempty, List.append_nil] at htcp
  have hshut : Io.shutWr ∉ h := fun hs => by simp [i.shut.mpr hs] at hnot
  refine i.down rfl ⟨i.finSeen.mp hfin, htcp, hshut⟩ rfl ?_ ?_ ?_ i.finished fun _ => ⟨hfin, hempty⟩
  · simpa [forSocket, writtenBytes, receivedBytes] using i.tcp
  · simpa [FinSeen] using i.finSeen
  · simp

end Inv

/-! ### The loops keep the invariant -/

section Pump

variable {τ : Type} {T : Transport τ} {o : Opening}

/-- The loop toward the stream, by induction on its turns. -/
theorem pumpToQuicLoop_inv (r : Relay) (s : τ × List Io) (left : ℕ) (progressed : Bool) (i : Inv o r s.2) :
    Inv o (r.pumpToQuicLoop T.record s left progressed).1 (r.pumpToQuicLoop T.record s left progressed).2.1.2 := by
  fun_induction Relay.pumpToQuicLoop T.record r s left progressed with
  | case1 r s left progressed hgo data chunk fin n s' hsend r' ih =>
    obtain ⟨hn, hs'⟩ := record_send_ok hsend
    simp only [Bool.and_eq_true, Bool.not_eq_true'] at hgo
    have hne : r.toQuic.readSlice ≠ [] := fun he => by simp [(RingBuf.isEmpty_iff _).mpr he] at hgo
    exact ih (hs' ▸ i.sent hne rfl rfl hn _)
  | case2 r s left progressed hgo data chunk fin s' hsend ih =>
    exact ih (record_send_error hsend ▸ i.notWritable)
  | case3 r s left progressed hgo data chunk fin e s' hne hsend ih =>
    exact ih (record_send_error hsend ▸ i.abort)
  | case4 r s left progressed hgo => exact i

/-- The loop toward the socket, by induction on its turns. -/
theorem pumpToTcpLoop_inv (r : Relay) (s : τ × List Io) (left : ℕ) (progressed : Bool) (i : Inv o r s.2) :
    Inv o (r.pumpToTcpLoop T.record s left progressed).1 (r.pumpToTcpLoop T.record s left progressed).2.1.2 := by
  fun_induction Relay.pumpToTcpLoop T.record r s left progressed with
  | case1 r s left progressed hgo cap bs fin s' hrecv r' ih =>
    obtain ⟨hbs, hs'⟩ := record_recv_ok hrecv
    simp only [Bool.and_eq_true] at hgo
    exact ih (hs' ▸ i.received hgo.1.1.1.2 fin _ hbs)
  | case2 r s left progressed hgo cap s' hrecv ih =>
    exact ih (record_recv_error hrecv ▸ i.notReadable)
  | case3 r s left progressed hgo cap e s' hne hrecv ih =>
    exact ih (record_recv_error hrecv ▸ i.abort)
  | case4 r s left progressed hgo => exact i

theorem pumpToQuic_inv (r : Relay) (s : τ × List Io) (budget : ℕ) (i : Inv o r s.2) :
    Inv o (r.pumpToQuic T.record s budget).1 (r.pumpToQuic T.record s budget).2.1.2 := by
  have hloop := pumpToQuicLoop_inv (T := T) r s budget false i
  unfold Relay.pumpToQuic
  generalize r.pumpToQuicLoop T.record s budget false = x at hloop
  obtain ⟨r, s, progressed⟩ := x
  dsimp only at hloop ⊢
  split
  · next hgo =>
    simp only [Bool.and_eq_true] at hgo
    split
    · next n s' hsend =>
      obtain ⟨hn, hs'⟩ := record_send_ok hsend
      have hzero : n = 0 := Nat.le_zero.mp hn
      subst hzero
      exact hs' ▸ hloop.finOnly hgo.2
    · next hsend => exact record_send_error hsend ▸ hloop.notWritable
    · next hsend => exact record_send_error hsend ▸ hloop.abort
  · exact hloop

theorem probe_inv (r : Relay) (s : τ × List Io) (i : Inv o r s.2) :
    Inv o (r.probe T.record s).1 (r.probe T.record s).2.1.2 := by
  have hclear : Inv o { r with resetProbe := false } s.2 := i.congr rfl rfl rfl rfl rfl rfl i.finished
  unfold Relay.probe
  split
  · split
    · next bs s' hrecv =>
      obtain ⟨hbs, hs'⟩ := record_recv_ok hrecv
      rw [List.length_eq_zero_iff.mp (Nat.le_zero.mp hbs)] at hs'
      have := i.probed true
      simp only [Bool.or_true, Bool.not_true, Bool.and_false] at this
      exact hs' ▸ this
    · next bs s' hrecv =>
      obtain ⟨hbs, hs'⟩ := record_recv_ok hrecv
      rw [List.length_eq_zero_iff.mp (Nat.le_zero.mp hbs)] at hs'
      have := i.probed false
      simp only [Bool.or_false, Bool.not_false, Bool.and_true] at this
      exact hs' ▸ this
    · next hrecv => exact record_recv_error hrecv ▸ hclear
    · next hrecv => exact record_recv_error hrecv ▸ hclear.abort
  · exact i

theorem pump_inv (r : Relay) (s : τ × List Io) (budget : ℕ) (i : Inv o r s.2) :
    Inv o (r.pump T.record s budget).1 (r.pump T.record s budget).2.1.2 :=
  (pumpToTcpLoop_inv (T := T) _ _ budget false (pumpToQuic_inv (T := T) _ _ budget (probe_inv r s i))).checkClean

end Pump

/-! ### Every run keeps the invariant -/

/-- `tcp_rx_buf` of the shard, the length of the slice the driver reads into: a relay
offers its room while it has read interest. -/
def tcpRxBuf (r : Relay) : ℕ := if r.tcpInterest.read then r.toQuic.space else 0

/-- The driver may commit these bytes: there is room for them, and none come after EOF. -/
def Offered (r : Relay) (bs : List UInt8) : Prop := bs.length ≤ r.toQuic.space ∧ (r.tcpReadEof = true → bs = [])

/-- Whatever a driver reads into `tcp_rx_buf` it may commit. -/
theorem offered_of_tcpRxBuf {r : Relay} {bs : List UInt8} (h : bs.length ≤ tcpRxBuf r) : Offered r bs := by
  unfold tcpRxBuf at h
  split at h
  · next hread =>
    simp only [Relay.tcpInterest, Bool.and_eq_true, Bool.not_eq_true'] at hread
    exact ⟨h, fun he => by simp [he] at hread⟩
  · have := List.length_eq_zero_iff.mp (Nat.le_zero.mp h)
    exact ⟨by rw [this]; exact Nat.zero_le _, fun _ => this⟩

/-- The history after an entry that a relay makes only while it is open. -/
def whileOpen (r : Relay) (h : List Io) (e : Io) : List Io := if r.isOpen then h ++ [e] else h

/-- The history after a driver's report of a read, of the bytes `bs` if of any. -/
def afterRead (r : Relay) (h : List Io) (bs : List UInt8) : IoResult → List Io
  | .bytes _ => whileOpen r h (.tcpRead bs)
  | .eof => whileOpen r h .tcpEof
  | .wouldBlock => h
  | .error => h

/-- The history after a driver's report of a write. -/
def afterWrite (r : Relay) (h : List Io) : IoResult → List Io
  | .bytes n => whileOpen r h (.tcpWritten (r.tcpTxData.take n))
  | .eof => h
  | .wouldBlock => h
  | .error => h

/-- A driver's report of a read: of bytes it put into the relay's slice, or of none. -/
structure Report (r : Relay) where
  /-- The bytes in the slice. -/
  bytes : List UInt8
  /-- What is reported. -/
  res : IoResult
  /-- No more than the relay offered. -/
  offered : Offered r bytes
  /-- The report counts the bytes. -/
  counts : res.count = bytes.length

/-- The relay with the bytes in its slice, not yet committed. -/
def Report.filled {r : Relay} (d : Report r) : Relay := { r with toQuic := r.toQuic.write d.bytes }

theorem Report.count_le {r : Relay} (d : Report r) : d.res.count ≤ d.filled.toQuic.space := by
  rw [d.counts, Report.filled, RingBuf.space_write]
  exact d.offered.1

/-- **The runs of a relay** started with `o`: every order of its entry points, with any
budgets and any state of the transport at each of them. -/
inductive Reaches {τ : Type} (T : Transport τ) (o : Opening) : Relay → List Io → Prop where
  /-- `start`. -/
  | start {r : Relay} (conn tcp stream : ℕ)
      (hs : Relay.start conn tcp stream o.tcpPrebuf o.tcpReadEof o.toTcpQueued o.preread = some r) : Reaches T o r []
  /-- `pump`. -/
  | pump {r : Relay} {h : List Io} (hr : Reaches T o r h) (t : τ) (budget : ℕ) :
      Reaches T o (r.pump T.record (t, h) budget).1 (r.pump T.record (t, h) budget).2.1.2
  /-- `tcp_rx_commit`. -/
  | tcpRx {r : Relay} {h : List Io} (hr : Reaches T o r h) (t : τ) (d : Report r) :
      Reaches T o (d.filled.tcpRxCommit T.record d.res (t, afterRead r h d.bytes d.res) d.count_le).1
        (d.filled.tcpRxCommit T.record d.res (t, afterRead r h d.bytes d.res) d.count_le).2.2
  /-- `tcp_tx_commit`. -/
  | tcpTx {r : Relay} {h : List Io} (hr : Reaches T o r h) (res : IoResult) :
      Reaches T o (r.tcpTxCommit res) (afterWrite r h res)
  /-- `on_stream_event`. -/
  | event {r : Relay} {h : List Io} (hr : Reaches T o r h) (ev : Event) : Reaches T o (r.onStreamEvent ev) h
  /-- `take_owed_shutdown`. -/
  | takeOwedShutdown {r : Relay} {h : List Io} (hr : Reaches T o r h) :
      Reaches T o r.takeOwedShutdown.1 (if r.takeOwedShutdown.2 then h ++ [.shutWr] else h)
  /-- `shutdown_done`. -/
  | shutdownDone {r : Relay} {h : List Io} (hr : Reaches T o r h) : Reaches T o r.shutdownDone h

section Runs

variable {τ : Type} {T : Transport τ} {o : Opening} {r : Relay} {h : List Io}

theorem start_inv {conn tcp stream : ℕ}
    (hs : Relay.start conn tcp stream o.tcpPrebuf o.tcpReadEof o.toTcpQueued o.preread = some r) : Inv o r [] := by
  unfold Relay.start at hs
  split at hs
  · cases hs
    constructor
    · exact lawful_nil
    · simp [acceptedBytes, forStream, readBytes]
    · simp [writtenBytes, forSocket, receivedBytes]
    · simp [EofSeen]
    · simp [FinSeen]
    · simp
    · simp
    · intro hf
      simp only at hf ⊢
      simp [hf]
    · intro hf
      cases hf
    · intro hw
      cases hw
  · cases hs

variable (i : Inv o r h)
include i

theorem tcpRxCommit_inv (t : τ) (d : Report r) :
    Inv o (d.filled.tcpRxCommit T.record d.res (t, afterRead r h d.bytes d.res) d.count_le).1
      (d.filled.tcpRxCommit T.record d.res (t, afterRead r h d.bytes d.res) d.count_le).2.2 := by
  -- what waits in the slice is not yet part of the buffer
  have hfilled : Inv o d.filled h := by
    refine ⟨i.lawful, ?_, i.tcp, i.eof, i.finSeen, i.finSent, i.shut, i.finished, ?_, i.written⟩
    · simpa [Report.filled] using i.quic
    · simpa [Report.filled] using i.drained
  have hforward : ∀ {r : Relay} {h : List Io}, Inv o r h →
      Inv o (r.pumpToQuic T.record (t, h) RELAY_BUF).1.checkClean (r.pumpToQuic T.record (t, h) RELAY_BUF).2.1.2 :=
    fun i => (pumpToQuic_inv (T := T) _ (t, _) RELAY_BUF i).checkClean
  obtain ⟨bs, res, ⟨hroom, heof⟩, hcount⟩ := d
  have hopen : (Report.filled ⟨bs, res, ⟨hroom, heof⟩, hcount⟩).isOpen = r.isOpen := rfl
  unfold Relay.tcpRxCommit
  rw [hopen]
  split
  · next ho =>
    cases res with
    | bytes n =>
      cases hcount
      simp only [afterRead, whileOpen, ho, if_true]
      exact hforward (i.tcpRead hroom heof)
    | eof =>
      simp only [afterRead, whileOpen, ho, if_true]
      exact hforward hfilled.tcpEof
    | wouldBlock => exact hfilled
    | error => exact hfilled.abort
  · next ho =>
    cases res <;> simp only [afterRead, whileOpen, ho] <;> exact hfilled

theorem tcpTxCommit_inv (res : IoResult) : Inv o (r.tcpTxCommit res) (afterWrite r h res) := by
  unfold Relay.tcpTxCommit
  split
  · next ho =>
    cases res with
    | bytes n =>
      simp only [afterWrite, whileOpen, ho, if_true]
      exact i.tcpWritten n
    | wouldBlock => exact i
    | eof => exact i.abort
    | error => exact i.abort
  · next ho =>
    cases res <;> simp only [afterWrite, whileOpen, ho] <;> exact i

theorem onStreamEvent_inv (ev : Event) : Inv o (r.onStreamEvent ev) h := by
  unfold Relay.onStreamEvent
  split
  · cases ev with
    | streamReadable s =>
      dsimp only
      split
      · refine i.congr rfl rfl rfl rfl rfl rfl fun hf => ?_
        have hf : r.finSeen = true := hf
        simp [hf]
      · exact i
    | streamWritable s =>
      dsimp only
      split
      · exact i.congr rfl rfl rfl rfl rfl rfl i.finished
      · exact i
    | streamClosed s =>
      dsimp only
      split_ifs
      · have hgone : Inv o { r with streamGone := true, streamReadable := false, resetProbe := false } h :=
          i.congr rfl rfl rfl rfl rfl rfl fun _ => rfl
        exact hgone.checkClean
      · exact i.abort
      · exact i
    | connClosed c =>
      dsimp only
      split
      · exact i.abort
      · exact i
    | other => exact i
  · exact i

theorem takeOwedShutdown_inv :
    Inv o r.takeOwedShutdown.1 (if r.takeOwedShutdown.2 then h ++ [.shutWr] else h) := by
  unfold Relay.takeOwedShutdown
  split
  · next howed =>
    simp only [Bool.and_eq_true] at howed
    exact i.shutWr howed.2
  · exact i

omit i

/-- **Every run keeps the invariant.** -/
theorem Reaches.inv (hr : Reaches T o r h) : Inv o r h := by
  induction hr with
  | start conn tcp stream hs => exact start_inv hs
  | pump hr t budget ih => exact pump_inv _ (t, _) budget ih
  | tcpRx hr t d ih => exact tcpRxCommit_inv ih t d
  | tcpTx hr res ih => exact tcpTxCommit_inv ih res
  | event hr ev ih => exact onStreamEvent_inv ih ev
  | takeOwedShutdown hr ih => exact takeOwedShutdown_inv ih
  | shutdownDone hr ih => exact ih.shutDown.checkClean

end Runs

/-- **Relay integrity.** On every run of a relay: the bytes the stream accepted are a
prefix of the bytes already read from TCP and those committed since; the bytes the socket
took are a prefix of the queued output, the preread and the stream's bytes. A FIN is sent
at most once, after TCP EOF and with every byte before it accepted. `SHUT_WR` is asked
for at most once, after the stream's FIN and with every byte written, and nothing is
written after it. -/
theorem relay_integrity {τ : Type} {T : Transport τ} {o : Opening} {r : Relay} {h : List Io} (hr : Reaches T o r h) :
    acceptedBytes h <+: o.tcpPrebuf ++ readBytes h ∧
    writtenBytes h <+: o.toTcpQueued ++ o.preread.bytes ++ receivedBytes h ∧
    (h.countP isFin ≤ 1 ∧ ∀ past bs future, h = past ++ .accepted bs true :: future →
      EofSeen o past ∧ acceptedBytes past ++ bs = o.tcpPrebuf ++ readBytes past) ∧
    (h.countP (· == .shutWr) ≤ 1 ∧ ∀ past future, h = past ++ .shutWr :: future →
      FinSeen o past ∧ writtenBytes past = o.toTcpQueued ++ o.preread.bytes ++ receivedBytes past ∧
      writtenBytes future = []) := by
  have i := hr.inv
  refine ⟨⟨_, i.quic⟩, ⟨_, i.tcp⟩, ⟨?_, ?_⟩, ?_, ?_⟩
  · refine i.lawful.countP_le_one _ fun past e he hp => ?_
    cases e <;> first | exact (he.2 hp).2.2 | cases hp
  · intro past bs future hh
    obtain ⟨-, hfin⟩ := i.lawful past _ future hh
    exact ⟨(hfin rfl).1, (hfin rfl).2.1⟩
  · refine i.lawful.countP_le_one _ fun past e he hp x hx => ?_
    rw [beq_iff_eq] at hp
    subst hp
    exact beq_false_of_ne fun hxe => he.2.2 (hxe ▸ hx)
  · intro past future hh
    obtain ⟨hseen, hwritten, -⟩ := i.lawful past _ future hh
    refine ⟨hseen, hwritten, List.flatMap_eq_nil_iff.mpr fun x hx => ?_⟩
    obtain ⟨past', hmem, hx⟩ := Lawful.later (hh ▸ i.lawful) hx
    cases x with
    | tcpWritten bs => exact not_not.mp fun hne => hx.2 hne hmem
    | _ => rfl

/-- A transport that takes everything and delivers nothing. -/
def sink : Transport Unit where
  streamSend _ data _ := (.ok data.length, ())
  streamRecv _ _ := (.error .blocked, ())
  send_le _ data _ n h := by cases h; exact le_rfl
  recv_le _ _ _ _ h := by cases h

/-- A relay of a finished stream with nothing for its socket asks for `SHUT_WR` at once. -/
theorem relay_integrity_shutWr :
    ∃ r, Reaches sink ⟨[7], false, [], ⟨[], true⟩⟩ r [.shutWr] ∧ [Io.shutWr].countP (· == .shutWr) ≤ 1 ∧
      FinSeen ⟨[7], false, [], ⟨[], true⟩⟩ [] := by
  obtain ⟨r, hstart⟩ : ∃ r, Relay.start 0 0 0 [7] false [] ⟨[], true⟩ = some r := ⟨_, rfl⟩
  have howed : r.takeOwedShutdown.2 = true := by cases hstart; rfl
  have hr := (Reaches.start (T := sink) (o := ⟨[7], false, [], ⟨[], true⟩⟩) 0 0 0 hstart).takeOwedShutdown
  rw [howed] at hr
  obtain ⟨-, -, -, hcount, hshut⟩ := relay_integrity hr
  exact ⟨_, hr, hcount, (hshut [] [] rfl).1⟩

end MqProxy.Runtime
