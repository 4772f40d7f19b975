import MqProxy.Runtime.RelayIntegrity
import MqProxy.Runtime.ShardState

/-!
# A relay between its start and its end

What a shard may rely on while it holds a relay: the relay stays with its stream and
connection (`Evolves`), its latches agree with each other (`Latched`), and it does not end by the
close of a stream that has carried both FINs (`Kept.streamGone_of_ended`): bytes for the
socket are then still in its buffer.
-/

namespace MqProxy.Runtime

namespace Relay

/-- The latches agree: the write side of the socket is shut down only after the peer's FIN
and with nothing left for the socket, nothing is read after the FIN, and a stream that is
gone has carried both FINs. -/
structure Latched (r : Relay) : Prop where
  shut : r.tcpWriteShut = true → r.finSeen = true ∧ r.toTcp.isEmpty = true
  fin : r.finSeen = true → r.streamReadable = false
  asked : r.shutWrRequested = r.tcpWriteShut
  gone : r.streamGone = true → r.finSeen = true ∧ r.finSent = true

/-- A relay that still runs has not finished both directions. -/
def Unfinished (r : Relay) : Prop := r.isOpen = true → r.finSent = true → r.tcpWriteShut = false

/-- What the operations of a relay keep. -/
structure Evolves (r r' : Relay) : Prop where
  conn : r'.conn = r.conn
  stream : r'.stream = r.stream
  gone : r'.streamGone = r.streamGone
  latched : r.Latched → r'.Latched

namespace Evolves

variable {r r' r'' : Relay}

theorem refl (r : Relay) : Evolves r r := ⟨rfl, rfl, rfl, fun h => h⟩

theorem trans (h : Evolves r r') (h' : Evolves r' r'') : Evolves r r'' where
  conn := h'.conn.trans h.conn
  stream := h'.stream.trans h.stream
  gone := h'.gone.trans h.gone
  latched hl := h'.latched (h.latched hl)

end Evolves

section Parts

variable (r : Relay)

/-- Other fields may change, and the FIN may be sent. -/
theorem Latched.congr {r r' : Relay} (h : r.Latched) (hshut : r'.tcpWriteShut = r.tcpWriteShut)
    (hfin : r'.finSeen = r.finSeen) (htoTcp : r'.toTcp = r.toTcp) (hreadable : r'.streamReadable = r.streamReadable)
    (hasked : r'.shutWrRequested = r.shutWrRequested) (hgone : r'.streamGone = r.streamGone)
    (hsent : r.finSent = true → r'.finSent = true) : r'.Latched where
  shut hs := by rw [hfin, htoTcp]; exact h.shut (hshut ▸ hs)
  fin hf := hreadable.trans (h.fin (hfin ▸ hf))
  asked := by rw [hasked, hshut, h.asked]
  gone hg := ⟨hfin.trans (h.gone (hgone ▸ hg)).1, hsent (h.gone (hgone ▸ hg)).2⟩

/-- As `congr`, where the operation is for the same stream. -/
theorem Evolves.congr {r r' : Relay} (hconn : r'.conn = r.conn) (hstream : r'.stream = r.stream)
    (hgone : r'.streamGone = r.streamGone) (hshut : r'.tcpWriteShut = r.tcpWriteShut)
    (hfin : r'.finSeen = r.finSeen) (htoTcp : r'.toTcp = r.toTcp) (hreadable : r'.streamReadable = r.streamReadable)
    (hasked : r'.shutWrRequested = r.shutWrRequested) (hsent : r.finSent = true → r'.finSent = true) : Evolves r r' :=
  ⟨hconn, hstream, hgone, fun h => h.congr hshut hfin htoTcp hreadable hasked hgone hsent⟩

theorem evolves_abort : Evolves r r.abort := by
  unfold abort
  split
  · exact .congr rfl rfl rfl rfl rfl rfl rfl rfl fun h => h
  · exact .refl r

theorem evolves_checkClean : Evolves r r.checkClean := by
  unfold checkClean
  split
  · exact .congr rfl rfl rfl rfl rfl rfl rfl rfl fun h => h
  · exact .refl r

theorem isOpen_abort : r.abort.isOpen = false := by
  unfold abort
  split
  · rfl
  · next h => simpa using h

theorem unfinished_abort : r.abort.Unfinished := by
  intro ho
  rw [isOpen_abort] at ho
  cases ho

/-- **What `check_clean` is for.** -/
theorem unfinished_checkClean {r : Relay} (h : r.Latched) : r.checkClean.Unfinished := by
  unfold checkClean
  split
  · intro ho
    cases ho
  · next hc =>
    intro ho hsent
    by_contra hshut
    rw [Bool.not_eq_false] at hshut
    simp [ho, hsent, hshut, (h.shut hshut).2] at hc

end Parts

section Pump

variable {τ : Type} {T : Transport τ} (r : Relay)

/-- A send changes nothing that a latch for the other direction depends on. -/
theorem evolves_sent (chunk : List UInt8) (fin : Bool) (n : ℕ) (h : chunk.length ≤ r.toQuic.len) :
    Evolves r (r.sent chunk fin n h) := by
  refine Evolves.congr rfl rfl rfl rfl rfl rfl rfl rfl fun hsent => ?_
  simp [sent, hsent]

theorem evolves_notWritable : Evolves r { r with streamWritable := false } :=
  .congr rfl rfl rfl rfl rfl rfl rfl rfl fun h => h

theorem evolves_pumpToQuicLoop (t : τ) (left : ℕ) (progressed : Bool) :
    Evolves r (r.pumpToQuicLoop T t left progressed).1 := by
  fun_induction Relay.pumpToQuicLoop T r t left progressed with
  | case1 r t left progressed hgo data chunk fin n t' hsend r' ih => exact (evolves_sent r _ _ _ _).trans ih
  | case2 r t left progressed hgo data chunk fin t' hsend ih => exact (evolves_notWritable r).trans ih
  | case3 r t left progressed hgo data chunk fin e t' hne hsend ih => exact (evolves_abort r).trans ih
  | case4 r t left progressed hgo => exact .refl r

theorem evolves_pumpToQuic (t : τ) (budget : ℕ) : Evolves r (r.pumpToQuic T t budget).1 := by
  have hloop := evolves_pumpToQuicLoop (T := T) r t budget false
  unfold pumpToQuic
  generalize r.pumpToQuicLoop T t budget false = x at hloop
  obtain ⟨r', t', progressed⟩ := x
  dsimp only at hloop ⊢
  split
  · split
    · exact hloop.trans (.congr rfl rfl rfl rfl rfl rfl rfl rfl fun _ => rfl)
    · exact hloop.trans (evolves_notWritable r')
    · exact hloop.trans (evolves_abort r')
  · exact hloop

/-- A receive happens before the FIN, so before the write side is shut down. -/
theorem evolves_received {r : Relay} (hread : r.streamReadable = true) (cap : ℕ) (bs : List UInt8) (fin : Bool)
    (h : cap ≤ r.toTcp.space) : Evolves r (r.received cap bs fin h) := by
  refine ⟨rfl, rfl, rfl, fun hl => ?_⟩
  have hfin : r.finSeen = false := by
    by_contra hf
    rw [Bool.not_eq_false] at hf
    simp [hl.fin hf] at hread
  have hshut : r.tcpWriteShut = false := by
    by_contra hs
    rw [Bool.not_eq_false] at hs
    simp [(hl.shut hs).1] at hfin
  refine ⟨fun hs => ?_, fun hf => ?_, hl.asked, fun hg => ?_⟩
  · have hs : r.tcpWriteShut = true := hs
    rw [hshut] at hs
    cases hs
  · have hf : (r.finSeen || fin) = true := hf
    rw [hfin, Bool.false_or] at hf
    simp [received, hf]
  · have hfin' := (hl.gone hg).1
    rw [hfin] at hfin'
    cases hfin'

theorem evolves_notReadable : Evolves r { r with streamReadable := false } :=
  ⟨rfl, rfl, rfl, fun h => ⟨h.shut, fun _ => rfl, h.asked, h.gone⟩⟩

theorem evolves_pumpToTcpLoop (t : τ) (left : ℕ) (progressed : Bool) :
    Evolves r (r.pumpToTcpLoop T t left progressed).1 := by
  fun_induction Relay.pumpToTcpLoop T r t left progressed with
  | case1 r t left progressed hgo cap bs fin t' hrecv r' ih =>
    simp only [Bool.and_eq_true] at hgo
    exact (evolves_received hgo.1.1.1.2 _ _ _ _).trans ih
  | case2 r t left progressed hgo cap t' hrecv ih => exact (evolves_notReadable r).trans ih
  | case3 r t left progressed hgo cap e t' hne hrecv ih => exact (evolves_abort r).trans ih
  | case4 r t left progressed hgo => exact .refl r

theorem evolves_probe (t : τ) : Evolves r (r.probe T t).1 := by
  have hclear : Evolves r { r with resetProbe := false } := .congr rfl rfl rfl rfl rfl rfl rfl rfl fun h => h
  unfold probe
  split
  · split
    · exact ⟨rfl, rfl, rfl, fun h => ⟨fun hs => ⟨rfl, (h.shut hs).2⟩, fun _ => rfl, h.asked,
        fun hg => ⟨rfl, (h.gone hg).2⟩⟩⟩
    · exact hclear
    · exact hclear
    · exact hclear.trans (evolves_abort _)
  · exact .refl r

theorem evolves_pump (t : τ) (budget : ℕ) : Evolves r (r.pump T t budget).1 :=
  (evolves_probe r t).trans <| (evolves_pumpToQuic _ _ budget).trans <|
    (evolves_pumpToTcpLoop _ _ budget false).trans (evolves_checkClean _)

theorem unfinished_pump {r : Relay} (h : r.Latched) (t : τ) (budget : ℕ) : (r.pump T t budget).1.Unfinished :=
  unfinished_checkClean <| (evolves_pumpToTcpLoop _ _ budget false).latched <|
    (evolves_pumpToQuic _ _ budget).latched ((evolves_probe r t).latched h)

theorem evolves_tcpRxCommit (res : IoResult) (t : τ) (h : res.count ≤ r.toQuic.space) :
    Evolves r (r.tcpRxCommit T res t h).1 := by
  have hforward (r' : Relay) (hr' : Evolves r r') : Evolves r (r'.pumpToQuic T t RELAY_BUF).1.checkClean :=
    hr'.trans ((evolves_pumpToQuic r' t RELAY_BUF).trans (evolves_checkClean _))
  unfold tcpRxCommit
  dsimp only
  split
  · cases res with
    | bytes n => exact hforward _ (.congr rfl rfl rfl rfl rfl rfl rfl rfl fun h => h)
    | eof => exact hforward _ (.congr rfl rfl rfl rfl rfl rfl rfl rfl fun h => h)
    | wouldBlock => exact .refl r
    | error => exact evolves_abort r
  · exact .refl r

theorem unfinished_tcpRxCommit {r : Relay} (hl : r.Latched) (hu : r.Unfinished) (res : IoResult) (t : τ)
    (h : res.count ≤ r.toQuic.space) : (r.tcpRxCommit T res t h).1.Unfinished := by
  have hforward (r' : Relay) (hr' : r'.Latched) : (r'.pumpToQuic T t RELAY_BUF).1.checkClean.Unfinished :=
    unfinished_checkClean ((evolves_pumpToQuic r' t RELAY_BUF).latched hr')
  unfold tcpRxCommit
  dsimp only
  split
  · cases res with
    | bytes n => exact hforward _ (hl.congr rfl rfl rfl rfl rfl rfl fun h => h)
    | eof => exact hforward _ (hl.congr rfl rfl rfl rfl rfl rfl fun h => h)
    | wouldBlock => exact hu
    | error => exact unfinished_abort r
  · exact hu

end Pump

/-! ### The socket and the events -/

section Events

variable {r : Relay}

theorem isEmpty_consume {b : RingBuf} (hb : b.isEmpty = true) (n : ℕ) (h : n ≤ b.len) :
    (b.consume n h).isEmpty = true := by
  rw [RingBuf.isEmpty_iff] at hb ⊢
  rw [RingBuf.readSlice_consume, hb, List.drop_nil]

theorem evolves_tcpTxCommit (r : Relay) (res : IoResult) : Evolves r (r.tcpTxCommit res) := by
  unfold tcpTxCommit
  split
  · cases res with
    | bytes n =>
      refine ⟨rfl, rfl, rfl, fun h => ⟨fun hs => ⟨(h.shut hs).1, ?_⟩, h.fin, h.asked, h.gone⟩⟩
      exact isEmpty_consume (h.shut hs).2 (min n r.toTcp.len) (Nat.min_le_right _ _)
    | wouldBlock => exact .refl r
    | eof => exact evolves_abort r
    | error => exact evolves_abort r
  · exact .refl r

theorem unfinished_tcpTxCommit (h : r.Unfinished) (res : IoResult) : (r.tcpTxCommit res).Unfinished := by
  unfold tcpTxCommit
  split
  · cases res with
    | bytes n => exact h
    | wouldBlock => exact h
    | eof => exact unfinished_abort r
    | error => exact unfinished_abort r
  · exact h

/-- What an event does to a relay. -/
inductive Hears (r : Relay) : Event → Relay → Prop
  /-- It is not for this relay, or comes too late. -/
  | ignored {ev : Event} : Hears r ev r
  | readable {s : ℕ} (probe : Bool) :
      Hears r (.streamReadable s) { r with streamReadable := !r.finSeen, resetProbe := probe }
  | writable {s : ℕ} : Hears r (.streamWritable s) { r with streamWritable := true }
  /-- The stream closes after both FINs. -/
  | gone : r.finSeen = true → r.finSent = true →
      Hears r (.streamClosed r.stream)
        (checkClean { r with streamGone := true, streamReadable := false, resetProbe := false })
  /-- The stream closes before both FINs. -/
  | cut : (r.finSeen && r.finSent) = false → Hears r (.streamClosed r.stream) r.abort
  | connClosed : Hears r (.connClosed r.conn) r.abort

theorem hears (r : Relay) (ev : Event) : r.Hears ev (r.onStreamEvent ev) := by
  unfold onStreamEvent
  split
  · cases ev with
    | streamReadable s =>
      dsimp only
      split
      · exact .readable _
      · exact .ignored
    | streamWritable s =>
      dsimp only
      split
      · exact .writable
      · exact .ignored
    | streamClosed s =>
      dsimp only
      split_ifs with hs hfin
      · rw [Bool.and_eq_true] at hfin
        exact hs ▸ .gone hfin.1 hfin.2
      · exact hs ▸ .cut (Bool.not_eq_true _ ▸ hfin)
      · exact .ignored
    | connClosed c =>
      dsimp only
      split
      · next hc => exact hc ▸ .connClosed
      · exact .ignored
    | other => exact .ignored
  · exact .ignored

variable {r' : Relay} {ev : Event}

theorem Hears.conn (h : r.Hears ev r') : r'.conn = r.conn := by
  cases h with
  | ignored => rfl
  | readable probe => rfl
  | writable => rfl
  | gone hseen hsent => exact (evolves_checkClean _).conn
  | cut hfin => exact (evolves_abort r).conn
  | connClosed => exact (evolves_abort r).conn

theorem Hears.stream (h : r.Hears ev r') : r'.stream = r.stream := by
  cases h with
  | ignored => rfl
  | readable probe => rfl
  | writable => rfl
  | gone hseen hsent => exact (evolves_checkClean _).stream
  | cut hfin => exact (evolves_abort r).stream
  | connClosed => exact (evolves_abort r).stream

theorem latched_gone (h : r.Latched) (hseen : r.finSeen = true) (hsent : r.finSent = true) :
    Latched { r with streamGone := true, streamReadable := false, resetProbe := false } :=
  ⟨h.shut, fun _ => rfl, h.asked, fun _ => ⟨hseen, hsent⟩⟩

theorem Hears.latched (h : r.Hears ev r') (hl : r.Latched) : r'.Latched := by
  cases h with
  | ignored => exact hl
  | readable probe =>
    refine ⟨hl.shut, fun hf => ?_, hl.asked, hl.gone⟩
    have hf : r.finSeen = true := hf
    simp [hf]
  | writable => exact ⟨hl.shut, hl.fin, hl.asked, hl.gone⟩
  | gone hseen hsent => exact (evolves_checkClean _).latched (latched_gone hl hseen hsent)
  | cut hfin => exact (evolves_abort r).latched hl
  | connClosed => exact (evolves_abort r).latched hl

theorem Hears.unfinished (h : r.Hears ev r') (hl : r.Latched) (hu : r.Unfinished) : r'.Unfinished := by
  cases h with
  | ignored => exact hu
  | readable probe => exact hu
  | writable => exact hu
  | gone hseen hsent => exact unfinished_checkClean (latched_gone hl hseen hsent)
  | cut hfin => exact unfinished_abort r
  | connClosed => exact unfinished_abort r

/-- A stream is gone by its `StreamClosed`. -/
theorem Hears.streamGone (h : r.Hears ev r') :
    r'.streamGone = r.streamGone ∨ r'.streamGone = true ∧ ev = .streamClosed r.stream := by
  cases h with
  | ignored => exact Or.inl rfl
  | readable probe => exact Or.inl rfl
  | writable => exact Or.inl rfl
  | gone hseen hsent => exact Or.inr ⟨(evolves_checkClean _).gone, rfl⟩
  | cut hfin => exact Or.inl (evolves_abort r).gone
  | connClosed => exact Or.inl (evolves_abort r).gone

theorem isOpen_onStreamEvent_connClosed (r : Relay) : (r.onStreamEvent (.connClosed r.conn)).isOpen = false := by
  unfold onStreamEvent
  split
  · simp [isOpen_abort]
  · next h => simpa using h

/-- After its `StreamClosed` a relay has ended, or knows that the stream is gone. -/
theorem onStreamEvent_streamClosed (r : Relay) (ho : r.isOpen = true) :
    (r.onStreamEvent (.streamClosed r.stream)).isOpen = false ∨
      (r.onStreamEvent (.streamClosed r.stream)).streamGone = true := by
  simp only [onStreamEvent, ho, if_true]
  split
  · exact Or.inr (evolves_checkClean _).gone
  · exact Or.inl (isOpen_abort r)

end Events

/-! ### Settling -/

section Settling

open ShardState (settled)

/-- A relay as the shard keeps it. It runs, and owes the socket a shutdown only if it has
just started, before it sent its FIN. -/
structure Kept (r : Relay) : Prop where
  isOpen : r.isOpen = true
  latched : r.Latched
  unfinished : r.Unfinished
  owed : r.finSent = true → r.shutWrOwed = false

variable {r r' : Relay} {ev : Event}

theorem settled_of_owed (ho : r.isOpen = true) (h : r.shutWrOwed = true) :
    settled r = (checkClean { r with shutWrRequested := true, tcpWriteShut := true }, true) := by
  simp [settled, takeOwedShutdown, ho, h, shutdownDone]

theorem settled_of_not_owed (h : (r.isOpen && r.shutWrOwed) = false) : settled r = (r, false) := by
  simp [settled, takeOwedShutdown, h]

theorem evolves_settled (r : Relay) : Evolves r (settled r).1 := by
  cases h : r.isOpen && r.shutWrOwed with
  | false =>
    rw [settled_of_not_owed h]
    exact .refl r
  | true =>
    rw [Bool.and_eq_true] at h
    rw [settled_of_owed h.1 h.2]
    have howed := h.2
    simp only [shutWrOwed, Bool.and_eq_true] at howed
    have hshut : Evolves r { r with shutWrRequested := true, tcpWriteShut := true } :=
      ⟨rfl, rfl, rfl, fun hl => ⟨fun _ => ⟨howed.1.1.1, howed.1.1.2⟩, hl.fin, rfl, hl.gone⟩⟩
    exact hshut.trans (evolves_checkClean _)

theorem isOpen_of_settled (h : (settled r).1.isOpen = true) : r.isOpen = true := by
  by_contra ho
  rw [Bool.not_eq_true] at ho
  rw [settled_of_not_owed (by rw [ho, Bool.false_and]), ho] at h
  cases h

/-- **A relay that was settled** may be kept, or has ended. -/
theorem kept_settled (hl : r.Latched) (hu : r.Unfinished) (ho : (settled r).1.isOpen = true) :
    Kept (settled r).1 := by
  refine ⟨ho, (evolves_settled r).latched hl, ?_, fun _ => ?_⟩
  · cases h : r.isOpen && r.shutWrOwed with
    | false =>
      rw [settled_of_not_owed h]
      exact hu
    | true =>
      rw [Bool.and_eq_true] at h
      rw [settled_of_owed h.1 h.2]
      have howed := h.2
      simp only [shutWrOwed, Bool.and_eq_true] at howed
      exact unfinished_checkClean ⟨fun _ => ⟨howed.1.1.1, howed.1.1.2⟩, hl.fin, rfl, hl.gone⟩
  · cases h : r.isOpen && r.shutWrOwed with
    | false =>
      rw [settled_of_not_owed h]
      rwa [isOpen_of_settled ho, Bool.true_and] at h
    | true =>
      rw [Bool.and_eq_true] at h
      rw [settled_of_owed h.1 h.2]
      unfold checkClean
      split <;> simp [shutWrOwed]

/-- A relay that has seen both FINs still has bytes for the socket. -/
theorem Kept.isEmpty_toTcp (h : r.Kept) (hseen : r.finSeen = true) (hsent : r.finSent = true) :
    r.toTcp.isEmpty = false := by
  by_contra he
  rw [Bool.not_eq_false] at he
  have hshut := h.unfinished h.isOpen hsent
  have howed := h.owed hsent
  rw [shutWrOwed, hseen, he, hshut, h.latched.asked, hshut] at howed
  cases howed

/-- Settling does not end a relay that may be kept. -/
theorem Kept.isOpen_settled (ho : r.isOpen = true) (howed : r.finSent = true → r.shutWrOwed = false) :
    (settled r).1.isOpen = true := by
  cases h : r.shutWrOwed with
  | false => rwa [settled_of_not_owed (by rw [h, Bool.and_false])]
  | true =>
    have hsent : r.finSent = false := by
      by_contra hsent
      rw [howed (Bool.not_eq_false _ ▸ hsent)] at h
      cases h
    have hclean : checkClean { r with shutWrRequested := true, tcpWriteShut := true } =
        { r with shutWrRequested := true, tcpWriteShut := true } := by
      simp [checkClean, hsent]
    rw [settled_of_owed ho h, hclean]
    exact ho

/-- **An event of its stream does not end a relay whose stream is gone**, and a relay whose
stream becomes gone by the event goes on. -/
theorem Kept.streamGone_of_ended (h : r.Kept) (hears : r.Hears ev r') (hev : ev ≠ .connClosed r.conn)
    (hended : (settled r').1.isOpen = false) : (settled r').1.streamGone = false := by
  have hsame (r' : Relay) (ho : r'.isOpen = true) (howed : r'.finSent = true → r'.shutWrOwed = false)
      (hended : (settled r').1.isOpen = false) : (settled r').1.streamGone = false := by
    rw [Kept.isOpen_settled ho howed] at hended
    cases hended
  cases hears with
  | ignored => exact hsame r h.isOpen h.owed hended
  | readable probe => exact hsame _ h.isOpen h.owed hended
  | writable => exact hsame _ h.isOpen h.owed hended
  | gone hseen hsent =>
    have hne := h.isEmpty_toTcp hseen hsent
    have hclean : checkClean { r with streamGone := true, streamReadable := false, resetProbe := false } =
        { r with streamGone := true, streamReadable := false, resetProbe := false } := by
      simp [checkClean, hne]
    rw [hclean] at hended ⊢
    exact hsame _ h.isOpen h.owed hended
  | cut hfin =>
    have habort : settled r.abort = (r.abort, false) := settled_of_not_owed (by rw [isOpen_abort, Bool.false_and])
    rw [habort, (evolves_abort r).gone]
    by_contra hg
    rw [Bool.not_eq_false] at hg
    simp [h.latched.gone hg] at hfin
  | connClosed => exact absurd rfl hev

/-- A relay that starts may be kept. -/
theorem kept_start {conn tcp stream : ℕ} {tcpPrebuf toTcpQueued : List UInt8} {tcpReadEof : Bool}
    {preread : StreamPreread} (h : start conn tcp stream tcpPrebuf tcpReadEof toTcpQueued preread = some r) :
    r.conn = conn ∧ r.stream = stream ∧ r.streamGone = false ∧ r.Kept := by
  unfold start at h
  split at h
  · cases h
    refine ⟨rfl, rfl, rfl, rfl, ⟨by simp, fun hf => ?_, rfl, by simp⟩, fun _ => by simp, by simp⟩
    have hf : preread.fin = true := hf
    simp [hf]
  · cases h

end Settling

end Relay

end MqProxy.Runtime
