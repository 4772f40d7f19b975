import MqProxy.Library.History
import MqProxy.Runtime.ShardFrame

/-!
# The byte streams of a socket, and its end

What an app may rely on for a TCP socket that it owns. `Ledger` is what the log says of a
socket: what was read and consumed, what was accepted for writing and written, who has let
go. `Permits` says what may happen to a socket with a given past, in these terms only; it is
the contract of the socket. A socket is `Booked` when its log keeps to the contract and its
entry in the table agrees with the ledger. Each step keeps it so (`Booked.step`), whoever
takes the step and whatever else the shard does.

The driver is one that keeps to the buffer it was given: it reports no more bytes read than
there was room for.
-/

namespace MqProxy.Runtime

open MqProxy.Library

/-- What the log says of a socket. -/
structure Ledger where
  /-- The app was given the socket. -/
  born : Bool
  read : List UInt8
  consumed : ℕ
  /-- `tcp_set_rx_limit`. -/
  limit : ℕ
  eof : Bool
  /-- The bytes of the writes that were accepted. -/
  accepted : List UInt8
  written : List UInt8
  /-- `on_tcp_writable` is owed: a write was refused with bytes queued. -/
  owed : Bool
  /-- The app closed or aborted the socket. -/
  letGo : Bool
  relayed : Bool
  /-- How many times `TcpClose` was requested. -/
  closes : ℕ
  deriving DecidableEq

namespace Ledger

/-- A socket of which nothing is known. -/
def blank : Ledger where
  born := false
  read := []
  consumed := 0
  limit := TCP_BUF
  eof := false
  accepted := []
  written := []
  owed := false
  letGo := false
  relayed := false
  closes := 0

/-- What an entry of the log adds. -/
def note (l : Ledger) : Edge → Ledger
  | .callback (.accepted _ _) => { l with born := true }
  | .callback (.dialResult _ (.ok _)) => { l with born := true }
  | .callback (.tcpEnd _ .readEof) => { l with eof := true }
  | .callback (.tcpWritable _) => { l with owed := false }
  | .tcpRead _ bs => { l with read := l.read ++ bs }
  | .tcpConsumed _ n => { l with consumed := l.consumed + n }
  | .tcpWritten _ bs => { l with written := l.written ++ bs }
  | .call (.tcpSetRxLimit _ n) _ => { l with limit := if l.born then min n TCP_BUF else l.limit }
  | .call (.tcpWrite _ bytes) .ok => { l with accepted := l.accepted ++ bytes }
  | .call (.tcpWrite _ _) .failed => { l with owed := l.owed || decide (l.written ≠ l.accepted) }
  | .call (.tcpClose _) _ => { l with letGo := l.letGo || l.born }
  | .call (.tcpAbort _) _ => { l with letGo := l.letGo || l.born }
  | .call (.startRelay _ _ (some _) _) .ok => { l with relayed := true }
  | .request (.tcpClose _ _) => { l with closes := l.closes + 1 }
  | _ => l

/-- The app has the socket: it was given it, and no end of it has come. -/
structure Live (l : Ledger) : Prop where
  born : l.born = true
  closes : l.closes = 0
  letGo : l.letGo = false
  relayed : l.relayed = false

end Ledger

/-- The ledger of a trace. -/
def ledger (t : List Edge) : Ledger := t.foldl Ledger.note .blank

theorem ledger_append (t es : List Edge) : ledger (t ++ es) = es.foldl Ledger.note (ledger t) :=
  List.foldl_append

theorem ledger_snoc (t : List Edge) (x : Edge) : ledger (t ++ [x]) = (ledger t).note x := ledger_append t [x]

/-- **The contract of a socket**: what may come after a given past. -/
def Permits (tcp : ℕ) (past : List Edge) : Edge → Prop
  | .callback (.accepted _ _) => ledger past = .blank
  | .callback (.dialResult _ _) => ledger past = .blank
  | .callback (.tcpData _) => (ledger past).Live
  | .callback (.tcpEnd _ .readEof) => (ledger past).Live
  /- The one callback after a `TcpClose`: it reports the error that the shard closed the
  socket for, and comes right after the request. -/
  | .callback (.tcpEnd _ (.error _)) =>
    ∃ before, past = before ++ [.request (.tcpClose tcp true)] ∧ (ledger before).Live
  | .callback (.tcpWritable _) =>
    (ledger past).Live ∧ (ledger past).owed = true ∧ (ledger past).written = (ledger past).accepted
  | .request (.tcpClose _ abort) =>
    (ledger past).closes = 0 ∧
      (abort = false → (ledger past).relayed = true ∨ (ledger past).written = (ledger past).accepted)
  | .request _ => (ledger past).closes = 0
  | .tcpRead _ bs => (ledger past).Live ∧ (ledger past).read.length + bs.length ≤ (ledger past).consumed + (ledger past).limit
  | .tcpConsumed _ n => (ledger past).consumed + n ≤ (ledger past).read.length
  | .tcpWritten _ bs => (ledger past).written ++ bs <+: (ledger past).accepted
  | .call (.tcpWrite _ bytes) .ok =>
    (ledger past).accepted.length + bytes.length ≤ (ledger past).written.length + TCP_BUF
  | _ => True

/-- The entry of a socket that the app owns agrees with the ledger. What the app can no
longer see once it has let go need not. -/
structure Ledger.OfApp (l : Ledger) (e : AppTcp) : Prop where
  born : l.born = true
  closes : l.closes = 0
  relayed : l.relayed = false
  letGo : e.closing = false → l.letGo = false
  consumed : l.consumed ≤ l.read.length
  rx : e.rx = l.read.drop l.consumed
  limit : e.closing = false → e.rxLimit = l.limit
  eof : e.readEof = l.eof
  tx : l.accepted = l.written ++ e.tx
  queued : e.tx.length ≤ TCP_BUF
  owed : e.closing = false → e.wantWritable = l.owed
  waits : e.closing = false → e.wantWritable = true → e.tx ≠ []

/-- The table agrees with the ledger. -/
def Ledger.Agrees (l : Ledger) : Option TcpEntry → Prop
  | none => l = .blank ∨ l.born = true ∧ l.closes = 1 ∧ l.written <+: l.accepted
  | some (.app e) => l.OfApp e
  | some (.relay _) => l.born = true ∧ l.closes = 0 ∧ l.relayed = true ∧ l.written <+: l.accepted

/-- **A socket as it should be.** -/
structure Booked (tcp : ℕ) (v : SockView) : Prop where
  lawful : Lawful (Permits tcp) v.trace
  /-- The app does not have a socket before its id was given out. -/
  fresh : v.next ≤ tcp → ledger v.trace = .blank
  agrees : (ledger v.trace).Agrees v.entry

section Booked

variable {Fits : AppTcp → List UInt8 → Prop} {tcp n : ℕ} {entry entry' : Option TcpEntry} {t : List Edge}
  {l : Ledger} {e : AppTcp}

theorem Ledger.OfApp.live (h : l.OfApp e) (hc : e.closing = false) : l.Live :=
  ⟨h.born, h.closes, h.letGo hc, h.relayed⟩

theorem Ledger.OfApp.written_le (h : l.OfApp e) : l.written <+: l.accepted := ⟨e.tx, h.tx.symm⟩

/-- Bytes are queued exactly if not all that was accepted is written. -/
theorem Ledger.OfApp.written_eq (h : l.OfApp e) : l.written = l.accepted ↔ e.tx = [] := by
  rw [h.tx]
  exact List.self_eq_append_right

/-- An id that was given out is below the next one. -/
theorem Booked.not_fresh (h : Booked tcp ⟨n, entry, t⟩) (hborn : (ledger t).born = true) : ¬n ≤ tcp := by
  intro hle
  have hblank : ledger t = .blank := h.fresh hle
  rw [hblank] at hborn
  cases hborn

/-- Something happens to a socket that was given out. -/
theorem Booked.append (h : Booked tcp ⟨n, entry, t⟩) (hborn : (ledger t).born = true) {es : List Edge}
    (hlaw : Lawful (Permits tcp) (t ++ es)) (hag : (ledger (t ++ es)).Agrees entry') :
    Booked tcp ⟨n, entry', t ++ es⟩ :=
  ⟨hlaw, fun hle => absurd hle (h.not_fresh hborn), hag⟩

/-- One entry of the log. -/
theorem Booked.snoc (h : Booked tcp ⟨n, entry, t⟩) (hborn : (ledger t).born = true) {x : Edge} (hx : Permits tcp t x)
    (hag : ((ledger t).note x).Agrees entry') : Booked tcp ⟨n, entry', t ++ [x]⟩ := by
  refine h.append hborn (lawful_snoc.mpr ⟨h.lawful, hx⟩) ?_
  rwa [ledger_snoc]

/-- Two entries of the log. -/
theorem Booked.snoc₂ (h : Booked tcp ⟨n, entry, t⟩) (hborn : (ledger t).born = true) {x y : Edge}
    (hx : Permits tcp t x) (hy : Permits tcp (t ++ [x]) y) (hag : (((ledger t).note x).note y).Agrees entry') :
    Booked tcp ⟨n, entry', t ++ [x, y]⟩ := by
  refine h.append hborn ?_ (by rwa [ledger_append])
  rw [show t ++ [x, y] = t ++ [x] ++ [y] by simp]
  exact lawful_snoc.mpr ⟨lawful_snoc.mpr ⟨h.lawful, hx⟩, hy⟩

/-- A call that says nothing new of a socket. -/
theorem Booked.silent (h : Booked tcp ⟨n, entry, t⟩) {x : Edge} (hx : Permits tcp t x)
    (hnote : (ledger t).note x = ledger t) : Booked tcp ⟨n, entry, t ++ [x]⟩ where
  lawful := lawful_snoc.mpr ⟨h.lawful, hx⟩
  fresh hle := by
    rw [ledger_snoc, hnote]
    exact h.fresh hle
  agrees := by
    rw [ledger_snoc, hnote]
    exact h.agrees

/-- A call on a socket that the app does not have: the ledger may say that it was made. -/
theorem Booked.ignored (h : Booked tcp ⟨n, entry, t⟩) (ho : ¬Owned entry) {x : Edge} (hx : Permits tcp t x)
    (hblank : Ledger.note .blank x = .blank) {limit : ℕ} {owed letGo : Bool}
    (hnote : (ledger t).note x = { ledger t with limit, owed, letGo }) : Booked tcp ⟨n, entry, t ++ [x]⟩ where
  lawful := lawful_snoc.mpr ⟨h.lawful, hx⟩
  fresh hle := by
    have hfresh : ledger t = .blank := h.fresh hle
    rw [ledger_snoc, hfresh, hblank]
  agrees := by
    rw [ledger_snoc]
    have hag := h.agrees
    cases entry with
    | none =>
      rcases hag with hag | ⟨hborn, hcloses, hwritten⟩
      · have hag : ledger t = .blank := hag
        exact Or.inl (by rw [hag, hblank])
      · rw [hnote]
        exact Or.inr ⟨hborn, hcloses, hwritten⟩
    | some e =>
      rw [hnote]
      cases e with
      | relay r => exact hag
      | app e =>
        have hclosing : e.closing = true := by
          by_contra hc
          exact ho ⟨e, rfl, Bool.not_eq_true _ ▸ hc⟩
        have hag : (ledger t).OfApp e := hag
        have hno (P : Prop) (hc : e.closing = false) : P := by
          rw [hclosing] at hc
          cases hc
        exact ⟨hag.born, hag.closes, hag.relayed, hno _, hag.consumed, hag.rx, hno _, hag.eof, hag.tx, hag.queued,
          hno _, hno _⟩

/-! ### What the app and the driver do with a socket -/

/-- The entry changes, and the log does not. -/
theorem Booked.replace {e' : AppTcp} (h : Booked tcp ⟨n, some (.app e), t⟩)
    (hag : (ledger t).OfApp e → (ledger t).OfApp e') : Booked tcp ⟨n, some (.app e'), t⟩ :=
  ⟨h.lawful, h.fresh, hag h.agrees⟩

theorem ofApp_new : Ledger.OfApp { Ledger.blank with born := true } .new := by
  constructor <;> simp [Ledger.blank, AppTcp.new]

theorem Booked.born {c : Callback} (h : Booked tcp ⟨tcp, entry, t⟩) (hc : c.bears tcp) :
    Booked tcp ⟨tcp + 1, some (.app .new), t ++ [.callback c]⟩ := by
  have hblank : ledger t = .blank := h.fresh le_rfl
  have hnote : Ledger.note .blank (.callback c) = { Ledger.blank with born := true } := by
    unfold Callback.bears at hc
    split at hc
    · rfl
    · rfl
    · exact hc.elim
  refine ⟨lawful_snoc.mpr ⟨h.lawful, ?_⟩, fun hle => absurd hle (Nat.not_succ_le_self tcp), ?_⟩
  · unfold Callback.bears at hc
    split at hc
    · exact hblank
    · exact hblank
    · exact hc.elim
  · show (ledger (t ++ [.callback c])).OfApp .new
    rw [ledger_snoc, hblank, hnote]
    exact ofApp_new

/-- The calls that have no effect on what is kept of a socket. -/
theorem Booked.called {c : CxCall} {a : Answer} (h : Booked tcp ⟨n, entry, t⟩) (hc : c.inert a) :
    Booked tcp ⟨n, entry, t ++ [.call c a]⟩ := by
  unfold CxCall.inert at hc
  split at hc
  · exact h.silent trivial rfl
  · exact h.silent trivial rfl
  · exact h.silent trivial rfl
  · exact h.silent trivial rfl
  · next tcp s conn pre =>
    cases conn <;> exact h.silent trivial rfl
  · exact hc.elim

/-- The calls by which the app lets go of a socket, once they have had their effect. -/
theorem Booked.released {c : CxCall} {a : Answer} (h : Booked tcp ⟨n, entry, t⟩) (hc : c.releases a)
    (ho : ¬Owned entry) : Booked tcp ⟨n, entry, t ++ [.call c a]⟩ := by
  unfold CxCall.releases at hc
  split at hc
  · exact h.ignored ho trivial rfl rfl
  · exact h.ignored ho trivial rfl rfl
  · exact h.silent trivial rfl
  · exact hc.elim

theorem Booked.setRxLimit (h : Booked tcp ⟨n, some (.app e), t⟩) (k : ℕ) :
    Booked tcp ⟨n, some (.app { e with rxLimit := min k TCP_BUF }), t ++ [.call (.tcpSetRxLimit tcp k) .unit]⟩ := by
  have hag : (ledger t).OfApp e := h.agrees
  refine h.snoc hag.born trivial ?_
  refine ⟨hag.born, hag.closes, hag.relayed, hag.letGo, hag.consumed, hag.rx, fun _ => ?_, hag.eof, hag.tx,
    hag.queued, hag.owed, hag.waits⟩
  simp [Ledger.note, hag.born]

/-- A request that is not a close. -/
theorem Booked.asked {r : IoRequest} (h : Booked tcp ⟨n, entry, t⟩) (hborn : (ledger t).born = true)
    (hcloses : (ledger t).closes = 0) (hr : ∀ tcp abort, r ≠ .tcpClose tcp abort) :
    Booked tcp ⟨n, entry, t ++ [.request r]⟩ := by
  have hag := h.agrees
  cases r with
  | tcpClose tcp abort => exact absurd rfl (hr tcp abort)
  | _ => exact h.snoc hborn hcloses hag

variable (h : Booked tcp ⟨n, some (.app e), t⟩)
include h

theorem Booked.consumed {k : ℕ} (hk : k ≤ e.rx.length) :
    Booked tcp ⟨n, some (.app { e with rx := e.rx.drop k }), t ++ [.tcpConsumed tcp k]⟩ := by
  have hag : (ledger t).OfApp e := h.agrees
  have hle : (ledger t).consumed + k ≤ (ledger t).read.length := by
    rw [hag.rx, List.length_drop] at hk
    have := hag.consumed
    omega
  refine h.snoc hag.born hle ?_
  refine ⟨hag.born, hag.closes, hag.relayed, hag.letGo, hle, ?_, hag.limit, hag.eof, hag.tx, hag.queued, hag.owed,
    hag.waits⟩
  show e.rx.drop k = (ledger t).read.drop ((ledger t).consumed + k)
  rw [hag.rx, List.drop_drop]

theorem Booked.accepted {bytes : List UInt8}
    (hfits : e.tx.length + bytes.length ≤ TCP_BUF) :
    Booked tcp ⟨n, some (.app { e with tx := e.tx ++ bytes }), t ++ [.call (.tcpWrite tcp bytes) .ok]⟩ := by
  have hag : (ledger t).OfApp e := h.agrees
  refine h.snoc hag.born ?_ ?_
  · show (ledger t).accepted.length + bytes.length ≤ (ledger t).written.length + TCP_BUF
    rw [hag.tx, List.length_append]
    omega
  · refine ⟨hag.born, hag.closes, hag.relayed, hag.letGo, hag.consumed, hag.rx, hag.limit, hag.eof, ?_, ?_, hag.owed,
      fun hc hw => ?_⟩
    · show (ledger t).accepted ++ bytes = (ledger t).written ++ (e.tx ++ bytes)
      rw [hag.tx, List.append_assoc]
    · show (e.tx ++ bytes).length ≤ TCP_BUF
      rwa [List.length_append]
    · exact List.append_ne_nil_of_left_ne_nil (hag.waits hc hw) bytes

theorem Booked.refused (bytes : List UInt8) :
    Booked tcp ⟨n, some (.app { e with wantWritable := e.wantWritable || !e.tx.isEmpty }),
      t ++ [.call (.tcpWrite tcp bytes) .failed]⟩ := by
  have hag : (ledger t).OfApp e := h.agrees
  refine h.snoc hag.born trivial ?_
  refine ⟨hag.born, hag.closes, hag.relayed, hag.letGo, hag.consumed, hag.rx, hag.limit, hag.eof, hag.tx, hag.queued,
    fun hc => ?_, fun hc hw => ?_⟩
  · have hqueued : (!e.tx.isEmpty) = decide ((ledger t).written ≠ (ledger t).accepted) := by
      rw [Bool.eq_iff_iff, decide_eq_true_iff, Ne, hag.written_eq]
      simp
    show (e.wantWritable || !e.tx.isEmpty) = ((ledger t).owed || decide ((ledger t).written ≠ (ledger t).accepted))
    rw [hag.owed hc, hqueued]
  · have hw : (e.wantWritable || !e.tx.isEmpty) = true := hw
    rcases Bool.or_eq_true_iff.mp hw with hw | hw
    · exact hag.waits hc hw
    · rintro htx
      rw [show e.tx = [] from htx] at hw
      cases hw

/-- The bytes that the driver reads. -/
theorem Booked.read (hc : e.closing = false) {bs : List UInt8}
    (hfits : bs.length ≤ e.rxSpace) (hne : bs ≠ []) :
    Booked tcp ⟨n, some (.app { e with rx := e.rx ++ bs }), t ++ [.tcpRead tcp bs, .callback (.tcpData tcp)]⟩ := by
  have hag : (ledger t).OfApp e := h.agrees
  have hlive := hag.live hc
  -- there was room, so the limit was not reached
  have hroom : e.rx.length + bs.length ≤ e.rxLimit := by
    have hpos : 0 < bs.length := List.length_pos_iff.mpr hne
    unfold AppTcp.rxSpace at hfits
    split at hfits
    · next hread =>
      have hlt : e.rx.length < e.rxLimit := by
        simp only [AppTcp.interest, Bool.and_eq_true, decide_eq_true_iff] at hread
        exact hread.2
      omega
    · omega
  refine h.snoc₂ hag.born ⟨hlive, ?_⟩ ?_ ?_
  · rw [hag.rx, List.length_drop, hag.limit hc] at hroom
    have := hag.consumed
    omega
  · show (ledger (t ++ [.tcpRead tcp bs])).Live
    rw [ledger_snoc]
    exact ⟨hlive.born, hlive.closes, hlive.letGo, hlive.relayed⟩
  · refine ⟨hag.born, hag.closes, hag.relayed, hag.letGo, ?_, ?_, hag.limit, hag.eof, hag.tx, hag.queued, hag.owed,
      hag.waits⟩
    · show (ledger t).consumed ≤ ((ledger t).read ++ bs).length
      rw [List.length_append]
      exact hag.consumed.trans (Nat.le_add_right _ _)
    · show e.rx ++ bs = ((ledger t).read ++ bs).drop (ledger t).consumed
      rw [List.drop_append_of_le_length hag.consumed, ← hag.rx]

theorem Booked.eof (hc : e.closing = false) :
    Booked tcp ⟨n, some (.app { e with readEof := true }), t ++ [.callback (.tcpEnd tcp .readEof)]⟩ := by
  have hag : (ledger t).OfApp e := h.agrees
  refine h.snoc hag.born (hag.live hc) ?_
  exact ⟨hag.born, hag.closes, hag.relayed, hag.letGo, hag.consumed, hag.rx, hag.limit, rfl, hag.tx, hag.queued,
    hag.owed, hag.waits⟩

omit h

/-- What the ledger says after some of the queued bytes were written. -/
theorem Ledger.OfApp.wrote (h : l.OfApp e) (k : ℕ)
    (hwaits : e.closing = false → e.wantWritable = true → e.tx.drop k ≠ []) :
    Ledger.OfApp { l with written := l.written ++ e.tx.take k } { e with tx := e.tx.drop k } := by
  refine ⟨h.born, h.closes, h.relayed, h.letGo, h.consumed, h.rx, h.limit, h.eof, ?_, ?_, h.owed, hwaits⟩
  · show l.accepted = l.written ++ e.tx.take k ++ e.tx.drop k
    rw [List.append_assoc, List.take_append_drop, h.tx]
  · show (e.tx.drop k).length ≤ TCP_BUF
    rw [List.length_drop]
    exact (Nat.sub_le _ _).trans h.queued

/-- What is written is what comes next. -/
theorem Ledger.OfApp.permits_written (h : (ledger t).OfApp e) (k : ℕ) :
    Permits tcp t (.tcpWritten tcp (e.tx.take k)) := by
  show (ledger t).written ++ e.tx.take k <+: (ledger t).accepted
  rw [h.tx]
  exact List.prefix_append_right_inj _ |>.mpr ( List.take_prefix k e.tx)

/-- All that was queued is written. -/
theorem Ledger.OfApp.written_all (h : l.OfApp e) {k : ℕ} (hk : e.tx.drop k = []) :
    l.written ++ e.tx.take k = l.accepted := by
  rw [h.tx]
  congr 1
  rw [← List.append_nil (e.tx.take k), ← hk, List.take_append_drop]

include h

theorem Booked.wrote {k : ℕ}
    (hk : e.tx.drop k = [] → e.closing = false ∧ e.wantWritable = false) :
    Booked tcp ⟨n, some (.app { e with tx := e.tx.drop k }), t ++ [.tcpWritten tcp (e.tx.take k)]⟩ := by
  have hag : (ledger t).OfApp e := h.agrees
  refine h.snoc hag.born (hag.permits_written k) (hag.wrote k fun _ hw htx => ?_)
  rw [(hk htx).2] at hw
  cases hw

theorem Booked.writable (hc : e.closing = false) (hw : e.wantWritable = true)
    {k : ℕ} (hk : e.tx.drop k = []) :
    Booked tcp ⟨n, some (.app { e with tx := e.tx.drop k, wantWritable := false }),
      t ++ [.tcpWritten tcp (e.tx.take k), .callback (.tcpWritable tcp)]⟩ := by
  have hag : (ledger t).OfApp e := h.agrees
  have hlive := hag.live hc
  refine h.snoc₂ hag.born (hag.permits_written k) ?_ ?_
  · unfold Permits
    rw [ledger_snoc]
    refine ⟨⟨hlive.born, hlive.closes, hlive.letGo, hlive.relayed⟩, ?_, hag.written_all hk⟩
    exact (hag.owed hc).symm.trans hw
  · refine ⟨hag.born, hag.closes, hag.relayed, hag.letGo, hag.consumed, hag.rx, hag.limit, hag.eof, ?_, ?_, fun _ => rfl,
      fun _ hw => absurd hw Bool.false_ne_true⟩
    · show (ledger t).accepted = (ledger t).written ++ e.tx.take k ++ e.tx.drop k
      rw [hk, List.append_nil, hag.written_all hk]
    · show (e.tx.drop k).length ≤ TCP_BUF
      rw [hk]
      exact Nat.zero_le _

/-! ### The end of a socket -/

/-- The socket is closed, by its app or by an error. -/
theorem Booked.close {abort : Bool} (hgraceful : abort = false → e.tx = []) :
    Booked tcp ⟨n, none, t ++ [.request (.tcpClose tcp abort)]⟩ := by
  have hag : (ledger t).OfApp e := h.agrees
  refine h.snoc hag.born ⟨hag.closes, fun ha => Or.inr (hag.written_eq.mpr (hgraceful ha))⟩ (Or.inr ⟨hag.born, ?_, ?_⟩)
  · exact congrArg (· + 1) hag.closes
  · exact hag.written_le

theorem Booked.failed (hc : e.closing = false) (kind : ErrorKind) :
    Booked tcp ⟨n, none, t ++ [.request (.tcpClose tcp true), .callback (.tcpEnd tcp (.error kind))]⟩ := by
  have hag : (ledger t).OfApp e := h.agrees
  refine h.snoc₂ hag.born ⟨hag.closes, fun ha => absurd ha.symm Bool.false_ne_true⟩ ⟨t, rfl, hag.live hc⟩
    (Or.inr ⟨hag.born, congrArg (· + 1) hag.closes, hag.written_le⟩)

/-- A close that waited for the send buffer. -/
theorem Booked.drained {k : ℕ} (hk : e.tx.drop k = []) :
    Booked tcp ⟨n, none, t ++ [.tcpWritten tcp (e.tx.take k), .request (.tcpClose tcp false)]⟩ := by
  have hag : (ledger t).OfApp e := h.agrees
  refine h.snoc₂ hag.born (hag.permits_written k) ?_ (Or.inr ⟨hag.born, congrArg (· + 1) hag.closes, ?_⟩)
  · unfold Permits
    rw [ledger_snoc]
    exact ⟨hag.closes, fun _ => Or.inr (hag.written_all hk)⟩
  · show (ledger t).written ++ e.tx.take k <+: (ledger t).accepted
    rw [hag.written_all hk]

theorem Booked.bound {stream conn : ℕ} {preread : StreamPreread} (r : Relay) :
    Booked tcp ⟨n, some (.relay r), t ++ [.call (.startRelay tcp stream (some conn) preread) .ok]⟩ := by
  have hag : (ledger t).OfApp e := h.agrees
  exact h.snoc hag.born trivial ⟨hag.born, hag.closes, rfl, hag.written_le⟩

omit h

theorem Booked.ended {r : Relay} (h : Booked tcp ⟨n, some (.relay r), t⟩) (s : ℕ) (e : RelayEnd) :
    Booked tcp ⟨n, none, t ++ endEdges tcp s e⟩ := by
  obtain ⟨hborn, hcloses, hrelayed, hwritten⟩ := h.agrees
  -- the entries before the close say nothing of the socket
  obtain ⟨es, hes, hsilent⟩ : ∃ es, endEdges tcp s e = es ++ [.request (.tcpClose tcp (e = .abort))] ∧
      ∀ x ∈ es, (∀ past, Permits tcp past x) ∧ ∀ l, Ledger.note l x = l := by
    refine ⟨_, rfl, ?_⟩
    cases e <;> simp [Permits, Ledger.note]
  have hbefore : Booked tcp ⟨n, some (.relay r), t ++ es⟩ ∧ ledger (t ++ es) = ledger t := by
    clear hes
    induction es using List.reverseRecOn with
    | nil => simpa using h
    | append_singleton es x ih =>
      obtain ⟨hb, hl⟩ := ih fun y hy => hsilent y (List.mem_append_left _ hy)
      obtain ⟨hpermits, hnote⟩ := hsilent x (by simp)
      rw [← List.append_assoc]
      exact ⟨hb.silent (hpermits _) (hnote _), by rw [ledger_snoc, hnote, hl]⟩
  obtain ⟨hb, hl⟩ := hbefore
  rw [hes, ← List.append_assoc]
  refine hb.snoc (hl ▸ hborn) ?_ (Or.inr ?_)
  · unfold Permits
    rw [hl]
    exact ⟨hcloses, fun _ => Or.inl hrelayed⟩
  · rw [hl]
    exact ⟨hborn, congrArg (· + 1) hcloses, hwritten⟩

/-- **Every step of a socket keeps to its contract.** -/
theorem Booked.step {v v' : SockView} (h : Booked tcp v)
    (hstep : SockStep (fun e bs => bs.length ≤ e.rxSpace) tcp v v') : Booked tcp v' := by
  cases hstep with
  | other hle => exact ⟨h.lawful, fun hn => h.fresh (hle.trans hn), h.agrees⟩
  | born hc => exact h.born hc
  | called hs hc => exact h.called hc
  | setRead on hc => exact h.replace fun hag => ⟨hag.born, hag.closes, hag.relayed, hag.letGo, hag.consumed, hag.rx,
      hag.limit, hag.eof, hag.tx, hag.queued, hag.owed, hag.waits⟩
  | setRxLimit k hc => exact h.setRxLimit k
  | rxLimitIgnored k ho => exact h.ignored ho trivial rfl rfl
  | asked hr hclose hc =>
    have hag : (ledger _).OfApp _ := h.agrees
    refine h.asked hag.born hag.closes ?_
    rintro t abort rfl
    obtain rfl : t = tcp := Option.some.inj hr
    exact hclose abort rfl
  | consumed k hc hk => exact h.consumed hk
  | accepted bytes hc hfits => exact h.accepted hfits
  | refused bytes hc => exact h.refused bytes
  | writeIgnored bytes ho => exact h.ignored ho trivial rfl rfl
  | closing hc htx =>
    refine h.replace fun hag => ?_
    have hno (P : Prop) (ht : true = false) : P := by cases ht
    exact ⟨hag.born, hag.closes, hag.relayed, hno _, hag.consumed, hag.rx, hno _, hag.eof, hag.tx, hag.queued, hno _,
      hno _⟩
  | closed hc htx => exact h.close fun _ => htx
  | aborted => exact h.close fun ha => absurd ha.symm Bool.false_ne_true
  | released hs hc ho => exact h.released hc ho
  | bound hc hr => exact h.bound _
  | read bs hc hne hfits => exact h.read hc hfits hne
  | eof hc => exact h.eof hc
  | failed kind hc => exact h.failed hc kind
  | wrote k hk => exact h.wrote hk
  | drained k hc hk => exact h.drained hk
  | writable k hc hw hk => exact h.writable hc hw hk
  | relayed hs => exact ⟨h.lawful, h.fresh, h.agrees⟩
  | shutWrite =>
    obtain ⟨hborn, hcloses, -, -⟩ := h.agrees
    exact h.asked hborn hcloses (by simp)
  | ended e => exact h.ended _ e

end Booked

/-! ### What follows from the contract -/

section Contract

variable {tcp : ℕ} {t es : List Edge}

theorem Ledger.closes_le_note (l : Ledger) (x : Edge) : l.closes ≤ (l.note x).closes := by
  unfold Ledger.note
  split <;> simp

theorem Ledger.letGo_note {l : Ledger} (h : l.letGo = true) (x : Edge) : (l.note x).letGo = true := by
  unfold Ledger.note
  split <;> simp [h]

theorem closes_le_append (t es : List Edge) : (ledger t).closes ≤ (ledger (t ++ es)).closes := by
  induction es using List.reverseRecOn with
  | nil => rw [List.append_nil]
  | append_singleton es x ih =>
    rw [← List.append_assoc, ledger_snoc]
    exact ih.trans (Ledger.closes_le_note _ x)

theorem letGo_append (h : (ledger t).letGo = true) (es : List Edge) : (ledger (t ++ es)).letGo = true := by
  induction es using List.reverseRecOn with
  | nil => rwa [List.append_nil]
  | append_singleton es x ih =>
    rw [← List.append_assoc, ledger_snoc]
    exact Ledger.letGo_note ih x

/-- The entries by which the driver or the app hear of a socket. -/
def Edge.tells : Edge → Bool
  | .callback _ => true
  | .request _ => true
  | _ => false

/-- A socket is told of while it is open, and once more by an error that follows its
`TcpClose` at once. -/
theorem permits_tells {x : Edge} (hx : Permits tcp t x) (htells : x.tells = true) (hs : x.socket = some tcp) :
    (ledger t).closes = 0 ∧ (∀ c, x = .callback c → (ledger t).letGo = false) ∨
      ∃ before kind, t = before ++ [.request (.tcpClose tcp true)] ∧ (ledger before).Live ∧
        x = .callback (.tcpEnd tcp (.error kind)) := by
  have hlive (h : (ledger t).Live) : (ledger t).closes = 0 ∧ (∀ c, x = .callback c → (ledger t).letGo = false) :=
    ⟨h.closes, fun _ _ => h.letGo⟩
  have hblank (h : ledger t = .blank) : (ledger t).closes = 0 ∧ (∀ c, x = .callback c → (ledger t).letGo = false) := by
    rw [h]
    exact ⟨rfl, fun _ _ => rfl⟩
  cases x with
  | callback c =>
    cases c with
    | accepted tag tcp => exact Or.inl (hblank hx)
    | dialResult op r => exact Or.inl (hblank hx)
    | tcpData tcp => exact Or.inl (hlive hx)
    | tcpWritable tcp => exact Or.inl (hlive hx.1)
    | tcpEnd t' e =>
      cases e with
      | readEof => exact Or.inl (hlive hx)
      | error kind =>
        obtain rfl : t' = tcp := Option.some.inj hs
        obtain ⟨before, hbefore, hlive⟩ := hx
        exact Or.inr ⟨before, kind, hbefore, hlive, rfl⟩
    | _ => cases hs
  | request r =>
    refine Or.inl ⟨?_, fun c hc => by cases hc⟩
    cases r with
    | tcpClose tcp abort => exact hx.1
    | _ => exact hx
  | _ => cases htells

/-- What comes after a `TcpClose`. -/
theorem tells_after_close {f₁ f₂ : List Edge} {abort : Bool} {x : Edge}
    (hl : Lawful (Permits tcp) (t ++ .request (.tcpClose tcp abort) :: (f₁ ++ x :: f₂))) (htells : x.tells = true)
    (hs : x.socket = some tcp) :
    f₁ = [] ∧ abort = true ∧ ∃ kind, x = .callback (.tcpEnd tcp (.error kind)) := by
  have hx : Permits tcp (t ++ [.request (.tcpClose tcp abort)] ++ f₁) x := hl _ x f₂ (by simp)
  have hclosed : 0 < (ledger (t ++ [.request (.tcpClose tcp abort)])).closes := by
    rw [ledger_snoc]
    exact Nat.succ_pos _
  rcases permits_tells hx htells hs with ⟨hopen, -⟩ | ⟨before, kind, hbefore, hlive, rfl⟩
  · have := closes_le_append (t ++ [.request (.tcpClose tcp abort)]) f₁
    omega
  · rcases List.eq_nil_or_concat f₁ with rfl | ⟨f, y, rfl⟩
    · rw [List.append_nil] at hbefore
      obtain ⟨-, hlast⟩ := List.append_inj' hbefore rfl
      cases hlast
      exact ⟨rfl, rfl, kind, rfl⟩
    · -- the request was made before, so the socket was not live
      rw [List.concat_eq_append, ← List.append_assoc] at hbefore
      obtain ⟨rfl, -⟩ := List.append_inj' hbefore rfl
      have := closes_le_append (t ++ [.request (.tcpClose tcp abort)]) f
      have := hlive.closes
      omega

/-- **After its `TcpClose` a socket is told of at most once**, by the error that it was
closed for. -/
theorem tells_of_closed {f : List Edge} {abort : Bool} (hf : ∀ x ∈ f, x.socket = some tcp)
    (hl : Lawful (Permits tcp) (t ++ .request (.tcpClose tcp abort) :: f)) :
    f.filter Edge.tells = [] ∨
      abort = true ∧ ∃ kind, f.filter Edge.tells = [.callback (.tcpEnd tcp (.error kind))] := by
  cases f with
  | nil => exact Or.inl rfl
  | cons y f =>
    have hrest : f.filter Edge.tells = [] := by
      rw [List.filter_eq_nil_iff]
      intro x hx htells
      obtain ⟨f₁, f₂, rfl⟩ := List.append_of_mem hx
      have hl : Lawful (Permits tcp) (t ++ .request (.tcpClose tcp abort) :: ((y :: f₁) ++ x :: f₂)) := hl
      obtain ⟨hnil, -⟩ := tells_after_close hl htells (hf x (by simp))
      cases hnil
    cases hy : y.tells with
    | false => exact Or.inl (by rw [List.filter_cons_of_neg (by simp [hy]), hrest])
    | true =>
      have hl : Lawful (Permits tcp) (t ++ .request (.tcpClose tcp abort) :: ([] ++ y :: f)) := hl
      obtain ⟨-, habort, kind, hkind⟩ := tells_after_close hl hy (hf y (by simp))
      exact Or.inr ⟨habort, kind, by rw [List.filter_cons_of_pos hy, hrest, hkind]⟩

/-- An entry after which the app has let go of a socket that it had, or has heard of its
error. -/
def Parts (tcp : ℕ) (l : Ledger) : Edge → Prop
  | .call (.tcpClose t) _ => t = tcp ∧ l.born = true
  | .call (.tcpAbort t) _ => t = tcp ∧ l.born = true
  | .callback (.tcpEnd t (.error _)) => t = tcp
  | _ => False

/-- **No callback comes to an app that has let go.** -/
theorem no_callback_after {f : List Edge} {y : Edge} (hf : ∀ x ∈ f, x.socket = some tcp)
    (hl : Lawful (Permits tcp) (t ++ y :: f)) (hy : Parts tcp (ledger t) y) (c : Callback) : .callback c ∉ f := by
  intro hx
  obtain ⟨f₁, f₂, rfl⟩ := List.append_of_mem hx
  have hs : (Edge.callback c).socket = some tcp := hf _ (by simp)
  have hc : Permits tcp (t ++ [y] ++ f₁) (.callback c) := hl _ _ f₂ (by simp)
  -- after a call by which the app let go
  have hlet (hgo : (ledger (t ++ [y])).letGo = true) (hne : y ≠ .request (.tcpClose tcp true)) : False := by
    rcases permits_tells hc rfl hs with ⟨-, hkept⟩ | ⟨before, kind, hbefore, hlive, -⟩
    · have hgone := letGo_append hgo f₁
      rw [hkept c rfl] at hgone
      cases hgone
    · rcases List.eq_nil_or_concat f₁ with rfl | ⟨f, z, rfl⟩
      · rw [List.append_nil] at hbefore
        exact hne (List.singleton_inj.mp (List.append_inj' hbefore rfl).2)
      · rw [List.concat_eq_append, ← List.append_assoc] at hbefore
        obtain ⟨rfl, -⟩ := List.append_inj' hbefore rfl
        have hgone := letGo_append hgo f
        rw [hlive.letGo] at hgone
        cases hgone
  unfold Parts at hy
  split at hy
  · refine hlet ?_ (by simp)
    rw [ledger_snoc]
    simp [Ledger.note, hy.2]
  · refine hlet ?_ (by simp)
    rw [ledger_snoc]
    simp [Ledger.note, hy.2]
  · next t' kind =>
    -- an error comes right after a close, and nothing comes after it
    obtain ⟨before, rfl, -⟩ := hl t _ (f₁ ++ .callback c :: f₂) rfl
    have hl' : Lawful (Permits tcp) (before ++ .request (.tcpClose tcp true) ::
        (.callback (.tcpEnd t' (.error kind)) :: f₁ ++ .callback c :: f₂)) := by
      simpa using hl
    obtain ⟨hnil, -⟩ := tells_after_close hl' rfl hs
    cases hnil
  · exact hy.elim

end Contract

/-! ### Every socket of every run -/

section Runs

variable {τ : Type} {T : ℕ → Transport τ} {sh : Shard τ} {t : τ} {primaryLocal : SocketAddr} {as : List (Action τ)}

/-- What a log says of a socket. -/
def ledgerOf (tcp : ℕ) (log : List Edge) : Ledger := ledger (trace tcp log)

/-- The driver reads into the buffer that `tcp_rx_buf` gives it. -/
def InBuffer : Shard τ → Action τ → Prop := ReadsFit fun e bs => bs.length ≤ e.rxSpace

theorem booked_new (tcp : ℕ) : Booked tcp ⟨1, none, []⟩ := ⟨lawful_nil, fun _ => rfl, Or.inl rfl⟩

theorem booked_run (hrun : Run (Shard.step T) InBuffer (Shard.new t primaryLocal) as sh) (tcp : ℕ) :
    Booked tcp (view tcp sh.st) :=
  view_invariant (fun _ _ hin => hin) (fun _ _ hv hstep => hv.step hstep) (booked_new tcp) hrun

theorem trace_split {tcp : ℕ} {log past future : List Edge} {x : Edge} (hlog : log = past ++ x :: future)
    (hs : x.socket = some tcp) : trace tcp log = trace tcp past ++ x :: trace tcp future := by
  rw [hlog, trace, List.filter_append, List.filter_cons_of_pos (by simpa using hs)]
  rfl

theorem socket_of_mem_trace {tcp : ℕ} {log : List Edge} : ∀ x ∈ trace tcp log, x.socket = some tcp :=
  fun _ hx => of_decide_eq_true (List.mem_filter.mp hx).2

theorem socket_of_parts {tcp : ℕ} {l : Ledger} {x : Edge} (h : Parts tcp l x) : x.socket = some tcp := by
  unfold Parts at h
  split at h
  · exact congrArg some h.1
  · exact congrArg some h.1
  · exact congrArg some h
  · exact h.elim

/-- What a relay starts with. -/
theorem start_carries {conn tcp stream : ℕ} {tcpPrebuf toTcpQueued : List UInt8} {tcpReadEof : Bool}
    {preread : StreamPreread} {r : Relay}
    (h : Relay.start conn tcp stream tcpPrebuf tcpReadEof toTcpQueued preread = some r) :
    r.toQuic.readSlice = tcpPrebuf ∧ r.toTcp.readSlice = toTcpQueued ++ preread.bytes ∧ r.tcpReadEof = tcpReadEof := by
  unfold Relay.start at h
  split at h
  · cases h
    simp
  · cases h

/-- **The sockets of an app.** For every socket, in every run of a driver that reads into
the buffer it is given; `ledgerOf` says what the log has of the socket up to a point. -/
theorem tcp_kept (T : ℕ → Transport τ) (hrun : Run (Shard.step T) InBuffer (Shard.new t primaryLocal) as sh) (tcp : ℕ) :
    -- what the app can see is what was read, without what it consumed
    (∀ e, sh.st.appTcp tcp = some e → sh.st.tcpRx tcp =
      (ledgerOf tcp sh.st.log).read.drop (ledgerOf tcp sh.st.log).consumed) ∧
    -- and no read goes past the limit
    (∀ past bs future, sh.st.log = past ++ .tcpRead tcp bs :: future →
      (ledgerOf tcp past).read.length + bs.length ≤
        (ledgerOf tcp past).consumed + (ledgerOf tcp past).limit) ∧
    -- what is written is what was accepted, in order, and the rest is queued
    (ledgerOf tcp sh.st.log).written <+: (ledgerOf tcp sh.st.log).accepted ∧
    (∀ e, sh.st.tcp.lookup tcp = some (.app e) →
      (ledgerOf tcp sh.st.log).accepted = (ledgerOf tcp sh.st.log).written ++ e.tx ∧
        e.tx.length ≤ TCP_BUF) ∧
    -- a graceful close of a socket without a relay comes after all that was accepted
    (∀ past future, sh.st.log = past ++ .request (.tcpClose tcp false) :: future →
      (ledgerOf tcp past).relayed = true ∨
        (ledgerOf tcp past).written = (ledgerOf tcp past).accepted) ∧
    -- a socket that was given to the app is closed once it is no longer in the table, and once only
    ((ledgerOf tcp sh.st.log).born = true →
      (ledgerOf tcp sh.st.log).closes = if (sh.st.tcp.lookup tcp).isSome then 0 else 1) ∧
    -- the driver and the app hear of a closed socket no more, but for the error that it was closed for
    (∀ past abort future, sh.st.log = past ++ .request (.tcpClose tcp abort) :: future →
      (trace tcp future).filter Edge.tells = [] ∨
        abort = true ∧ ∃ kind, (trace tcp future).filter Edge.tells = [.callback (.tcpEnd tcp (.error kind))]) ∧
    -- an app that has let go, or heard of an error, has no callback more
    (∀ past x future, sh.st.log = past ++ x :: future → Parts tcp (ledgerOf tcp past) x →
      ∀ c, .callback c ∈ future → c.socket ≠ some tcp) ∧
    -- the app is told that it may write when that is owed, and all is written; it is not owed for longer
    (∀ past future, sh.st.log = past ++ .callback (.tcpWritable tcp) :: future →
      (ledgerOf tcp past).owed = true ∧
        (ledgerOf tcp past).written = (ledgerOf tcp past).accepted) ∧
    (∀ e, sh.st.appTcp tcp = some e → (ledgerOf tcp sh.st.log).owed = true →
      (ledgerOf tcp sh.st.log).written ≠ (ledgerOf tcp sh.st.log).accepted) ∧
    -- a relay takes over what was not consumed, what is queued, and the EOF
    (∀ s c pre st, sh.st.startRelay tcp s (some c) pre = (.ok, st) → ∃ r, st.tcp.lookup tcp = some (.relay r) ∧
      r.toQuic.readSlice = (ledgerOf tcp sh.st.log).read.drop (ledgerOf tcp sh.st.log).consumed ∧
      r.toTcp.readSlice =
        (ledgerOf tcp sh.st.log).accepted.drop (ledgerOf tcp sh.st.log).written.length ++ pre.bytes ∧
      r.tcpReadEof = (ledgerOf tcp sh.st.log).eof) := by
  have h := booked_run hrun tcp
  unfold ledgerOf
  have hag : (ledger (trace tcp sh.st.log)).Agrees (sh.st.tcp.lookup tcp) := h.agrees
  have hlaw : Lawful (Permits tcp) (trace tcp sh.st.log) := h.lawful
  have happ (e : AppTcp) (he : sh.st.tcp.lookup tcp = some (.app e)) : (ledger (trace tcp sh.st.log)).OfApp e := by
    rwa [he] at hag
  have hpermits (past : List Edge) (x : Edge) (future : List Edge) (hlog : sh.st.log = past ++ x :: future)
      (hs : x.socket = some tcp) : Permits tcp (trace tcp past) x := hlaw _ x _ (trace_split hlog hs)
  refine ⟨fun e he => ?_, fun past bs future hlog => ?_, ?_, fun e he => ?_, fun past future hlog => ?_, fun hborn => ?_,
    fun past abort future hlog => ?_, fun past x future hlog hx c hc hs => ?_, fun past future hlog => ?_,
    fun e he howed hall => ?_, fun s c pre st hstart => ?_⟩
  · rw [ShardState.tcpRx, he]
    exact (happ e (owned_appTcp he).1).rx
  · exact (hpermits past _ future hlog rfl).2
  · cases hentry : sh.st.tcp.lookup tcp with
    | none =>
      rw [hentry] at hag
      rcases hag with hblank | ⟨-, -, hwritten⟩
      · rw [hblank]
        exact List.nil_prefix
      · exact hwritten
    | some e =>
      cases e with
      | app e => exact (happ e hentry).written_le
      | relay r =>
        rw [hentry] at hag
        exact hag.2.2.2
  · exact ⟨(happ e he).tx, (happ e he).queued⟩
  · exact (hpermits past _ future hlog rfl).2 rfl
  · cases hentry : sh.st.tcp.lookup tcp with
    | none =>
      rw [hentry] at hag
      rcases hag with hblank | ⟨-, hcloses, -⟩
      · rw [hblank] at hborn
        cases hborn
      · exact hcloses
    | some e =>
      cases e with
      | app e => exact (happ e hentry).closes
      | relay r =>
        rw [hentry] at hag
        exact hag.2.1
  · exact tells_of_closed socket_of_mem_trace (trace_split hlog rfl ▸ hlaw)
  · have hmem : .callback c ∈ trace tcp future := List.mem_filter.mpr ⟨hc, decide_eq_true hs⟩
    exact no_callback_after socket_of_mem_trace (trace_split hlog (socket_of_parts hx) ▸ hlaw) hx c hmem
  · exact (hpermits past _ future hlog rfl).2
  · obtain ⟨hl, hclosing⟩ := owned_appTcp he
    have hof := happ e hl
    exact hof.waits hclosing ((hof.owed hclosing).trans howed) (hof.written_eq.mp hall)
  · have hstarts := startsRelay sh.st tcp s (some c) pre
    rw [hstart] at hstarts
    cases hstarts with
    | @bound e conn r he hclosing hfree hr =>
      obtain ⟨hquic, htcp, heof⟩ := start_carries hr
      have hof := happ e he
      refine ⟨r, AList.lookup_insert _, hquic.trans hof.rx, ?_, heof.trans hof.eof⟩
      rw [htcp, hof.tx, List.drop_left]

/-- A write and a graceful close that waits for it. -/
theorem tcp_kept_closed : ∃ sh, Run (Shard.step fun _ => Shard.still) InBuffer (Shard.new () Shard.anyLocal)
      [.addListener 0, .accepted 1, .call (.tcpWrite 2 [5, 6]), .call (.tcpClose 2), .ret, .txCommit 2 (.bytes 2)] sh ∧
    (ledgerOf 2 sh.st.log).closes = 1 ∧
    (ledgerOf 2 sh.st.log).written <+: (ledgerOf 2 sh.st.log).accepted := by
  refine Run.exists_and (.cons trivial rfl <| .cons trivial rfl <| .cons trivial rfl <| .cons trivial rfl <|
    .cons trivial rfl <| .cons trivial rfl <| .nil _) fun hrun => ?_
  obtain ⟨-, -, hwritten, -, -, hcloses, -⟩ := tcp_kept _ hrun 2
  exact ⟨hcloses rfl, hwritten⟩

/-- **A callback after a `TcpClose`**: the app hears of the error that its socket was closed
for. -/
theorem told_of_closed_socket : ∃ as sh past future,
    Run (Shard.step fun _ => Shard.still) InBuffer (Shard.new () Shard.anyLocal) as sh ∧
      sh.st.log = past ++ .request (.tcpClose 2 true) :: future ∧ .callback (.tcpEnd 2 (.error .other)) ∈ future :=
  ⟨[.addListener 0, .accepted 1, .ret, .tcpError 2 .other], _, [.callback (.accepted 0 2)], _,
    .cons trivial rfl <| .cons trivial rfl <| .cons trivial rfl <| .cons trivial rfl <| .nil _, rfl,
    List.mem_singleton_self _⟩

end Runs

end MqProxy.Runtime
