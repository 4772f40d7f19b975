import Mathlib.Logic.Relation
import MqProxy.Runtime.RelayLife
import MqProxy.Runtime.Shard

/-!
# One socket of a shard

A shard seen from one of its TCP sockets: the entry of the socket in the table, and the
part of the log that names it. `SockStep` lists what can happen to a socket, and
`socket_step` says that nothing else does, whatever the shard does and whoever else has a
socket. What is proved about sockets elsewhere rests on this list.
-/

namespace MqProxy.Runtime

open MqProxy.Library Relation

/-- The socket of a call, if it is about one. -/
def CxCall.socket : CxCall → Option ℕ
  | .tcpConsume tcp _ => some tcp
  | .tcpWrite tcp _ => some tcp
  | .tcpSetRead tcp _ => some tcp
  | .tcpSetRxLimit tcp _ => some tcp
  | .tcpSetNodelay tcp => some tcp
  | .tcpSetKeepalive tcp _ => some tcp
  | .tcpClose tcp => some tcp
  | .tcpAbort tcp => some tcp
  | .startRelay tcp _ _ _ => some tcp
  | _ => none

/-- The socket of a request. -/
def IoRequest.socket : IoRequest → Option ℕ
  | .tcpShutdownWrite tcp => some tcp
  | .tcpSetNodelay tcp => some tcp
  | .tcpSetKeepalive tcp _ => some tcp
  | .tcpClose tcp _ => some tcp
  | _ => none

/-- The socket of a callback. -/
def Callback.socket : Callback → Option ℕ
  | .accepted _ tcp => some tcp
  | .tcpData tcp => some tcp
  | .tcpEnd tcp _ => some tcp
  | .tcpWritable tcp => some tcp
  | .dialResult _ (.ok tcp) => some tcp
  | _ => none

/-- The socket that an entry of the log names. -/
def Edge.socket : Edge → Option ℕ
  | .callback c => c.socket
  | .call c _ => c.socket
  | .request r => r.socket
  | .relayEnded tcp _ _ => some tcp
  | .relayReset tcp _ => some tcp
  | .tcpRead tcp _ => some tcp
  | .tcpWritten tcp _ => some tcp
  | .tcpConsumed tcp _ => some tcp
  | _ => none

/-- A callback that hands a new socket to the app. -/
def Callback.bears (tcp : ℕ) : Callback → Prop
  | .accepted _ t => t = tcp
  | .dialResult _ (.ok t) => t = tcp
  | _ => False

/-- A call that has no effect on what is kept of a socket. -/
def CxCall.inert : CxCall → Answer → Prop
  | .tcpConsume _ _, _ => True
  | .tcpSetRead _ _, _ => True
  | .tcpSetNodelay _, _ => True
  | .tcpSetKeepalive _ _, _ => True
  | .startRelay _ _ _ _, .failed => True
  | _, _ => False

/-- A call after which the app no longer has the socket: it closed or aborted it, or started
a relay on a stale stream. -/
def CxCall.releases : CxCall → Answer → Prop
  | .tcpClose _, _ => True
  | .tcpAbort _, _ => True
  | .startRelay _ _ none _, .ok => True
  | _, _ => False

/-- What the end of a relay leaves in the log: the stream is reset if it was aborted. -/
def endEdges (tcp stream : ℕ) (e : RelayEnd) : List Edge :=
  [.relayEnded tcp stream e] ++ (if e = .abort then [.relayReset tcp stream] else []) ++
    [.request (.tcpClose tcp (e = .abort))]

/-- A shard seen from one socket. -/
structure SockView where
  next : ℕ
  entry : Option TcpEntry
  trace : List Edge

/-- The app owns the socket and has not let go. -/
def Owned (entry : Option TcpEntry) : Prop := ∃ e, entry = some (.app e) ∧ e.closing = false

/-- What can happen to a socket. `Fits` is what is known of the reads of the driver. -/
inductive SockStep (Fits : AppTcp → List UInt8 → Prop) (tcp : ℕ) : SockView → SockView → Prop
  /-- Nothing; ids may be used up. -/
  | other {n n' entry h} : n ≤ n' → SockStep Fits tcp ⟨n, entry, h⟩ ⟨n', entry, h⟩
  | born {entry h c} : c.bears tcp →
      SockStep Fits tcp ⟨tcp, entry, h⟩ ⟨tcp + 1, some (.app .new), h ++ [.callback c]⟩
  | called {n entry h c a} : c.socket = some tcp → c.inert a → SockStep Fits tcp ⟨n, entry, h⟩ ⟨n, entry, h ++ [.call c a]⟩
  | setRead {n e h} (on : Bool) : e.closing = false →
      SockStep Fits tcp ⟨n, some (.app e), h⟩ ⟨n, some (.app { e with read := on }), h⟩
  | setRxLimit {n e h} (k : ℕ) : e.closing = false →
      SockStep Fits tcp ⟨n, some (.app e), h⟩
        ⟨n, some (.app { e with rxLimit := min k TCP_BUF }), h ++ [.call (.tcpSetRxLimit tcp k) .unit]⟩
  | rxLimitIgnored {n entry h} (k : ℕ) : ¬Owned entry →
      SockStep Fits tcp ⟨n, entry, h⟩ ⟨n, entry, h ++ [.call (.tcpSetRxLimit tcp k) .unit]⟩
  /-- An option is asked for. -/
  | asked {n e h r} : r.socket = some tcp → (∀ abort, r ≠ .tcpClose tcp abort) → e.closing = false →
      SockStep Fits tcp ⟨n, some (.app e), h⟩ ⟨n, some (.app e), h ++ [.request r]⟩
  | consumed {n e h} (k : ℕ) : e.closing = false → k ≤ e.rx.length →
      SockStep Fits tcp ⟨n, some (.app e), h⟩ ⟨n, some (.app { e with rx := e.rx.drop k }), h ++ [.tcpConsumed tcp k]⟩
  | accepted {n e h} (bytes : List UInt8) : e.closing = false → e.tx.length + bytes.length ≤ TCP_BUF →
      SockStep Fits tcp ⟨n, some (.app e), h⟩
        ⟨n, some (.app { e with tx := e.tx ++ bytes }), h ++ [.call (.tcpWrite tcp bytes) .ok]⟩
  | refused {n e h} (bytes : List UInt8) : e.closing = false →
      SockStep Fits tcp ⟨n, some (.app e), h⟩
        ⟨n, some (.app { e with wantWritable := e.wantWritable || !e.tx.isEmpty }),
          h ++ [.call (.tcpWrite tcp bytes) .failed]⟩
  | writeIgnored {n entry h} (bytes : List UInt8) : ¬Owned entry →
      SockStep Fits tcp ⟨n, entry, h⟩ ⟨n, entry, h ++ [.call (.tcpWrite tcp bytes) .failed]⟩
  /-- A graceful close waits for the send buffer. -/
  | closing {n e h} : e.closing = false → e.tx ≠ [] →
      SockStep Fits tcp ⟨n, some (.app e), h⟩ ⟨n, some (.app { e with closing := true }), h⟩
  | closed {n e h} : e.closing = false → e.tx = [] →
      SockStep Fits tcp ⟨n, some (.app e), h⟩ ⟨n, none, h ++ [.request (.tcpClose tcp false)]⟩
  | aborted {n e h} : SockStep Fits tcp ⟨n, some (.app e), h⟩ ⟨n, none, h ++ [.request (.tcpClose tcp true)]⟩
  | released {n entry h c a} : c.socket = some tcp → c.releases a → ¬Owned entry →
      SockStep Fits tcp ⟨n, entry, h⟩ ⟨n, entry, h ++ [.call c a]⟩
  /-- `start_relay`. -/
  | bound {n e h stream conn preread r} : e.closing = false →
      Relay.start conn tcp stream e.rx e.readEof e.tx preread = some r →
      SockStep Fits tcp ⟨n, some (.app e), h⟩
        ⟨n, some (.relay r), h ++ [.call (.startRelay tcp stream (some conn) preread) .ok]⟩
  | read {n e h} (bs : List UInt8) : e.closing = false → bs ≠ [] → Fits e bs →
      SockStep Fits tcp ⟨n, some (.app e), h⟩
        ⟨n, some (.app { e with rx := e.rx ++ bs }), h ++ [.tcpRead tcp bs, .callback (.tcpData tcp)]⟩
  | eof {n e h} : e.closing = false →
      SockStep Fits tcp ⟨n, some (.app e), h⟩
        ⟨n, some (.app { e with readEof := true }), h ++ [.callback (.tcpEnd tcp .readEof)]⟩
  | failed {n e h} (kind : ErrorKind) : e.closing = false →
      SockStep Fits tcp ⟨n, some (.app e), h⟩
        ⟨n, none, h ++ [.request (.tcpClose tcp true), .callback (.tcpEnd tcp (.error kind))]⟩
  | wrote {n e h} (k : ℕ) : (e.tx.drop k = [] → e.closing = false ∧ e.wantWritable = false) →
      SockStep Fits tcp ⟨n, some (.app e), h⟩
        ⟨n, some (.app { e with tx := e.tx.drop k }), h ++ [.tcpWritten tcp (e.tx.take k)]⟩
  /-- The send buffer that a close waited for is empty. -/
  | drained {n e h} (k : ℕ) : e.closing = true → e.tx.drop k = [] →
      SockStep Fits tcp ⟨n, some (.app e), h⟩
        ⟨n, none, h ++ [.tcpWritten tcp (e.tx.take k), .request (.tcpClose tcp false)]⟩
  | writable {n e h} (k : ℕ) : e.closing = false → e.wantWritable = true → e.tx.drop k = [] →
      SockStep Fits tcp ⟨n, some (.app e), h⟩
        ⟨n, some (.app { e with tx := e.tx.drop k, wantWritable := false }),
          h ++ [.tcpWritten tcp (e.tx.take k), .callback (.tcpWritable tcp)]⟩
  /-- A relay works. -/
  | relayed {n r r' h} : r'.stream = r.stream → SockStep Fits tcp ⟨n, some (.relay r), h⟩ ⟨n, some (.relay r'), h⟩
  | shutWrite {n r h} : SockStep Fits tcp ⟨n, some (.relay r), h⟩
      ⟨n, some (.relay r), h ++ [.request (.tcpShutdownWrite tcp)]⟩
  /-- A relay that ended is taken out. -/
  | ended {n r h} (e : RelayEnd) :
      SockStep Fits tcp ⟨n, some (.relay r), h⟩ ⟨n, none, h ++ endEdges tcp r.stream e⟩

/-- The part of a log that names a socket. -/
def trace (tcp : ℕ) (log : List Edge) : List Edge := log.filter fun e => e.socket = some tcp

/-- The view of a socket. -/
def view (tcp : ℕ) (st : ShardState) : SockView := ⟨st.nextId, st.tcp.lookup tcp, trace tcp st.log⟩

section Views

variable {Fits : AppTcp → List UInt8 → Prop} {tcp : ℕ} {st st' st'' : ShardState}

/-- What happened to a socket between two states is on the list. -/
def Steps (Fits : AppTcp → List UInt8 → Prop) (tcp : ℕ) (st st' : ShardState) : Prop :=
  ReflTransGen (SockStep Fits tcp) (view tcp st) (view tcp st')

theorem Steps.refl (st : ShardState) : Steps Fits tcp st st := ReflTransGen.refl

theorem Steps.trans (h : Steps Fits tcp st st') (h' : Steps Fits tcp st' st'') : Steps Fits tcp st st'' :=
  ReflTransGen.trans h h'

theorem trace_append (log es : List Edge) : trace tcp (log ++ es) = trace tcp log ++ trace tcp es :=
  List.filter_append ..

variable {e : Edge}

theorem trace_other (he : e.socket ≠ some tcp) : trace tcp [e] = [] := by
  simp [trace, he]

/-- A socket that has no part in something. -/
structure Aloof (tcp : ℕ) (st st' : ShardState) : Prop where
  next : st.nextId ≤ st'.nextId
  entry : st'.tcp.lookup tcp = st.tcp.lookup tcp
  trace : trace tcp st'.log = trace tcp st.log

theorem Aloof.steps (h : Aloof tcp st st') : Steps Fits tcp st st' := by
  apply ReflTransGen.single
  rw [view, view, h.entry, h.trace]
  exact .other h.next

/-- The other tables may change. -/
theorem steps_tables (hnext : st.nextId ≤ st'.nextId) (htcp : st'.tcp = st.tcp) (hlog : st'.log = st.log) :
    Steps Fits tcp st st' := Aloof.steps ⟨hnext, by rw [htcp], by rw [hlog]⟩

theorem aloof_note (st : ShardState) (he : e.socket ≠ some tcp) : Aloof tcp st (st.note e) := by
  refine ⟨le_rfl, rfl, ?_⟩
  rw [ShardState.note, trace_append, trace_other he, List.append_nil]

theorem aloof_pushRequest (st : ShardState) {r : IoRequest} (hr : r.socket ≠ some tcp) :
    Aloof tcp st (st.pushRequest r) := ⟨le_rfl, rfl, (aloof_note st (e := .request r) hr).trace⟩

/-- Only one socket has a part in something: what becomes of its entry, and what the log says of it. -/
structure Touches (t : ℕ) (entry : Option TcpEntry) (es : List Edge) (st st' : ShardState) : Prop where
  next : st'.nextId = st.nextId
  self : st'.tcp.lookup t = entry
  others : ∀ u, u ≠ t → st'.tcp.lookup u = st.tcp.lookup u
  log : st'.log = st.log ++ es
  names : ∀ e ∈ es, e.socket = some t

variable {t : ℕ} {before entry : Option TcpEntry} {es : List Edge}

/-- **What happens to one socket is a step of it and nothing for the others.** -/
theorem Touches.steps (h : Touches t entry es st st') (hbefore : st.tcp.lookup t = before)
    (hstep : ∀ n tr, SockStep Fits t ⟨n, before, tr⟩ ⟨n, entry, tr ++ es⟩) : Steps Fits tcp st st' := by
  by_cases ht : t = tcp
  · subst ht
    apply ReflTransGen.single
    rw [view, view, h.next, h.self, h.log, trace_append, hbefore]
    have hes : trace t es = es := List.filter_eq_self.mpr fun e he => decide_eq_true (h.names e he)
    rw [hes]
    exact hstep _ _
  · refine Aloof.steps ⟨h.next.ge, h.others tcp (Ne.symm ht), ?_⟩
    have hes : trace tcp es = [] := List.filter_eq_nil_iff.mpr fun e he => by simp [h.names e he, ht]
    rw [h.log, trace_append, hes, List.append_nil]

theorem Touches.refl (st : ShardState) (t : ℕ) (h : st.tcp.lookup t = entry) : Touches t entry [] st st :=
  ⟨rfl, h, fun _ _ => rfl, (List.append_nil _).symm, by simp⟩

theorem Touches.putTcp (h : Touches t entry es st st') (e : TcpEntry) : Touches t (some e) es st (st'.putTcp t e) :=
  ⟨h.next, AList.lookup_insert _, fun u hu => (AList.lookup_insert_ne hu).trans (h.others u hu), h.log, h.names⟩

theorem Touches.note (h : Touches t entry es st st') (he : e.socket = some t) :
    Touches t entry (es ++ [e]) st (st'.note e) where
  next := h.next
  self := h.self
  others := h.others
  log := by rw [ShardState.note, h.log, List.append_assoc]
  names x hx := by
    rcases List.mem_append.mp hx with hx | hx
    · exact h.names x hx
    · rw [List.mem_singleton.mp hx, he]

theorem Touches.pushRequest (h : Touches t entry es st st') {r : IoRequest} (hr : r.socket = some t) :
    Touches t entry (es ++ [.request r]) st (st'.pushRequest r) :=
  have hnote := h.note (e := .request r) hr
  ⟨hnote.next, hnote.self, hnote.others, hnote.log, hnote.names⟩

theorem Touches.closeNow (h : Touches t entry es st st') (abort : Bool) :
    Touches t none (es ++ [.request (.tcpClose t abort)]) st (st'.closeNow t abort) :=
  have hpush := h.pushRequest (r := .tcpClose t abort) rfl
  ⟨hpush.next, AList.lookup_erase .., fun u hu => (AList.lookup_erase_ne hu).trans (h.others u hu), hpush.log,
    hpush.names⟩

/-! ### The calls of the app -/

theorem owned_appTcp {t : ℕ} {e : AppTcp} (h : st.appTcp t = some e) :
    st.tcp.lookup t = some (.app e) ∧ e.closing = false := by
  unfold ShardState.appTcp at h
  split at h
  · next e' hl =>
    split at h
    · cases h
    · next hc =>
      cases h
      exact ⟨hl, Bool.not_eq_true _ ▸ hc⟩
  · cases h

theorem lookup_closeNow (st : ShardState) (t : ℕ) (abort : Bool) : (st.closeNow t abort).tcp.lookup t = none :=
  AList.lookup_erase ..

theorem not_owned_appTcp (h : st.appTcp t = none) : ¬Owned (st.tcp.lookup t) := by
  rintro ⟨e, he, hc⟩
  simp [ShardState.appTcp, he, hc] at h

theorem not_owned_none : ¬Owned none := by
  rintro ⟨e, he, -⟩
  cases he

theorem not_owned_closing {e : AppTcp} (he : e.closing = true) : ¬Owned (some (.app e)) := by
  rintro ⟨e', he', hc⟩
  cases he'
  rw [he] at hc
  cases hc

variable {c : CxCall}

/-- A call about none of the sockets. -/
theorem steps_no_socket (st : ShardState) (hc : c.socket = none) (a : Answer) :
    Steps Fits tcp st (st.note (.call c a)) := (aloof_note st (by simp [Edge.socket, hc])).steps

/-- A call that has no effect besides those it had. -/
theorem steps_called (st : ShardState) {a : Answer} (hs : c.socket = some t) (hc : c.inert a) :
    Steps Fits tcp st (st.note (.call c a)) := ((Touches.refl st t rfl).note (e := .call c a) hs).steps rfl fun _ _ => .called hs hc

/-- A call after which the app has let go. -/
theorem steps_released (st : ShardState) {a : Answer} (hs : c.socket = some t) (hc : c.releases a)
    (howned : ¬Owned (st.tcp.lookup t)) : Steps Fits tcp st (st.note (.call c a)) :=
  ((Touches.refl st t rfl).note (e := .call c a) hs).steps rfl fun _ _ => .released hs hc howned

theorem steps_closeNow {e : AppTcp} (he : st.tcp.lookup t = some (.app e)) (abort : Bool)
    (hgraceful : abort = false → e.closing = false ∧ e.tx = []) : Steps Fits tcp st (st.closeNow t abort) := by
  refine ((Touches.refl st t rfl).closeNow abort).steps he fun n tr => ?_
  cases abort with
  | true => exact .aborted
  | false => exact .closed (hgraceful rfl).1 (hgraceful rfl).2

/-- A call that needs a socket of the app. -/
theorem steps_appTcp {f : AppTcp → ShardState}
    (hf : ∀ e, st.tcp.lookup t = some (.app e) → e.closing = false → Steps Fits tcp st (f e)) :
    Steps Fits tcp st (match st.appTcp t with | none => st | some e => f e) := by
  split
  · exact .refl st
  · next e he => exact hf e (owned_appTcp he).1 (owned_appTcp he).2

theorem steps_tcpConsume (st : ShardState) (t n : ℕ) : Steps Fits tcp st (st.tcpConsume t n) := by
  refine steps_appTcp fun e hl hc => ?_
  exact (((Touches.refl st t rfl).putTcp _).note rfl).steps hl fun _ _ => .consumed _ hc (Nat.min_le_right _ _)

/-- `tcp_write`, with the call itself: what is accepted is queued in the same step. -/
theorem steps_tcpWrite (st : ShardState) (t : ℕ) (bytes : List UInt8) :
    Steps Fits tcp st ((st.tcpWrite t bytes).2.note (.call (.tcpWrite t bytes) (st.tcpWrite t bytes).1)) := by
  unfold ShardState.tcpWrite
  split
  · next he => exact ((Touches.refl st t rfl).note rfl).steps rfl fun _ _ => .writeIgnored bytes (not_owned_appTcp he)
  · next e he =>
    obtain ⟨hl, hc⟩ := owned_appTcp he
    split
    · exact (((Touches.refl st t rfl).putTcp _).note rfl).steps hl fun _ _ => .refused bytes hc
    · next hfits =>
      exact (((Touches.refl st t rfl).putTcp _).note rfl).steps hl fun _ _ => .accepted bytes hc (Nat.not_lt.mp hfits)

theorem steps_tcpSetRead (st : ShardState) (t : ℕ) (on : Bool) : Steps Fits tcp st (st.tcpSetRead t on) := by
  refine steps_appTcp fun e hl hc => ((Touches.refl st t rfl).putTcp _).steps hl fun n tr => ?_
  rw [List.append_nil]
  exact .setRead on hc

theorem steps_tcpSetRxLimit (st : ShardState) (t n : ℕ) :
    Steps Fits tcp st ((st.tcpSetRxLimit t n).note (.call (.tcpSetRxLimit t n) .unit)) := by
  unfold ShardState.tcpSetRxLimit
  split
  · next he => exact ((Touches.refl st t rfl).note rfl).steps rfl fun _ _ => .rxLimitIgnored n (not_owned_appTcp he)
  · next e he =>
    obtain ⟨hl, hc⟩ := owned_appTcp he
    exact (((Touches.refl st t rfl).putTcp _).note rfl).steps hl fun _ _ => .setRxLimit n hc

/-- An option is asked for, on a socket that the app owns. -/
theorem steps_asked (st : ShardState) {r : IoRequest} (hr : r.socket = some t)
    (hclose : ∀ abort, r ≠ .tcpClose t abort) :
    Steps Fits tcp st (if (st.appTcp t).isSome then st.pushRequest r else st) := by
  split
  · next h =>
    obtain ⟨e, he⟩ := Option.isSome_iff_exists.mp h
    obtain ⟨hl, hc⟩ := owned_appTcp he
    exact ((Touches.refl st t hl).pushRequest hr).steps hl fun _ _ => .asked hr hclose hc
  · exact .refl st

theorem steps_tcpClose (st : ShardState) (t : ℕ) : Steps Fits tcp st (st.tcpClose t) := by
  refine steps_appTcp fun e hl hc => ?_
  split
  · next htx => exact steps_closeNow hl false fun _ => ⟨hc, List.isEmpty_iff.mp htx⟩
  · next htx =>
    refine ((Touches.refl st t rfl).putTcp _).steps hl fun n tr => ?_
    rw [List.append_nil]
    exact .closing hc fun h => htx (List.isEmpty_iff.mpr h)

theorem not_owned_tcpClose (st : ShardState) (t : ℕ) : ¬Owned ((st.tcpClose t).tcp.lookup t) := by
  unfold ShardState.tcpClose
  split
  · next he => exact not_owned_appTcp he
  · split
    · rw [lookup_closeNow]
      exact not_owned_none
    · rw [ShardState.putTcp, AList.lookup_insert]
      exact not_owned_closing rfl

theorem steps_tcpAbort (st : ShardState) (t : ℕ) : Steps Fits tcp st (st.tcpAbort t) := by
  unfold ShardState.tcpAbort
  split
  · next e hl => exact steps_closeNow hl true (by simp)
  · exact .refl st

theorem not_owned_tcpAbort (st : ShardState) (t : ℕ) : ¬Owned ((st.tcpAbort t).tcp.lookup t) := by
  unfold ShardState.tcpAbort
  split
  · rw [lookup_closeNow]
    exact not_owned_none
  · next h =>
    rintro ⟨e, he, -⟩
    exact h e he

/-- What `start_relay` can do. -/
inductive StartsRelay (st : ShardState) (t stream : ℕ) (preread : StreamPreread) : Option ℕ → Answer × ShardState → Prop
  | refused {conn : Option ℕ} : StartsRelay st t stream preread conn (.failed, st)
  | stale {e : AppTcp} : st.tcp.lookup t = some (.app e) →
      StartsRelay st t stream preread none (.ok, (st.closeNow t true).note (.staleReset stream))
  | bound {e : AppTcp} {conn : ℕ} {r : Relay} : st.tcp.lookup t = some (.app e) → e.closing = false →
      st.streams.lookup stream = none → Relay.start conn t stream e.rx e.readEof e.tx preread = some r →
      StartsRelay st t stream preread (some conn)
        (.ok, { st.putTcp t (.relay r) with streams := st.streams.insert stream t })

theorem startsRelay (st : ShardState) (t stream : ℕ) (conn : Option ℕ) (preread : StreamPreread) :
    StartsRelay st t stream preread conn (st.startRelay t stream conn preread) := by
  unfold ShardState.startRelay
  split
  · exact .refused
  · next hs =>
    split
    · exact .refused
    · next e he =>
      obtain ⟨hl, hc⟩ := owned_appTcp he
      split
      · exact .refused
      · split
        · exact .stale hl
        · split
          · exact .refused
          · next r hr => exact .bound hl hc (Option.not_isSome_iff_eq_none.mp hs) hr

theorem steps_startRelay (st : ShardState) (t stream : ℕ) (conn : Option ℕ) (preread : StreamPreread) :
    Steps Fits tcp st ((st.startRelay t stream conn preread).2.note
      (.call (.startRelay t stream conn preread) (st.startRelay t stream conn preread).1)) := by
  have h := startsRelay st t stream conn preread
  generalize st.startRelay t stream conn preread = r at h
  cases h with
  | refused => exact steps_called st rfl trivial
  | @stale e hl =>
    have hclose : Steps Fits tcp st (st.closeNow t true) := steps_closeNow hl true (by simp)
    refine (hclose.trans (aloof_note _ (by simp [Edge.socket])).steps).trans (steps_released _ rfl trivial ?_)
    exact fun howned => not_owned_none (lookup_closeNow st t true ▸ howned)
  | @bound e conn r hl hc hs hr =>
    have hput := (Touches.refl st t rfl).putTcp (.relay r)
    have hbind : Touches t (some (.relay r)) [] st
        { st.putTcp t (.relay r) with streams := st.streams.insert stream t } :=
      ⟨hput.next, hput.self, hput.others, hput.log, hput.names⟩
    exact (hbind.note rfl).steps hl fun _ _ => .bound hc hr

/-- A request that names no socket. -/
theorem Steps.pushRequest (h : Steps Fits tcp st st') {r : IoRequest} (hr : r.socket = none) :
    Steps Fits tcp st (st'.pushRequest r) := h.trans (aloof_pushRequest st' (by simp [hr])).steps

/-- The calls about operations. -/
theorem steps_dial (st : ShardState) (target : Target) (deadline : ℕ) :
    Steps Fits tcp st (st.dial target deadline).2 := by
  unfold ShardState.dial
  dsimp only
  split
  · exact steps_tables (Nat.le_succ _) rfl rfl
  · refine Steps.pushRequest ?_ rfl
    exact steps_tables (Nat.le_succ _) rfl rfl

theorem steps_cancelDial (st : ShardState) (op : ℕ) : Steps Fits tcp st (st.cancelDial op) := by
  unfold ShardState.cancelDial
  split
  · refine Steps.pushRequest ?_ rfl
    exact steps_tables le_rfl rfl rfl
  · exact steps_tables le_rfl rfl rfl

theorem steps_resolve (st : ShardState) (target : Target) (deadline : ℕ) :
    Steps Fits tcp st (st.resolve target deadline).2 := by
  unfold ShardState.resolve
  dsimp only
  split
  · exact steps_tables (Nat.le_succ _) rfl rfl
  · refine Steps.pushRequest ?_ rfl
    exact steps_tables (Nat.le_succ _) rfl rfl

theorem steps_cancelResolve (st : ShardState) (op : ℕ) : Steps Fits tcp st (st.cancelResolve op) := by
  unfold ShardState.cancelResolve
  split
  · refine Steps.pushRequest ?_ rfl
    exact steps_tables le_rfl rfl rfl
  · exact steps_tables le_rfl rfl rfl

theorem steps_openUdpSocket (st : ShardState) (ip : IpAddr) : Steps Fits tcp st (st.openUdpSocket ip).2 := by
  refine Steps.pushRequest ?_ rfl
  exact steps_tables (Nat.le_succ _) rfl rfl

theorem steps_openAppUdpSocket (st : ShardState) (ip : IpAddr) : Steps Fits tcp st (st.openAppUdpSocket ip).2 := by
  unfold ShardState.openAppUdpSocket
  split
  · exact steps_tables (Nat.le_succ _) rfl rfl
  · exact (steps_openUdpSocket st ip).trans (steps_tables le_rfl rfl rfl)

theorem steps_cancelUdpSocket (st : ShardState) (op : ℕ) : Steps Fits tcp st (st.cancelUdpSocket op) := by
  unfold ShardState.cancelUdpSocket
  split
  · refine Steps.pushRequest ?_ rfl
    exact steps_tables le_rfl rfl rfl
  · exact steps_tables le_rfl rfl rfl

/-- A new socket is handed to the app. -/
theorem steps_born (st : ShardState) {cb : Callback} (hcb : cb.bears st.nextId) (hs : cb.socket = some st.nextId) :
    Steps Fits tcp st (st.insertAppTcp.2.note (.callback cb)) := by
  by_cases ht : st.nextId = tcp
  · subst ht
    apply ReflTransGen.single
    have hview : view st.nextId (st.insertAppTcp.2.note (.callback cb)) =
        ⟨st.nextId + 1, some (.app .new), trace st.nextId st.log ++ [.callback cb]⟩ := by
      simp [view, ShardState.insertAppTcp, ShardState.note, trace, Edge.socket, hs]
    rw [hview, view]
    exact .born hcb
  · refine Aloof.steps ⟨Nat.le_succ _, AList.lookup_insert_ne (Ne.symm ht), ?_⟩
    exact (aloof_note (e := .callback cb) st (by simp [Edge.socket, hs, ht])).trace

end Views

/-! ### The end of a socket -/

/-- The entries of a log that end a socket. -/
def Edge.isEnd : Edge → Bool
  | .request (.tcpClose _ _) => true
  | .relayEnded _ _ _ => true
  | .relayReset _ _ => true
  | _ => false

/-- A relay was started on the socket, for the stream. -/
def Edge.binds (stream : ℕ) : Edge → Bool
  | .call (.startRelay _ s (some _) _) .ok => s = stream
  | _ => false

/-- What ends a socket comes once and last: as long as the socket is in the table there is
nothing of it, and a relay that is no longer there has left exactly the entries of its end. -/
structure Ends (tcp : ℕ) (v : SockView) : Prop where
  below : v.entry.isSome → tcp < v.next
  none : v.entry.isSome ∨ v.next ≤ tcp → v.trace.filter Edge.isEnd = []
  fresh : (∃ e, v.entry = some (.app e)) ∨ v.next ≤ tcp → ∀ s, ∀ x ∈ v.trace, ¬x.binds s
  bound : ∀ s, (∃ x ∈ v.trace, x.binds s) → (∃ r, v.entry = some (.relay r) ∧ r.stream = s) ∨
    v.entry = .none ∧ ∃ e, v.trace.filter Edge.isEnd = endEdges tcp s e

variable {tcp : ℕ}

/-- Entries that neither end a socket nor bind it. -/
theorem Ends.append {v : SockView} (h : Ends tcp v) {es : List Edge} (hend : es.filter Edge.isEnd = [])
    (hbind : ∀ s, ∀ x ∈ es, ¬x.binds s) : Ends tcp ⟨v.next, v.entry, v.trace ++ es⟩ where
  below := h.below
  none hv := by
    rw [List.filter_append, hend, List.append_nil]
    exact h.none hv
  fresh hv s x hx := by
    rcases List.mem_append.mp hx with hx | hx
    · exact h.fresh hv s x hx
    · exact hbind s x hx
  bound s := by
    rintro ⟨x, hx, hs⟩
    rw [List.filter_append, hend, List.append_nil]
    rcases List.mem_append.mp hx with hx | hx
    · exact h.bound s ⟨x, hx, hs⟩
    · exact absurd hs (hbind s x hx)

/-- An entry of the app that is replaced. -/
theorem Ends.replace {n : ℕ} {e : AppTcp} {t : List Edge} (h : Ends tcp ⟨n, some (.app e), t⟩) (e' : AppTcp) :
    Ends tcp ⟨n, some (.app e'), t⟩ where
  below := h.below
  none hv := h.none hv
  fresh _ := h.fresh (Or.inl ⟨e, rfl⟩)
  bound s := by
    rintro ⟨x, hx, hs⟩
    exact absurd hs (h.fresh (Or.inl ⟨e, rfl⟩) s x hx)

/-- A socket leaves the table. -/
theorem Ends.leave {n : ℕ} {entry : TcpEntry} {t t' : List Edge} (h : Ends tcp ⟨n, some entry, t⟩)
    (hbound : ∀ s, (∃ x ∈ t', x.binds s) → ∃ e, t'.filter Edge.isEnd = endEdges tcp s e) : Ends tcp ⟨n, .none, t'⟩ where
  below := nofun
  none hv := absurd (h.below rfl) (Nat.not_lt.mpr (hv.resolve_left nofun))
  fresh hv := absurd (h.below rfl) (Nat.not_lt.mpr (hv.resolve_left nofun))
  bound s hs := Or.inr ⟨rfl, hbound s hs⟩

/-- A socket of the app is closed. -/
theorem Ends.close {n : ℕ} {e : AppTcp} {t : List Edge} (h : Ends tcp ⟨n, some (.app e), t⟩) {es : List Edge}
    (hbind : ∀ s, ∀ x ∈ es, ¬x.binds s) : Ends tcp ⟨n, .none, t ++ es⟩ := by
  refine h.leave fun s => ?_
  rintro ⟨x, hx, hs⟩
  rcases List.mem_append.mp hx with hx | hx
  · exact absurd hs (h.fresh (Or.inl ⟨e, rfl⟩) s x hx)
  · exact absurd hs (hbind s x hx)

theorem isEnd_endEdges (tcp s : ℕ) (e : RelayEnd) : (endEdges tcp s e).filter Edge.isEnd = endEdges tcp s e := by
  cases e <;> rfl

theorem not_binds_endEdges (tcp s : ℕ) (e : RelayEnd) (s' : ℕ) : ∀ x ∈ endEdges tcp s e, ¬x.binds s' := by
  cases e <;> simp [endEdges, Edge.binds]

theorem not_binds_call {c : CxCall} {a : Answer} (h : c.inert a ∨ c.releases a) (s : ℕ) : ¬(Edge.call c a).binds s := by
  unfold Edge.binds
  split
  · next hc =>
    cases hc
    rcases h with h | h <;> exact h.elim
  · simp

/-- **A socket ends once and last.** -/
theorem Ends.step {Fits : AppTcp → List UInt8 → Prop} {v v' : SockView} (h : Ends tcp v)
    (hstep : SockStep Fits tcp v v') : Ends tcp v' := by
  cases hstep with
  | other hle =>
    refine ⟨fun hv => (h.below hv).trans_le hle, fun hv => h.none (hv.imp_right hle.trans),
      fun hv => h.fresh (hv.imp_right hle.trans), h.bound⟩
  | @born entry t c hc =>
    have hnone := h.none (Or.inr le_rfl)
    have hfresh := h.fresh (Or.inr le_rfl)
    have hbind (s : ℕ) : ∀ x ∈ t ++ [Edge.callback c], ¬x.binds s := by
      intro x hx
      rcases List.mem_append.mp hx with hx | hx
      · exact hfresh s x hx
      · rw [List.mem_singleton.mp hx]
        exact Bool.false_ne_true
    refine ⟨fun _ => Nat.lt_succ_self _, fun _ => ?_, fun _ => hbind, fun s => ?_⟩
    · rw [List.filter_append, hnone]
      rfl
    · rintro ⟨x, hx, hs⟩
      exact absurd hs (hbind s x hx)
  | called hs hc => exact h.append rfl fun s x hx => List.mem_singleton.mp hx ▸ not_binds_call (Or.inl hc) s
  | setRead on hc => exact h.replace _
  | setRxLimit k hc => exact (h.replace _).append rfl (by simp [Edge.binds])
  | rxLimitIgnored k ho => exact h.append rfl (by simp [Edge.binds])
  | @asked n e t r hr hclose hc =>
    refine h.append ?_ (by simp [Edge.binds])
    cases r with
    | tcpClose t' abort =>
      obtain rfl : t' = tcp := Option.some.inj hr
      exact absurd rfl (hclose abort)
    | _ => rfl
  | consumed k hc hk => exact (h.replace _).append rfl (by simp [Edge.binds])
  | accepted bytes hc hfits => exact (h.replace _).append rfl (by simp [Edge.binds])
  | refused bytes hc => exact (h.replace _).append rfl (by simp [Edge.binds])
  | writeIgnored bytes ho => exact h.append rfl (by simp [Edge.binds])
  | closing hc htx => exact h.replace _
  | closed hc htx => exact h.close (by simp [Edge.binds])
  | aborted => exact h.close (by simp [Edge.binds])
  | released hs hc ho => exact h.append rfl fun s x hx => List.mem_singleton.mp hx ▸ not_binds_call (Or.inr hc) s
  | @bound n e t stream conn preread r hc hr =>
    have hstream := (Relay.kept_start hr).2.1
    have hnone := h.none (Or.inl rfl)
    refine ⟨fun _ => h.below rfl, fun _ => ?_, fun hv => ?_, fun s => ?_⟩
    · rw [List.filter_append, hnone]
      rfl
    · exact absurd (h.below rfl) (Nat.not_lt.mpr (hv.resolve_left nofun))
    · rintro ⟨x, hx, hs⟩
      rcases List.mem_append.mp hx with hx | hx
      · exact absurd hs (h.fresh (Or.inl ⟨e, rfl⟩) s x hx)
      · obtain rfl := List.mem_singleton.mp hx
        exact Or.inl ⟨r, rfl, hstream.trans (of_decide_eq_true hs)⟩
  | read bs hc hne hfits => exact (h.replace _).append rfl (by simp [Edge.binds])
  | eof hc => exact (h.replace _).append rfl (by simp [Edge.binds])
  | failed kind hc => exact h.close (by simp [Edge.binds])
  | wrote k hk => exact (h.replace _).append rfl (by simp [Edge.binds])
  | drained k hc hk => exact h.close (by simp [Edge.binds])
  | writable k hc hw hk => exact (h.replace _).append rfl (by simp [Edge.binds])
  | @relayed n r r' t hs =>
    refine ⟨h.below, h.none, fun hv => h.fresh (Or.inr (hv.resolve_left nofun)), fun s hx => ?_⟩
    · rcases h.bound s hx with ⟨r₀, hr₀, hs₀⟩ | ⟨hnone, -⟩
      · cases hr₀
        exact Or.inl ⟨r', rfl, hs.trans hs₀⟩
      · cases hnone
  | shutWrite => exact h.append rfl (by simp [Edge.binds])
  | @ended n r t e =>
    have hnone : t.filter Edge.isEnd = [] := h.none (Or.inl rfl)
    refine h.leave fun s => ?_
    rintro ⟨x, hx, hs⟩
    refine ⟨e, ?_⟩
    rw [List.filter_append, hnone, List.nil_append, isEnd_endEdges]
    rcases List.mem_append.mp hx with hx | hx
    · rcases h.bound s ⟨x, hx, hs⟩ with ⟨r₀, hr₀, hs₀⟩ | ⟨hnone, -⟩
      · cases hr₀
        rw [hs₀]
      · cases hnone
    · exact absurd hs (not_binds_endEdges _ _ _ s x hx)

end MqProxy.Runtime
