import MqProxy.Runtime.ShardSockets

/-!
# What a step of a shard can do

Most functions of a shard are about no dial, resolution or socket open and hand out no id: `Frame` is
what these leave alone. Those that touch no relay leave the routing of streams alone as well (`Still`).
Seen from a socket, what they do is on the list of its steps (`Works`, `Moves`).

**`turn_of_step`** lists what a step can do: it leaves all of this alone, a relay works and is settled,
the app makes a call, a socket or a listener gets an id, an operation is answered, a batch of refused
operations is taken, an event is dispatched or a pass over the events ends. The invariants of a shard
are derived from this list.
-/

namespace MqProxy.Runtime

open MqProxy.Library

/-! ### What is left of an input -/

/-- The kinds of operations. -/
inductive OpKind where
  | dial
  | resolve
  | udpSocket
  deriving DecidableEq

/-- The operations in the batch being delivered. -/
def OpKind.batch : OpKind → Cont → List ℕ
  | .dial, .limited ops => ops
  | .udpSocket, .limitedUdp ops => ops
  | _, _ => []

/-- The streams to forget at the end of the pass. -/
def Cont.closed : Cont → List ℕ
  | .dispatch closed => closed
  | _ => []

/-- A pass over the events is going on. -/
def Cont.inPass : Cont → Bool
  | .dispatch _ => true
  | _ => false

/-- No batch is taken or shortened, no stream is added to those to forget, and no pass ends. -/
structure Cont.Follows (k k' : Cont) : Prop where
  batch : ∀ o : OpKind, o.batch k' = o.batch k
  closed : k'.closed = k.closed
  inPass : k'.inPass = false → k.inPass = false

theorem Cont.Follows.refl (k : Cont) : Follows k k := ⟨fun _ => rfl, rfl, fun h => h⟩

/-! ### Entries that are about no operation -/

/-- Requests about no operation. -/
def IoRequest.bare : IoRequest → Bool
  | .closeUdpSocket _ => true
  | .tcpShutdownWrite _ => true
  | .tcpSetNodelay _ => true
  | .tcpSetKeepalive _ _ => true
  | .tcpClose _ _ => true
  | _ => false

/-- Callbacks about no operation and no event that hand out nothing. -/
def Callback.bare : Callback → Bool
  | .transportEvent _ => false
  | .accepted _ _ => false
  | .dialResult _ _ => false
  | .resolveResult _ _ => false
  | .udpSocket _ _ => false
  | _ => true

/-- Calls about no operation that start no relay and get no id. -/
def CxCall.bare : CxCall → Bool
  | .dial _ _ => false
  | .cancelDial _ => false
  | .resolve _ _ => false
  | .cancelResolve _ => false
  | .openUdpSocket _ => false
  | .openAppUdpSocket _ => false
  | .cancelUdpSocket _ => false
  | .startRelay _ _ _ _ => false
  | .setTimer _ => false
  | _ => true

/-- Entries of the log about no operation, no call and no event that hand out nothing. -/
def Edge.bare : Edge → Bool
  | .callback cb => cb.bare
  | .call _ _ => false
  | .request r => r.bare
  | .polled _ => false
  | .passEnd => false
  | _ => true

/-! ### What is left alone -/

/-- The tables of the operations and the next id. -/
def ShardState.ops (st : ShardState) :
    ℕ × Finset ℕ × List ℕ × Finset ℕ × List (ℕ × SocketAddr) × Finset ℕ × Finset ℕ × List ℕ :=
  (st.nextId, st.dials, st.limited, st.resolves, st.resolved, st.socketOps, st.appUdpOps, st.limitedUdp)

/-- The operations are left alone, and sockets may only go. -/
structure Frame (st st' : ShardState) : Prop where
  ops : st'.ops = st.ops
  tcp : st'.tcp.keys ⊆ st.tcp.keys
  udp : st'.udp.entries.Sublist st.udp.entries
  log : ∃ es, st'.log = st.log ++ es ∧ ∀ e ∈ es, e.bare = true

/-- The streams and the relays are left alone, too. -/
structure Still (st st' : ShardState) : Prop extends Frame st st' where
  streams : st'.streams = st.streams
  dead : st'.deadStreams = st.deadStreams
  relays : ∀ tcp r, st'.tcp.lookup tcp = some (.relay r) ↔ st.tcp.lookup tcp = some (.relay r)

/-- The operations are left alone, and what happens to a socket is on the list. -/
structure Works (Fits : AppTcp → List UInt8 → Prop) (st st' : ShardState) : Prop extends Frame st st' where
  steps : ∀ tcp, Steps Fits tcp st st'

/-- The streams and the relays are left alone, too. -/
structure Moves (Fits : AppTcp → List UInt8 → Prop) (st st' : ShardState) : Prop extends Still st st' where
  steps : ∀ tcp, Steps Fits tcp st st'

section Frame

variable {Fits : AppTcp → List UInt8 → Prop} {st st' st'' : ShardState}

theorem Frame.refl (st : ShardState) : Frame st st :=
  ⟨rfl, List.Subset.refl _, List.Sublist.refl _, [], (List.append_nil _).symm, by simp⟩

theorem Frame.trans (h : Frame st st') (h' : Frame st' st'') : Frame st st'' := by
  obtain ⟨es, hes, hbare⟩ := h.log
  obtain ⟨es', hes', hbare'⟩ := h'.log
  refine ⟨h'.ops.trans h.ops, List.Subset.trans h'.tcp h.tcp, h'.udp.trans h.udp, es ++ es', ?_, fun e he => ?_⟩
  · rw [hes', hes, List.append_assoc]
  · exact (List.mem_append.mp he).elim (hbare e) (hbare' e)

theorem Still.refl (st : ShardState) : Still st st := ⟨.refl st, rfl, rfl, fun _ _ => Iff.rfl⟩

theorem Still.trans (h : Still st st') (h' : Still st' st'') : Still st st'' :=
  ⟨h.toFrame.trans h'.toFrame, h'.streams.trans h.streams, h'.dead.trans h.dead,
    fun tcp r => (h'.relays tcp r).trans (h.relays tcp r)⟩

theorem Works.refl (st : ShardState) : Works Fits st st := ⟨.refl st, fun _ => .refl st⟩

theorem Works.trans (h : Works Fits st st') (h' : Works Fits st' st'') : Works Fits st st'' :=
  ⟨h.toFrame.trans h'.toFrame, fun tcp => (h.steps tcp).trans (h'.steps tcp)⟩

theorem Moves.refl (st : ShardState) : Moves Fits st st := ⟨.refl st, fun _ => .refl st⟩

theorem Moves.trans (h : Moves Fits st st') (h' : Moves Fits st' st'') : Moves Fits st st'' :=
  ⟨h.toStill.trans h'.toStill, fun tcp => (h.steps tcp).trans (h'.steps tcp)⟩

theorem Moves.works (h : Moves Fits st st') : Works Fits st st' := ⟨h.toFrame, h.steps⟩

/-- The functions on a list of things to do. -/
theorem foldl_trans {α : Type} {R : ShardState → ShardState → Prop} (hrefl : ∀ st, R st st)
    (htrans : ∀ st st' st'', R st st' → R st' st'' → R st st'') {f : ShardState → α → ShardState}
    (hf : ∀ st a, R st (f st a)) (l : List α) (st : ShardState) : R st (l.foldl f st) := by
  induction l generalizing st with
  | nil => exact hrefl st
  | cons a l ih => exact htrans _ _ _ (hf st a) (ih (f st a))

theorem keys_insert_subset {t : AList fun _ : ℕ => TcpEntry} {k : ℕ} {e e' : TcpEntry} (hk : t.lookup k = some e) :
    (t.insert k e').keys ⊆ t.keys := by
  have hmem : k ∈ t.keys := AList.lookup_isSome.mp (by rw [hk]; rfl)
  intro x hx
  rw [AList.keys_insert, List.mem_cons] at hx
  rcases hx with rfl | hx
  · exact hmem
  · exact List.mem_of_mem_erase hx

theorem keys_erase_subset (t : AList fun _ : ℕ => TcpEntry) (k : ℕ) : (t.erase k).keys ⊆ t.keys := by
  rw [AList.keys_erase]
  exact List.erase_subset

theorem still_note (st : ShardState) {e : Edge} (he : e.bare = true) : Still st (st.note e) :=
  ⟨⟨rfl, List.Subset.refl _, List.Sublist.refl _, [e], rfl, by simpa using he⟩, rfl, rfl, fun _ _ => Iff.rfl⟩

theorem still_pushRequest (st : ShardState) {r : IoRequest} (hr : r.bare = true) : Still st (st.pushRequest r) :=
  ⟨⟨rfl, List.Subset.refl _, List.Sublist.refl _, [.request r], rfl, by simpa [Edge.bare] using hr⟩, rfl, rfl,
    fun _ _ => Iff.rfl⟩

/-- An entry of the log, or a request, that names no socket. -/
theorem moves_note (st : ShardState) {e : Edge} (he : e.bare = true) (hs : e.socket = none) :
    Moves Fits st (st.note e) := ⟨still_note st he, fun _ => (aloof_note st (by simp [hs])).steps⟩

theorem moves_pushRequest (st : ShardState) {r : IoRequest} (hr : r.bare = true) (hs : r.socket = none) :
    Moves Fits st (st.pushRequest r) := ⟨still_pushRequest st hr, fun _ => (aloof_pushRequest st (by simp [hs])).steps⟩

/-- The requests, the timers and the paths may change. -/
theorem still_tables (hops : st'.ops = st.ops) (htcp : st'.tcp = st.tcp) (hudp : st'.udp = st.udp)
    (hstreams : st'.streams = st.streams) (hdead : st'.deadStreams = st.deadStreams) (hlog : st'.log = st.log) :
    Still st st' :=
  ⟨⟨hops, by rw [htcp]; exact List.Subset.refl _, by rw [hudp], [], by rw [hlog, List.append_nil], by simp⟩, hstreams,
    hdead, fun tcp r => by rw [htcp]⟩

theorem moves_tables (hops : st'.ops = st.ops) (htcp : st'.tcp = st.tcp) (hudp : st'.udp = st.udp)
    (hstreams : st'.streams = st.streams) (hdead : st'.deadStreams = st.deadStreams) (hlog : st'.log = st.log) :
    Moves Fits st st' :=
  ⟨still_tables hops htcp hudp hstreams hdead hlog, fun _ => steps_tables (congrArg Prod.fst hops).ge htcp hlog⟩

/-- A change of the TCP table and of those of the streams. -/
theorem frame_tcp (hops : st'.ops = st.ops) (htcp : st'.tcp.keys ⊆ st.tcp.keys) (hudp : st'.udp = st.udp)
    (hlog : st'.log = st.log) : Frame st st' :=
  ⟨hops, htcp, by rw [hudp], [], by rw [hlog, List.append_nil], by simp⟩

theorem frame_putTcp {t : ℕ} {e : TcpEntry} (h : st.tcp.lookup t = some e) (e' : TcpEntry) :
    Frame st (st.putTcp t e') := frame_tcp rfl (keys_insert_subset h) rfl rfl

/-- A socket of the app changes. -/
theorem still_putApp {t : ℕ} {e : AppTcp} (he : st.tcp.lookup t = some (.app e)) (e' : AppTcp) :
    Still st (st.putTcp t (.app e')) := by
  refine ⟨frame_putTcp he _, rfl, rfl, fun t' r => ?_⟩
  by_cases hne : t' = t
  · subst hne
    simp [ShardState.putTcp, AList.lookup_insert, he]
  · rw [ShardState.putTcp, AList.lookup_insert_ne hne]

/-- A socket of the app is closed. -/
theorem still_closeNow {t : ℕ} {e : AppTcp} (he : st.tcp.lookup t = some (.app e)) (abort : Bool) :
    Still st (st.closeNow t abort) := by
  have herased : Frame st { st with tcp := st.tcp.erase t } := frame_tcp rfl (keys_erase_subset st.tcp t) rfl rfl
  refine ⟨herased.trans (still_pushRequest _ rfl).toFrame, rfl, rfl, fun t' r => ?_⟩
  by_cases hne : t' = t
  · subst hne
    simp [lookup_closeNow, he]
  · have hsame : (st.closeNow t abort).tcp.lookup t' = st.tcp.lookup t' := AList.lookup_erase_ne hne
    rw [hsame]

/-! ### UDP sockets and the calls -/

theorem moves_closeUdpSocket (st : ShardState) (sock : ℕ) : Moves Fits st (st.closeUdpSocket sock) := by
  unfold ShardState.closeUdpSocket
  split
  · exact .refl st
  · refine Moves.trans ⟨?_, fun _ => ?_⟩ (moves_pushRequest _ rfl rfl)
    · exact ⟨⟨rfl, List.Subset.refl _, List.kerase_sublist sock _, [], (List.append_nil _).symm, by simp⟩, rfl, rfl,
        fun _ _ => Iff.rfl⟩
    · exact steps_tables le_rfl rfl rfl

theorem moves_closePathSocket (st : ShardState) (conn path : ℕ) : Moves Fits st (st.closePathSocket conn path) := by
  unfold ShardState.closePathSocket
  split
  · exact .refl st
  · refine Moves.trans ?_ (moves_closeUdpSocket _ _)
    exact moves_tables rfl rfl rfl rfl rfl rfl

theorem moves_closeConnSockets (st : ShardState) (conn : ℕ) : Moves Fits st (st.closeConnSockets conn) := by
  refine Moves.trans ?_ (foldl_trans Moves.refl (fun _ _ _ => .trans) moves_closeUdpSocket _ _)
  exact moves_tables rfl rfl rfl rfl rfl rfl

theorem moves_addPath (st : ShardState) (conn sock : ℕ) (path : Option ℕ) :
    Moves Fits st (st.addPath conn sock path).2 := by
  unfold ShardState.addPath
  split
  · split
    · exact moves_tables rfl rfl rfl rfl rfl rfl
    · exact .refl st
  · exact .refl st

/-- A call that needs a socket of the app. -/
theorem still_appTcp {t : ℕ} {f : AppTcp → ShardState} (hf : ∀ e, st.tcp.lookup t = some (.app e) → Still st (f e)) :
    Still st (match st.appTcp t with | none => st | some e => f e) := by
  split
  · exact .refl st
  · next e he => exact hf e (owned_appTcp he).1

/-- **The calls** about no operation that start no relay and get no id. -/
theorem still_perform (st : ShardState) {c : CxCall} (hc : c.bare = true) : Still st (st.perform c).2 := by
  have hasked (t : ℕ) (r : IoRequest) (hr : r.bare = true) :
      Still st (if (st.appTcp t).isSome then st.pushRequest r else st) := by
    split
    · exact still_pushRequest st hr
    · exact .refl st
  cases c with
  | closeUdpSocket sock => exact (moves_closeUdpSocket st sock : Moves (fun _ _ => True) _ _).toStill
  | addPath conn sock path => exact (moves_addPath st conn sock path : Moves (fun _ _ => True) _ _).toStill
  | tcpConsume t n => exact still_appTcp fun e he => (still_putApp he _).trans (still_note _ rfl)
  | tcpWrite t bytes =>
    unfold ShardState.perform ShardState.tcpWrite
    dsimp only
    split
    · exact .refl st
    · next e he => split <;> exact still_putApp (owned_appTcp he).1 _
  | tcpSetRead t on => exact still_appTcp fun e he => still_putApp he _
  | tcpSetRxLimit t n => exact still_appTcp fun e he => still_putApp he _
  | tcpSetNodelay t => exact hasked t _ rfl
  | tcpSetKeepalive t ka => exact hasked t _ rfl
  | tcpClose t =>
    refine still_appTcp fun e he => ?_
    split
    · exact still_closeNow he _
    · exact still_putApp he _
  | tcpAbort t =>
    unfold ShardState.perform ShardState.tcpAbort
    dsimp only
    split
    · next e he => exact still_closeNow he _
    · exact .refl st
  | cancelTimer id => exact still_tables rfl rfl rfl rfl rfl rfl
  | dial | cancelDial | resolve | cancelResolve | openUdpSocket | openAppUdpSocket | cancelUdpSocket | startRelay
    | setTimer => cases hc

/-- **A call of the app, seen from a socket.** -/
theorem steps_call {τ : Type} {tcp : ℕ} (sh : Shard τ) (c : CxCall) : Steps Fits tcp sh.st (sh.call c).st := by
  -- what is about no socket is not in the log of one
  have hother (h : Steps Fits tcp sh.st (sh.st.perform c).2) (hc : c.socket = none) :
      Steps Fits tcp sh.st (sh.call c).st := h.trans (steps_no_socket _ hc _)
  cases c with
  | dial target deadline => exact hother (steps_dial _ _ _) rfl
  | cancelDial op => exact hother (steps_cancelDial _ _) rfl
  | resolve target deadline => exact hother (steps_resolve _ _ _) rfl
  | cancelResolve op => exact hother (steps_cancelResolve _ _) rfl
  | openUdpSocket ip => exact hother (steps_openUdpSocket _ _) rfl
  | openAppUdpSocket ip => exact hother (steps_openAppUdpSocket _ _) rfl
  | cancelUdpSocket op => exact hother (steps_cancelUdpSocket _ _) rfl
  | closeUdpSocket sock => exact hother ((moves_closeUdpSocket _ _).steps tcp) rfl
  | addPath conn sock path => exact hother ((moves_addPath _ _ _ _).steps tcp) rfl
  | tcpConsume t n => exact (steps_tcpConsume _ _ _).trans (steps_called _ rfl trivial)
  | tcpWrite t bytes => exact steps_tcpWrite _ _ _
  | tcpSetRead t on => exact (steps_tcpSetRead _ _ _).trans (steps_called _ rfl trivial)
  | tcpSetRxLimit t n => exact steps_tcpSetRxLimit _ _ _
  | tcpSetNodelay t => exact (steps_asked _ rfl (by simp)).trans (steps_called _ rfl trivial)
  | tcpSetKeepalive t ka => exact (steps_asked _ rfl (by simp)).trans (steps_called _ rfl trivial)
  | tcpClose t => exact (steps_tcpClose _ t).trans (steps_released _ rfl trivial (not_owned_tcpClose _ t))
  | tcpAbort t => exact (steps_tcpAbort _ t).trans (steps_released _ rfl trivial (not_owned_tcpAbort _ t))
  | startRelay t stream conn preread => exact steps_startRelay _ _ _ _ _
  | setTimer at_ => exact hother (steps_tables (Nat.le_succ _) rfl rfl) rfl
  | cancelTimer id => exact hother (steps_tables le_rfl rfl rfl) rfl

/-! ### Relays -/

variable {t : ℕ} {r : Relay}

/-- A relay works: any relay for the same stream takes its place. -/
theorem works_putRelay {r' : Relay} (hr : st.tcp.lookup t = some (.relay r)) (hs : r'.stream = r.stream) :
    Works Fits st (st.putTcp t (.relay r')) := by
  refine ⟨frame_putTcp hr _, fun tcp => ((Touches.refl st t rfl).putTcp _).steps hr fun n tr => ?_⟩
  rw [List.append_nil]
  exact .relayed hs

theorem works_shutWrite (hr : st.tcp.lookup t = some (.relay r)) :
    Works Fits st (st.pushRequest (.tcpShutdownWrite t)) :=
  ⟨(still_pushRequest st rfl).toFrame, fun _ => ((Touches.refl st t hr).pushRequest rfl).steps hr fun _ _ => .shutWrite⟩

theorem log_endRelay (st : ShardState) (t : ℕ) (r : Relay) (e : RelayEnd) :
    (st.endRelay t r e).log = st.log ++ endEdges t r.stream e := by
  cases e <;> simp [ShardState.endRelay, ShardState.note, ShardState.pushRequest, ShardState.unbind, endEdges]

theorem socket_endEdges (t s : ℕ) (e : RelayEnd) : ∀ x ∈ endEdges t s e, x.socket = some t := by
  cases e <;> simp [endEdges, Edge.socket, IoRequest.socket]

theorem tcp_endRelay (st : ShardState) (t : ℕ) (r : Relay) (e : RelayEnd) :
    (st.endRelay t r e).tcp = st.tcp.erase t := by
  cases e <;> rfl

theorem nextId_endRelay (st : ShardState) (t : ℕ) (r : Relay) (e : RelayEnd) :
    (st.endRelay t r e).nextId = st.nextId := by
  cases e <;> rfl

theorem works_endRelay (hr : st.tcp.lookup t = some (.relay r)) (e : RelayEnd) : Works Fits st (st.endRelay t r e) := by
  refine ⟨⟨by cases e <;> rfl, ?_, by cases e <;> exact .refl _, _, log_endRelay st t r e, ?_⟩, fun tcp => ?_⟩
  · rw [tcp_endRelay]
    exact keys_erase_subset _ _
  · cases e <;> simp [endEdges, Edge.bare, IoRequest.bare]
  have htouch : Touches t none (endEdges t r.stream e) st (st.endRelay t r e) := by
    refine ⟨nextId_endRelay .., ?_, fun u hu => ?_, log_endRelay .., socket_endEdges _ _ _⟩
    · rw [tcp_endRelay, AList.lookup_erase]
    · rw [tcp_endRelay, AList.lookup_erase_ne hu]
  exact htouch.steps hr fun _ _ => .ended e

/-- What `settle_relay` does before a relay may end. -/
def shutIfOwed (st : ShardState) (t : ℕ) (r : Relay) : ShardState :=
  if (ShardState.settled r).2 then (st.putTcp t (.relay (ShardState.settled r).1)).pushRequest (.tcpShutdownWrite t)
  else st.putTcp t (.relay (ShardState.settled r).1)

/-- **The two outcomes of `settle_relay`.** -/
theorem settleRelay_eq (hr : st.tcp.lookup t = some (.relay r)) : st.settleRelay t =
      match (ShardState.settled r).1.endReason with
      | none => shutIfOwed st t r
      | some e => (shutIfOwed st t r).endRelay t (ShardState.settled r).1 e := by
  unfold ShardState.settleRelay
  rw [hr]
  rfl

theorem lookup_shutIfOwed (st : ShardState) (t : ℕ) (r : Relay) :
    (shutIfOwed st t r).tcp.lookup t = some (.relay (ShardState.settled r).1) := by
  unfold shutIfOwed
  split
  · exact AList.lookup_insert _
  · exact AList.lookup_insert _

theorem works_shutIfOwed (hr : st.tcp.lookup t = some (.relay r)) : Works Fits st (shutIfOwed st t r) := by
  have hput : Works Fits st (st.putTcp t (.relay (ShardState.settled r).1)) :=
    works_putRelay hr (Relay.evolves_settled r).stream
  unfold shutIfOwed
  split
  · exact hput.trans (works_shutWrite (AList.lookup_insert _))
  · exact hput

theorem settleRelay_of_not_relay (h : ∀ r, st.tcp.lookup t ≠ some (.relay r)) : st.settleRelay t = st := by
  unfold ShardState.settleRelay
  split
  · next r hr => exact absurd hr (h r)
  · rfl

theorem works_settleRelay (st : ShardState) (t : ℕ) : Works Fits st (st.settleRelay t) := by
  by_cases h : ∃ r, st.tcp.lookup t = some (.relay r)
  · obtain ⟨r, hr⟩ := h
    rw [settleRelay_eq hr]
    split
    · exact works_shutIfOwed hr
    · exact (works_shutIfOwed hr).trans (works_endRelay (lookup_shutIfOwed st t r) _)
  · rw [settleRelay_of_not_relay fun r hr => h ⟨r, hr⟩]
    exact .refl st

/-- A relay works and is settled. -/
theorem works_relayOp {r' : Relay} (hr : st.tcp.lookup t = some (.relay r)) (hs : r'.stream = r.stream) :
    Works Fits st ((st.putTcp t (.relay r')).settleRelay t) := (works_putRelay hr hs).trans (works_settleRelay _ _)

theorem works_relayEvent (ev : Event) (st : ShardState) (t : ℕ) : Works Fits st (Shard.relayEvent ev st t) := by
  unfold Shard.relayEvent
  split
  · next r hr => exact works_putRelay hr (Relay.hears r ev).stream
  · exact .refl st

theorem works_connClosed (st : ShardState) (conn : ℕ) : Works Fits st (Shard.connClosed st conn) := by
  refine (foldl_trans Works.refl (fun _ _ _ => .trans) (works_relayEvent (.connClosed conn))
    (Shard.swept st conn) st).trans ?_
  refine (foldl_trans Works.refl (fun _ _ _ => .trans) works_settleRelay (Shard.swept st conn) _).trans ?_
  refine Works.trans ?_ (moves_closeConnSockets _ conn).works
  exact ⟨frame_tcp rfl (List.Subset.refl _) rfl rfl, fun _ => steps_tables le_rfl rfl rfl⟩

/-- Those that other modules need, whatever is read. -/
theorem still_closePathSocket (st : ShardState) (conn path : ℕ) : Still st (st.closePathSocket conn path) :=
  (moves_closePathSocket st conn path : Moves (fun _ _ => True) _ _).toStill

theorem still_closeConnSockets (st : ShardState) (conn : ℕ) : Still st (st.closeConnSockets conn) :=
  (moves_closeConnSockets st conn : Moves (fun _ _ => True) _ _).toStill

theorem frame_settleRelay (st : ShardState) (t : ℕ) : Frame st (st.settleRelay t) :=
  (works_settleRelay st t : Works (fun _ _ => True) _ _).toFrame

theorem frame_connClosed (st : ShardState) (conn : ℕ) : Frame st (Shard.connClosed st conn) :=
  (works_connClosed st conn : Works (fun _ _ => True) _ _).toFrame

/-- What `dispatch` does besides the two entries of the event. -/
theorem rel_dispatch {τ : Type} {R : ShardState → ShardState → Prop} (htrans : ∀ {a b c}, R a b → R b c → R a c)
    (hworks : ∀ {a b}, Works Fits a b → R a b) (hpolled : ∀ st ev, R st (st.note (.polled ev)))
    (htold : ∀ st ev, R st (st.note (.callback (.transportEvent ev)))) (sh : Shard τ) (closed : List ℕ) (ev : Polled) :
    R sh.st (sh.dispatch closed ev).st := by
  have hstream (ev : Event) (st : ShardState) (s : ℕ) : R st (sh.streamEvent st closed ev s).st := by
    unfold Shard.streamEvent
    dsimp only
    split
    · exact hworks ((works_relayEvent _ _ _).trans (works_settleRelay _ _))
    · split
      · exact hworks (.refl st)
      · exact htold st _
  unfold Shard.dispatch
  dsimp only
  refine htrans (hpolled sh.st ev) ?_
  split
  · exact hstream _ _ _
  · exact hstream _ _ _
  · exact hstream _ _ _
  · exact htrans (hworks (works_connClosed _ _)) (htold _ _)
  · exact htold _ _
  · exact htrans (hworks (moves_closePathSocket _ _ _).works) (htold _ _)

theorem frame_startRelay (st : ShardState) (t stream : ℕ) (conn : Option ℕ) (preread : StreamPreread) :
    Frame st (st.startRelay t stream conn preread).2 := by
  have h := startsRelay st t stream conn preread
  generalize st.startRelay t stream conn preread = r at h
  cases h with
  | refused => exact .refl st
  | stale hl => exact ((still_closeNow hl true).trans (still_note _ rfl)).toFrame
  | bound hl hc hs hr => exact frame_tcp rfl (keys_insert_subset hl) rfl rfl

end Frame

/-! ### The steps -/

section Turns

variable {Fits : AppTcp → List UInt8 → Prop} {τ : Type} {T : ℕ → Transport τ} {sh sh' : Shard τ} {a : Action τ}

/-- What the driver may read into the buffers of the sockets that the app owns. -/
def ReadsFit (Fits : AppTcp → List UInt8 → Prop) (sh : Shard τ) : Action τ → Prop
  | .rxCommit t (.bytes bs) => ∀ e, sh.st.tcp.lookup t = some (.app e) → Fits e bs
  | _ => True

theorem readsFit_any (sh : Shard τ) (a : Action τ) : ReadsFit (fun _ _ => True) sh a := by
  unfold ReadsFit
  split
  · exact fun _ _ => trivial
  · trivial

/-- **What a step of a shard can do.** -/
inductive Turn (Fits : AppTcp → List UInt8 → Prop) (sh : Shard τ) : Action τ → Shard τ → Prop
  | still {a : Action τ} {sh' : Shard τ} : Moves Fits sh.st sh'.st → sh.control.cont.Follows sh'.control.cont →
      sh'.listeners = sh.listeners → Turn Fits sh a sh'
  | relay {a : Action τ} {sh' : Shard τ} {tcp : ℕ} {r r' : Relay} : sh.st.tcp.lookup tcp = some (.relay r) →
      r.Evolves r' → (r.Kept → r'.Unfinished) → sh'.st = (sh.st.putTcp tcp (.relay r')).settleRelay tcp →
      sh.control.cont.inPass = false → sh.control.cont.Follows sh'.control.cont → sh'.listeners = sh.listeners →
      Turn Fits sh a sh'
  | call {k : Cont} (c : CxCall) : sh.control = .app k → Turn Fits sh (.call c) (sh.call c)
  | accepted {a : Action τ} (tag : ℕ) : sh.control = .shard .done → ¬sh.st.atCap = true →
      Turn Fits sh a (sh.callApp sh.st.insertAppTcp.2 (.accepted tag sh.st.insertAppTcp.1) .done)
  | listener {a : Action τ} (tag : ℕ) : sh.control = .shard .done → Turn Fits sh a (sh.addListener tag)
  | dialResult {a : Action τ} {op : ℕ} (r : Except DialError SocketAddr) : sh.control = .shard .done →
      op ∈ sh.st.dials → Turn Fits sh a (sh.onDialResult op r)
  | resolveResult {a : Action τ} {op : ℕ} (r : Except DialError SocketAddr) : sh.control = .shard .done →
      op ∈ sh.st.resolves → Turn Fits sh a (sh.onResolveResult op r)
  | udpSocket {a : Action τ} {op : ℕ} (r : Except ErrorKind SocketAddr) : sh.control = .shard .done →
      op ∈ sh.st.socketOps → Turn Fits sh a (sh.onUdpSocket op r)
  | dialRefused {a : Action τ} {op : ℕ} {ops : List ℕ} : sh.control = .shard (.limited (op :: ops)) →
      Turn Fits sh a (sh.callApp sh.st (.dialResult op (.error .limit)) (.limited ops))
  | openRefused {a : Action τ} {op : ℕ} {ops : List ℕ} : sh.control = .shard (.limitedUdp (op :: ops)) →
      Turn Fits sh a (sh.callApp sh.st (.udpSocket op (.error .other)) (.limitedUdp ops))
  | resolved {a : Action τ} {turns op : ℕ} {addr : SocketAddr} {rest : List (ℕ × SocketAddr)} :
      sh.control = .shard (.resolved (turns + 1)) → sh.st.resolved = (op, addr) :: rest →
      Turn Fits sh a (sh.callApp { sh.st with resolved := rest } (.resolveResult op (.ok addr)) (.resolved turns))
  | takeLimitedUdp {a : Action τ} {turns : ℕ} : sh.control = .shard (.resolved turns) → Turn Fits sh a sh.takeLimitedUdp
  | event {closed : List ℕ} (ev : Polled) : sh.control = .shard (.dispatch closed) →
      Turn Fits sh (.poll (some ev)) (sh.dispatch closed ev)
  | passEnd {closed : List ℕ} : sh.control = .shard (.dispatch closed) → Turn Fits sh (.poll none) (sh.passEnd closed)

theorem turn_refl (a : Action τ) : Turn Fits sh a sh := .still (.refl _) (.refl _) rfl

/-- A callback that is about no operation and names no socket. -/
theorem turn_callApp {st : ShardState} {cb : Callback} {k k' : Cont} (hc : sh.control = .shard k)
    (hst : Moves Fits sh.st st) (hcb : cb.bare = true) (hs : cb.socket = none) (hk : k.Follows k') :
    Turn Fits sh a (sh.callApp st cb k') :=
  .still (hst.trans (moves_note st hcb hs)) (by rw [hc]; exact hk) rfl

theorem turn_goOn {st : ShardState} {k k' : Cont} (hc : sh.control = .shard k) (hst : Moves Fits sh.st st)
    (hk : k.Follows k') : Turn Fits sh a (sh.goOn st k') :=
  .still hst (by rw [hc]; exact hk) rfl

/-- What the shard does with a socket that the app owns, and leaves it at that. -/
theorem turn_app (hc : sh.control = .shard .done) {tcp : ℕ} {e : AppTcp} (he : sh.st.tcp.lookup tcp = some (.app e))
    {entry : Option TcpEntry} {es : List Edge} (hstill : Still sh.st sh'.st) (htouch : Touches tcp entry es sh.st sh'.st)
    (hstep : ∀ n tr, SockStep Fits tcp ⟨n, some (.app e), tr⟩ ⟨n, entry, tr ++ es⟩)
    (hk : sh'.control.cont = .done) (hlisteners : sh'.listeners = sh.listeners) : Turn Fits sh a sh' := by
  refine .still ⟨hstill, fun _ => htouch.steps he hstep⟩ ?_ hlisteners
  rw [hc, hk]
  exact .refl _

theorem turn_appTcpError (hc : sh.control = .shard .done) {tcp : ℕ} {e : AppTcp}
    (he : sh.st.tcp.lookup tcp = some (.app e)) (kind : ErrorKind) : Turn Fits sh a (sh.appTcpError tcp e kind) := by
  have hclose := (Touches.refl sh.st tcp rfl).closeNow true
  unfold Shard.appTcpError
  dsimp only
  split
  · exact turn_app hc he (still_closeNow he true) hclose (fun _ _ => .aborted) rfl rfl
  · next hopen =>
    exact turn_app hc he ((still_closeNow he true).trans (still_note _ rfl)) (hclose.note rfl)
      (fun _ _ => .failed kind (Bool.not_eq_true _ ▸ hopen)) rfl rfl

theorem evolves_readInto (r : Relay) (res : IoReport (List UInt8)) : r.Evolves (Shard.readInto r res) := by
  cases res with
  | bytes bs => exact .congr rfl rfl rfl rfl rfl rfl rfl rfl fun h => h
  | _ => exact .refl r

theorem unfinished_readInto {r : Relay} (h : r.Unfinished) (res : IoReport (List UInt8)) :
    (Shard.readInto r res).Unfinished := by
  cases res <;> exact h

theorem turn_appRxCommit (hc : sh.control = .shard .done) {tcp : ℕ} {e : AppTcp}
    (he : sh.st.tcp.lookup tcp = some (.app e)) (hopen : e.closing = false) {res : IoReport (List UInt8)}
    (hfits : ∀ bs, res = .bytes bs → Fits e bs) (h : sh.appRxCommit tcp e res = some sh') : Turn Fits sh a sh' := by
  have hput (e' : AppTcp) := (Touches.refl sh.st tcp rfl).putTcp (.app e')
  unfold Shard.appRxCommit at h
  split at h
  · cases h; exact turn_refl a
  · cases h; exact turn_refl a
  · next bs hne =>
    split at h
    · cases h
      exact turn_app hc he (((still_putApp he _).trans (still_note _ rfl)).trans (still_note _ rfl))
        (((hput _).note rfl).note rfl) (fun _ _ => .read bs hopen hne (hfits bs rfl)) rfl rfl
    · cases h
  · cases h
    exact turn_app hc he ((still_putApp he _).trans (still_note _ rfl)) ((hput _).note rfl) (fun _ _ => .eof hopen) rfl rfl
  · cases h; exact turn_appTcpError hc he _

theorem turn_tcpRxCommit (hc : sh.control = .shard .done) {tcp : ℕ} {res : IoReport (List UInt8)}
    (hfits : ∀ e bs, sh.st.tcp.lookup tcp = some (.app e) → res = .bytes bs → Fits e bs)
    (h : sh.tcpRxCommit T tcp res = some sh') : Turn Fits sh a sh' := by
  unfold Shard.tcpRxCommit at h
  split at h
  · next r hr =>
    unfold Shard.relayRxCommit at h
    split at h
    · next hcount =>
      cases h
      refine .relay hr ((evolves_readInto r res).trans (Relay.evolves_tcpRxCommit _ _ _ hcount)) (fun hk => ?_) rfl
        (by rw [hc]; rfl) (.refl _) rfl
      exact Relay.unfinished_tcpRxCommit ((evolves_readInto r res).latched hk.latched)
        (unfinished_readInto hk.unfinished res) _ _ _
    · cases h
  · next e he =>
    split at h
    · cases h; exact turn_refl a
    · next hopen => exact turn_appRxCommit hc he (Bool.not_eq_true _ ▸ hopen) (fun bs => hfits e bs he) h
  · cases h; exact turn_refl a

theorem turn_relayTxCommit (hc : sh.control = .shard .done) {tcp : ℕ} {r : Relay}
    (hr : sh.st.tcp.lookup tcp = some (.relay r)) (res : IoResult) : Turn Fits sh a (sh.relayTxCommit tcp r res) :=
  .relay hr (Relay.evolves_tcpTxCommit r res) (fun hk => Relay.unfinished_tcpTxCommit hk.unfinished res) rfl
    (by rw [hc]; rfl) (.refl _) rfl

theorem turn_tcpTxCommit (hc : sh.control = .shard .done) (tcp : ℕ) (res : IoReport ℕ) :
    Turn Fits sh a (sh.tcpTxCommit tcp res) := by
  unfold Shard.tcpTxCommit
  split
  · next r hr => exact turn_relayTxCommit hc hr _
  · next e he =>
    unfold Shard.appTxCommit
    split
    · next n =>
      have hstill : Still sh.st (sh.st.note (.tcpWritten tcp (e.tx.take n))) := still_note _ rfl
      have hwritten := (Touches.refl sh.st tcp rfl).note (e := .tcpWritten tcp (e.tx.take n)) rfl
      have he' : (sh.st.note (.tcpWritten tcp (e.tx.take n))).tcp.lookup tcp = some (.app e) := he
      dsimp only
      split
      · next hempty =>
        rw [List.isEmpty_iff] at hempty
        split
        · next hclosing =>
          exact turn_app hc he (hstill.trans (still_closeNow he' _)) (hwritten.closeNow false)
            (fun _ _ => .drained n hclosing hempty) rfl rfl
        · next hopen =>
          have hopen : e.closing = false := Bool.not_eq_true _ ▸ hopen
          split
          · next hw =>
            exact turn_app hc he ((hstill.trans (still_putApp he' _)).trans (still_note _ rfl))
              ((hwritten.putTcp _).note rfl) (fun _ _ => .writable n hopen hw hempty) rfl rfl
          · next hw =>
            exact turn_app hc he (hstill.trans (still_putApp he' _)) (hwritten.putTcp _)
              (fun _ _ => .wrote n fun _ => ⟨hopen, Bool.not_eq_true _ ▸ hw⟩) rfl rfl
      · next hne =>
        exact turn_app hc he (hstill.trans (still_putApp he' _)) (hwritten.putTcp _)
          (fun _ _ => .wrote n fun h => absurd (List.isEmpty_iff.mpr h) hne) rfl rfl
    · exact turn_refl a
    · exact turn_appTcpError hc he _
    · exact turn_appTcpError hc he _
  · exact turn_refl a

theorem turn_input (hc : sh.control = .shard .done) (hfits : ReadsFit Fits sh a) (h : sh.input T a = some sh') : Turn Fits sh a sh' := by
  unfold Shard.input at h
  split at h
  · cases h; exact turn_callApp hc (.refl _) rfl rfl (.refl _)
  · cases h; exact .listener _ hc
  · cases h
    unfold Shard.onUdpRx
    split
    · exact turn_callApp hc (.refl _) rfl rfl (.refl _)
    · exact turn_refl _
  · cases h
    unfold Shard.onAccepted
    split
    · exact turn_refl _
    · split
      · exact turn_refl _
      · next hroom => exact .accepted _ hc hroom
  · next t res =>
    refine turn_tcpRxCommit hc (fun e bs he hbs => ?_) h
    subst hbs
    exact hfits e he
  · cases h; exact turn_tcpTxCommit hc _ _
  · cases h
    unfold Shard.onTcpError
    split
    · next hr => exact turn_relayTxCommit hc hr _
    · next he => exact turn_appTcpError hc he _
    · exact turn_refl _
  · next op r =>
    cases h
    by_cases hop : op ∈ sh.st.dials
    · exact .dialResult r hc hop
    · rw [Shard.onDialResult, if_neg hop]
      exact turn_refl _
  · next op r =>
    cases h
    by_cases hop : op ∈ sh.st.resolves
    · exact .resolveResult r hc hop
    · rw [Shard.onResolveResult, if_neg hop]
      exact turn_refl _
  · next op r =>
    cases h
    by_cases hop : op ∈ sh.st.socketOps
    · exact .udpSocket r hc hop
    · rw [Shard.onUdpSocket, if_neg hop]
      exact turn_refl _
  · cases h; exact turn_callApp hc (.refl _) rfl rfl (.refl _)
  · cases h; exact turn_goOn hc (.refl _) ⟨fun o => by cases o <;> rfl, rfl, fun _ => rfl⟩
  · cases h
    refine .still ?_ (.refl _) rfl
    exact moves_tables rfl rfl rfl rfl rfl rfl
  · cases h

theorem turn_go {k : Cont} (hc : sh.control = .shard k) (h : sh.go T k = some sh') : Turn Fits sh a sh' := by
  unfold Shard.go at h
  split at h
  · cases h
  · cases h
    exact turn_goOn hc (.refl _) ⟨fun o => by cases o <;> rfl, rfl, fun _ => rfl⟩
  · split at h
    · cases h
      refine turn_callApp hc ?_ rfl rfl ⟨fun o => by cases o <;> rfl, rfl, fun _ => rfl⟩
      exact moves_tables rfl rfl rfl rfl rfl rfl
    · cases h
      exact turn_goOn hc (.refl _) ⟨fun o => by cases o <;> rfl, rfl, fun _ => rfl⟩
  · cases h
  · cases h
    exact turn_goOn hc (.refl _) ⟨fun o => by cases o <;> rfl, rfl, fun _ => rfl⟩
  · cases h; exact .dialRefused hc
  · cases h; exact .takeLimitedUdp hc
  · split at h
    · cases h; exact .takeLimitedUdp hc
    · next hres => cases h; exact .resolved hc hres
  · cases h
    exact .still (.refl _) (by rw [hc]; exact ⟨fun o => by cases o <;> rfl, rfl, fun _ => rfl⟩) rfl
  · cases h; exact .openRefused hc
  · cases h
    exact turn_goOn hc (.refl _) ⟨fun o => by cases o <;> rfl, rfl, fun _ => rfl⟩
  · next tcp rest =>
    cases h
    have hk : Cont.Follows (.relays (tcp :: rest)) (.relays rest) := ⟨fun o => by cases o <;> rfl, rfl, fun _ => rfl⟩
    unfold Shard.pumpRelay
    split
    · next r hr =>
      refine .relay hr ?_ (fun hkept => ?_) rfl (by rw [hc]; rfl) (by rw [hc]; exact hk) rfl
      · split
        · exact Relay.evolves_pump _ _ _
        · exact .refl r
      · split
        · exact Relay.unfinished_pump hkept.latched _ _
        · exact hkept.unfinished
    · exact turn_goOn hc (.refl _) hk

/-- **A step of a shard is on the list.** -/
theorem turn_of_step (hfits : ReadsFit Fits sh a) (h : sh.step T a = some sh') : Turn Fits sh a sh' := by
  cases Shard.takes_of_step h with
  | transport t => exact .still (.refl _) (.refl _) rfl
  | call c hc => exact .call c hc
  | ret hc => exact .still (.refl _) (by rw [hc]; exact .refl _) rfl
  | go hc hgo => exact turn_go hc hgo
  | event ev hc => exact .event ev hc
  | passEnd hc => exact .passEnd hc
  | input hc hin => exact turn_input hc hfits hin

/-! ### The steps, seen from a socket -/

/-- A callback that names no socket. -/
theorem steps_callApp {tcp : ℕ} {st : ShardState} (h : Steps Fits tcp sh.st st) {cb : Callback} (hcb : cb.socket = none)
    (k : Cont) : Steps Fits tcp sh.st (sh.callApp st cb k).st :=
  h.trans (aloof_note (e := .callback cb) st (by simp [Edge.socket, hcb])).steps

/-- **A step of a shard, seen from a socket.** -/
theorem socket_step (hfits : ReadsFit Fits sh a) (h : sh.step T a = some sh') (tcp : ℕ) :
    Steps Fits tcp sh.st sh'.st := by
  have hdropped (op : ℕ) : Steps Fits tcp sh.st (sh.st.dropDial op) := steps_tables le_rfl rfl rfl
  have hdone (op : ℕ) : Steps Fits tcp sh.st (sh.st.dropSocketOp op) := steps_tables le_rfl rfl rfl
  cases turn_of_step hfits h with
  | still hst _ _ => exact hst.steps tcp
  | relay hr hev _ hst _ _ _ =>
    rw [hst]
    exact (works_relayOp hr hev.stream).steps tcp
  | call c hc => exact steps_call sh c
  | accepted tag hc _ => exact steps_born sh.st rfl rfl
  | listener tag hc => exact steps_tables (Nat.le_succ _) rfl rfl
  | @dialResult _ op r hc hop =>
    rw [Shard.onDialResult, if_pos hop]
    cases r with
    | ok addr => exact (hdropped op).trans (steps_born (sh.st.dropDial op) rfl rfl)
    | error e => exact steps_callApp (hdropped op) rfl _
  | @resolveResult _ op r hc hop =>
    rw [Shard.onResolveResult, if_pos hop]
    refine steps_callApp ?_ rfl _
    exact steps_tables le_rfl rfl rfl
  | @udpSocket _ op r hc hop =>
    rw [Shard.onUdpSocket, if_pos hop]
    cases r with
    | ok addr =>
      refine steps_callApp ((hdone op).trans ?_) rfl _
      exact steps_tables (Nat.le_succ _) rfl rfl
    | error e => exact steps_callApp (hdone op) rfl _
  | dialRefused hc => exact steps_callApp (.refl _) rfl _
  | openRefused hc => exact steps_callApp (.refl _) rfl _
  | resolved hc hres =>
    refine steps_callApp ?_ rfl _
    exact steps_tables le_rfl rfl rfl
  | takeLimitedUdp hc => exact steps_tables le_rfl rfl rfl
  | @event closed ev hc =>
    have hother (st : ShardState) {e : Edge} (he : e.socket = none) : Steps Fits tcp st (st.note e) :=
      (aloof_note st (by simp [he])).steps
    exact rel_dispatch (R := Steps Fits tcp) Steps.trans (fun hw => Works.steps hw tcp) (fun st _ => hother st rfl)
      (fun st _ => hother st rfl) sh closed ev
  | @passEnd closed hc =>
    refine Aloof.steps ⟨le_rfl, rfl, ?_⟩
    exact (aloof_note sh.st (e := .passEnd) (by simp [Edge.socket])).trace

/-- **What each step of a socket preserves holds along every run.** -/
theorem view_invariant {tcp : ℕ} {Allowed : Shard τ → Action τ → Prop}
    (hfits : ∀ sh a, Allowed sh a → ReadsFit Fits sh a) {I : SockView → Prop}
    (hI : ∀ v v', I v → SockStep Fits tcp v v' → I v') (hnew : I ⟨1, none, []⟩) {t : τ} {primaryLocal : SocketAddr}
    {as : List (Action τ)} (hrun : Run (Shard.step T) Allowed (.new t primaryLocal) as sh) :
    I (view tcp sh.st) := by
  have hsteps (v v' : SockView) (hv : I v) (h : Relation.ReflTransGen (SockStep Fits tcp) v v') : I v' := by
    induction h with
    | refl => exact hv
    | tail _ hstep ih => exact hI _ _ ih hstep
  refine hrun.invariant (I := fun sh => I (view tcp sh.st)) ?_ (by exact hnew)
  intro sh a sh' hsh hallowed hstep
  exact hsteps _ _ hsh (socket_step (hfits sh a hallowed) hstep tcp)

end Turns

end MqProxy.Runtime
