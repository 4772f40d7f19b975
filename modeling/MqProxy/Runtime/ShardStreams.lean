import MqProxy.Runtime.ShardFrame

/-!
# The streams of a shard

A stream moves from the app to a relay (`start_relay`), and from there to `dead_streams`
when the relay ends before the stream is closed. `Routed` ties the three tables together:
`streams` and the relays of the TCP table determine each other, and a stream that was
bound once is in `streams` or in `dead_streams` for as long as the transport has events
for it.

`Routed` has parameters for what is known of each relay (`K`) and of each dead stream
(`D`), and for the streams of which no event can come any more (`Q`). They change within a
step of the shard: between an event and `settle_relay` a relay may have ended and still be
in the table.
-/

namespace MqProxy.Runtime

open MqProxy.Library

/-- The stream that an event is about. -/
def Event.stream : Event → Option ℕ
  | .streamReadable s => some s
  | .streamWritable s => some s
  | .streamClosed s => some s
  | _ => none

/-- Entries of the log that have no part in routing. -/
def Edge.plain : Edge → Bool
  | .call (.startRelay _ _ (some _) _) .ok => false
  | .polled _ => false
  | .passEnd => false
  | .callback (.transportEvent (.event ev)) => ev.stream.isNone
  | _ => true

/-- A stream or a connection closes. -/
def Edge.closes : Edge → Bool
  | .polled (.event (.streamClosed _)) => true
  | .polled (.event (.connClosed _)) => true
  | _ => false

/-- The log has grown by plain entries. -/
def Logs (st st' : ShardState) : Prop := ∃ es, st'.log = st.log ++ es ∧ ∀ x ∈ es, x.plain = true

/-- The ids in the TCP table have been given out. -/
def Below (st : ShardState) : Prop := ∀ tcp, (st.tcp.lookup tcp).isSome → tcp < st.nextId

/-- Streams, relays and dead streams. -/
structure Routed (connOf : ℕ → ℕ) (K : ℕ → Relay → Prop) (D : ℕ → ℕ → Prop) (Q : ℕ → Prop) (st : ShardState) :
    Prop where
  below : Below st
  /-- `streams` and the relays determine each other. -/
  streams : ∀ s tcp, st.streams.lookup s = some tcp ↔ ∃ r, st.tcp.lookup tcp = some (.relay r) ∧ r.stream = s
  relay : ∀ tcp r, st.tcp.lookup tcp = some (.relay r) → r.conn = connOf r.stream ∧ K tcp r
  dead : ∀ s c, st.deadStreams.lookup s = some c → c = connOf s ∧ D s c
  known : ∀ s, 0 < st.log.countP (Edge.binds s) →
    (st.streams.lookup s).isSome ∨ (st.deadStreams.lookup s).isSome ∨ Q s
  bound : ∀ s, (st.streams.lookup s).isSome → 0 < st.log.countP (Edge.binds s)
  boundDead : ∀ s, (st.deadStreams.lookup s).isSome → 0 < st.log.countP (Edge.binds s)
  /-- A stream that is bound and dead was bound twice. -/
  twice : ∀ s, (st.streams.lookup s).isSome → (st.deadStreams.lookup s).isSome → 1 < st.log.countP (Edge.binds s)

section Routed

variable {connOf : ℕ → ℕ} {K K' : ℕ → Relay → Prop} {D D' : ℕ → ℕ → Prop} {Q Q' : ℕ → Prop} {st st' : ShardState}

/-- What is known may be weakened. -/
theorem Routed.mono (h : Routed connOf K D Q st) (hK : ∀ tcp r, st.tcp.lookup tcp = some (.relay r) → K tcp r → K' tcp r)
    (hD : ∀ s c, st.deadStreams.lookup s = some c → D s c → D' s c) (hQ : ∀ s, Q s → Q' s) :
    Routed connOf K' D' Q' st where
  below := h.below
  streams := h.streams
  relay tcp r hr := ⟨(h.relay tcp r hr).1, hK tcp r hr (h.relay tcp r hr).2⟩
  dead s c hs := ⟨(h.dead s c hs).1, hD s c hs (h.dead s c hs).2⟩
  known s hs := (h.known s hs).imp_right (Or.imp_right (hQ s))
  bound := h.bound
  boundDead := h.boundDead
  twice := h.twice

/-- What leaves streams and relays alone. -/
structure Level (st st' : ShardState) : Prop where
  below : Below st → Below st'
  streams : st'.streams = st.streams
  dead : st'.deadStreams = st.deadStreams
  relays : Below st → ∀ tcp r, st'.tcp.lookup tcp = some (.relay r) ↔ st.tcp.lookup tcp = some (.relay r)
  log : Logs st st'

theorem Logs.refl (st : ShardState) : Logs st st := ⟨[], (List.append_nil _).symm, by simp⟩

theorem Logs.trans {st'' : ShardState} (h : Logs st st') (h' : Logs st' st'') : Logs st st'' := by
  obtain ⟨es, hlog, hes⟩ := h
  obtain ⟨es', hlog', hes'⟩ := h'
  refine ⟨es ++ es', by rw [hlog', hlog, List.append_assoc], fun x hx => ?_⟩
  exact (List.mem_append.mp hx).elim (hes x) (hes' x)

theorem Level.refl (st : ShardState) : Level st st := ⟨fun h => h, rfl, rfl, fun _ _ _ => Iff.rfl, .refl st⟩

theorem Level.trans {st'' : ShardState} (h : Level st st') (h' : Level st' st'') : Level st st'' where
  below hb := h'.below (h.below hb)
  streams := h'.streams.trans h.streams
  dead := h'.dead.trans h.dead
  relays hb tcp r := (h'.relays (h.below hb) tcp r).trans (h.relays hb tcp r)
  log := h.log.trans h'.log

theorem not_binds_of_plain {x : Edge} (hx : x.plain = true) (s : ℕ) : x.binds s = false := by
  unfold Edge.plain at hx
  unfold Edge.binds
  split
  · simp at hx
  · rfl

/-- Plain entries bind no stream. -/
theorem countP_binds_plain {log es : List Edge} (hes : ∀ x ∈ es, x.plain = true) (s : ℕ) :
    (log ++ es).countP (Edge.binds s) = log.countP (Edge.binds s) := by
  have hzero : es.countP (Edge.binds s) = 0 :=
    List.countP_eq_zero.mpr fun x hx => by simp [not_binds_of_plain (hes x hx) s]
  rw [List.countP_append, hzero, Nat.add_zero]

theorem Routed.level (h : Routed connOf K D Q st) (hl : Level st st') : Routed connOf K D Q st' := by
  obtain ⟨es, hlog, hes⟩ := hl.log
  have hcount (s : ℕ) : st'.log.countP (Edge.binds s) = st.log.countP (Edge.binds s) := by
    rw [hlog, countP_binds_plain hes]
  have hrelays := hl.relays h.below
  refine ⟨hl.below h.below, fun s tcp => ?_, fun tcp r hr => ?_, fun s c hs => ?_, fun s hs => ?_, fun s hs => ?_,
    fun s hs => ?_, fun s hs hd => ?_⟩
  · rw [hl.streams, h.streams]
    simp only [hrelays]
  · exact h.relay tcp r ((hrelays tcp r).mp hr)
  · exact h.dead s c (hl.dead ▸ hs)
  · rw [hl.streams, hl.dead]
    exact h.known s (hcount s ▸ hs)
  · exact hcount s ▸ h.bound s (hl.streams ▸ hs)
  · exact hcount s ▸ h.boundDead s (hl.dead ▸ hs)
  · exact hcount s ▸ h.twice s (hl.streams ▸ hs) (hl.dead ▸ hd)

/-! ### Relays come, work and go -/

/-- A relay works: another for the same stream takes its place. -/
theorem Routed.put (h : Routed connOf K D Q st) {tcp : ℕ} {r r' : Relay} (hr : st.tcp.lookup tcp = some (.relay r))
    (hstream : r'.stream = r.stream) (hconn : r'.conn = r.conn) (hK : K' tcp r')
    (hother : ∀ t x, t ≠ tcp → st.tcp.lookup t = some (.relay x) → K t x → K' t x) :
    Routed connOf K' D Q (st.putTcp tcp (.relay r')) := by
  obtain ⟨hbelow, hstreams, hrelay, hdead, hknown, hbound, hboundDead, htwice⟩ := h
  have htcp : (st.putTcp tcp (.relay r')).tcp = st.tcp.insert tcp (.relay r') := rfl
  refine ⟨fun t ht => ?_, fun s t => (hstreams s t).trans ?_, fun t x hx => ?_, hdead, hknown, hbound, hboundDead, htwice⟩
  · show t < st.nextId
    unfold Below at hbelow
    grind
  · grind
  · grind

/-- Two relays have two streams. -/
theorem Routed.stream_ne (h : Routed connOf K D Q st) {tcp t : ℕ} {r x : Relay}
    (hr : st.tcp.lookup tcp = some (.relay r)) (hx : st.tcp.lookup t = some (.relay x)) (hne : t ≠ tcp) :
    x.stream ≠ r.stream := by
  intro hs
  have h₁ := (h.streams r.stream t).mpr ⟨x, hx, hs⟩
  have h₂ := (h.streams r.stream tcp).mpr ⟨r, hr, rfl⟩
  rw [h₂] at h₁
  exact hne (Option.some.inj h₁).symm

theorem streams_endRelay (st : ShardState) (tcp : ℕ) (r : Relay) (e : RelayEnd) :
    (st.endRelay tcp r e).streams = st.streams.erase r.stream := by
  cases e <;> rfl

theorem deadStreams_endRelay (st : ShardState) (tcp : ℕ) (r : Relay) (e : RelayEnd) :
    (st.endRelay tcp r e).deadStreams =
      if r.streamGone then st.deadStreams else st.deadStreams.insert r.stream r.conn := by
  cases e <;> rfl

theorem plain_endEdges (tcp s : ℕ) (e : RelayEnd) : ∀ x ∈ endEdges tcp s e, x.plain = true := by
  cases e <;> simp [endEdges, Edge.plain]

/-- A relay that ended goes; its stream is dead, unless no event of it can come. -/
theorem Routed.unbind (h : Routed connOf K D Q st) {tcp : ℕ} {r : Relay} (hr : st.tcp.lookup tcp = some (.relay r))
    (e : RelayEnd) (hgone : r.streamGone = true → Q r.stream) (hdead : r.streamGone = false → D r.stream r.conn) :
    Routed connOf K D Q (st.endRelay tcp r e) := by
  have hcount (s : ℕ) : (st.endRelay tcp r e).log.countP (Edge.binds s) = st.log.countP (Edge.binds s) := by
    rw [log_endRelay, countP_binds_plain (plain_endEdges _ _ _)]
  have htcp := tcp_endRelay st tcp r e
  have hnext := nextId_endRelay st tcp r e
  have hstreams := streams_endRelay st tcp r e
  have hdeads := deadStreams_endRelay st tcp r e
  -- the stream was this relay's and no other's
  have hother := fun t x hx ht => h.stream_ne (t := t) (x := x) hr hx ht
  have hbound := (h.streams r.stream tcp).mpr ⟨r, hr, rfl⟩
  obtain ⟨hbelow, hold, hrelay, holdDead, hknown, hwas, hwasDead, htwice⟩ := h
  unfold Below at hbelow
  constructor <;> grind [Below]

theorem endReason_eq_none {r : Relay} : r.endReason = none ↔ r.isOpen = true := by
  unfold Relay.endReason Relay.isOpen
  cases r.state <;> simp

theorem level_pushRequest (st : ShardState) (r : IoRequest) : Level st (st.pushRequest r) :=
  ⟨fun h => h, rfl, rfl, fun _ _ _ => Iff.rfl, [.request r], rfl, by simp [Edge.plain]⟩

/-- A relay is settled: it stays, or it ended and goes. Nothing need be known of it before. -/
theorem Routed.settle {tcp : ℕ} (h : Routed connOf (fun t x => t ≠ tcp → K t x) D Q st) {r : Relay}
    (hr : st.tcp.lookup tcp = some (.relay r))
    (hopen : (ShardState.settled r).1.isOpen = true → K tcp (ShardState.settled r).1)
    (hgone : (ShardState.settled r).1.isOpen = false → r.streamGone = true → Q r.stream)
    (hdead : (ShardState.settled r).1.isOpen = false → r.streamGone = false → D r.stream r.conn) :
    Routed connOf K D Q (st.settleRelay tcp) := by
  have hev := Relay.evolves_settled r
  have hshut (K' : ℕ → Relay → Prop) (hK : K' tcp (ShardState.settled r).1)
      (hother : ∀ t x, t ≠ tcp → (t ≠ tcp → K t x) → K' t x) : Routed connOf K' D Q (shutIfOwed st tcp r) := by
    have hput := h.put hr hev.stream hev.conn hK fun t x hne _ => hother t x hne
    unfold shutIfOwed
    split
    · exact hput.level (level_pushRequest _ _)
    · exact hput
  rw [settleRelay_eq hr]
  split
  · next hnone => exact hshut K (hopen (endReason_eq_none.mp hnone)) fun t x hne hK => hK hne
  · next e hsome =>
    have hclosed : (ShardState.settled r).1.isOpen = false := by
      by_contra ho
      rw [endReason_eq_none.mpr (Bool.not_eq_false _ ▸ ho)] at hsome
      cases hsome
    have hweak := hshut (fun t x => t ≠ tcp → K t x) (fun hne => absurd rfl hne) fun t x hne hK => hK
    have hended := hweak.unbind (lookup_shutIfOwed st tcp r) e
      (by rw [hev.gone, hev.stream]; exact hgone hclosed) (by rw [hev.gone, hev.stream, hev.conn]; exact hdead hclosed)
    refine hended.mono (fun t x hx hK => hK ?_) (fun _ _ _ hD => hD) fun _ hQ => hQ
    rintro rfl
    rw [tcp_endRelay, AList.lookup_erase] at hx
    cases hx

/-- A relay works and is settled. -/
theorem Routed.relayOp (h : Routed connOf K D Q st) {tcp : ℕ} {r r' : Relay} (hr : st.tcp.lookup tcp = some (.relay r))
    (hstream : r'.stream = r.stream) (hconn : r'.conn = r.conn)
    (hother : ∀ t x, t ≠ tcp → st.tcp.lookup t = some (.relay x) → K t x → K' t x)
    (hopen : (ShardState.settled r').1.isOpen = true → K' tcp (ShardState.settled r').1)
    (hgone : (ShardState.settled r').1.isOpen = false → r'.streamGone = true → Q r.stream)
    (hdead : (ShardState.settled r').1.isOpen = false → r'.streamGone = false → D r.stream r.conn) :
    Routed connOf K' D Q ((st.putTcp tcp (.relay r')).settleRelay tcp) := by
  have hput : Routed connOf (fun t x => t ≠ tcp → K' t x) D Q (st.putTcp tcp (.relay r')) :=
    h.put hr hstream hconn (fun hne => absurd rfl hne) fun t x hne hx hK _ => hother t x hne hx hK
  apply hput.settle (AList.lookup_insert _) hopen
  · rw [hstream]
    exact hgone
  · rw [hstream, hconn]
    exact hdead

/-- A relay is started. -/
theorem Routed.bind (h : Routed connOf K D Q st) {tcp stream : ℕ} {e : AppTcp} {r : Relay} {x : Edge}
    (he : st.tcp.lookup tcp = some (.app e)) (hfree : st.streams.lookup stream = none) (hstream : r.stream = stream)
    (hconn : r.conn = connOf stream) (hK : K tcp r) (hx : ∀ s, x.binds s = decide (stream = s)) :
    Routed connOf K D Q
      (ShardState.note { st.putTcp tcp (.relay r) with streams := st.streams.insert stream tcp } x) := by
  have hcount (s : ℕ) : (st.log ++ [x]).countP (Edge.binds s) =
      st.log.countP (Edge.binds s) + if stream = s then 1 else 0 := by
    rw [List.countP_append, List.countP_singleton, hx]
    simp
  obtain ⟨hbelow, hold, hrelay, hdead, hknown, hwas, hwasDead, htwice⟩ := h
  unfold Below at hbelow
  -- no relay was there for the stream before
  have hnone (t : ℕ) (y : Relay) (hy : st.tcp.lookup t = some (.relay y)) : y.stream ≠ stream := by
    intro hs
    have := (hold stream t).mpr ⟨y, hy, hs⟩
    grind
  constructor <;> simp only [ShardState.note, ShardState.putTcp, Below, hcount]
  all_goals grind

/-- Entries of dead streams go. -/
theorem Routed.forget (h : Routed connOf K D Q st) {dead : AList fun _ : ℕ => ℕ}
    (hsub : ∀ s c, dead.lookup s = some c → st.deadStreams.lookup s = some c)
    (hQ : ∀ s, Q s → Q' s) (hlost : ∀ s, (st.deadStreams.lookup s).isSome → dead.lookup s = none → Q' s) :
    Routed connOf K D Q' { st with deadStreams := dead } := by
  have hsome (s : ℕ) (hs : (dead.lookup s).isSome) : (st.deadStreams.lookup s).isSome := by
    obtain ⟨c, hc⟩ := Option.isSome_iff_exists.mp hs
    rw [hsub s c hc]
    rfl
  refine ⟨h.below, h.streams, h.relay, fun s c hs => h.dead s c (hsub s c hs), fun s hs => ?_, h.bound,
    fun s hs => h.boundDead s (hsome s hs), fun s hs hd => h.twice s hs (hsome s hd)⟩
  rcases h.known s hs with hk | hk | hk
  · exact Or.inl hk
  · cases hd : dead.lookup s with
    | none => exact Or.inr (Or.inr (hlost s hk hd))
    | some c => exact Or.inr (Or.inl rfl)
  · exact Or.inr (Or.inr (hQ s hk))

end Routed

/-! ### What is level -/

section Level

variable {st st' : ShardState}

theorem level_note (st : ShardState) {x : Edge} (hx : x.plain = true) : Level st (st.note x) :=
  ⟨fun h => h, rfl, rfl, fun _ _ _ => Iff.rfl, [x], rfl, by simpa using hx⟩

/-- The other tables may change. -/
theorem level_tables (hnext : st.nextId ≤ st'.nextId) (htcp : st'.tcp = st.tcp) (hstreams : st'.streams = st.streams)
    (hdead : st'.deadStreams = st.deadStreams) (hlog : st'.log = st.log) : Level st st' where
  below hb tcp ht := (hb tcp (htcp ▸ ht)).trans_le hnext
  streams := hstreams
  dead := hdead
  relays _ tcp r := by rw [htcp]
  log := ⟨[], by rw [hlog, List.append_nil], by simp⟩

theorem plain_of_bare {e : Edge} (he : e.bare = true) : e.plain = true := by
  unfold Edge.plain
  split
  all_goals first | rfl | cases he

/-- What leaves the operations alone logs plain entries only. -/
theorem Frame.logs (h : Frame st st') : Logs st st' := by
  obtain ⟨es, hlog, hes⟩ := h.log
  exact ⟨es, hlog, fun x hx => plain_of_bare (hes x hx)⟩

/-- **What touches no relay is level.** -/
theorem Still.level (h : Still st st') : Level st st' where
  below hb tcp ht := by
    have hnext : st'.nextId = st.nextId := congrArg Prod.fst h.ops
    rw [hnext]
    exact hb tcp (AList.lookup_isSome.mpr (h.tcp (AList.lookup_isSome.mp ht)))
  streams := h.streams
  dead := h.dead
  relays _ := h.relays
  log := h.logs

/-- A new socket. -/
theorem level_insertAppTcp (st : ShardState) : Level st st.insertAppTcp.2 where
  below hb t ht := by
    by_cases hne : t = st.nextId
    · exact hne ▸ Nat.lt_succ_self _
    · exact Nat.lt_succ_of_lt (hb t (by rwa [← AList.lookup_insert_ne hne]))
  streams := rfl
  dead := rfl
  relays hb t r := by
    by_cases hne : t = st.nextId
    · have hnone : st.tcp.lookup t = none := by
        by_contra hsome
        exact absurd (hb t (Option.isSome_iff_ne_none.mpr hsome)) (by omega)
      rw [hnone, hne]
      simp [ShardState.insertAppTcp, AList.lookup_insert]
    · have : st.insertAppTcp.2.tcp.lookup t = st.tcp.lookup t := AList.lookup_insert_ne hne
      rw [this]
  log := .refl st

/-- The calls that start no relay. -/
theorem level_perform (st : ShardState) {c : CxCall} (hc : ∀ tcp s conn pre, c ≠ .startRelay tcp s conn pre) :
    Level st (st.perform c).2 := by
  -- an operation changes tables that have no part in routing, and may make a request
  have hrequest (st' : ShardState) (r : IoRequest) (h : Level st st') : Level st (st'.pushRequest r) :=
    h.trans (level_pushRequest _ _)
  by_cases hbare : c.bare = true
  · exact (still_perform st hbare).level
  cases c with
  | dial target deadline =>
    unfold ShardState.perform ShardState.dial
    dsimp only
    split
    · exact level_tables (Nat.le_succ _) rfl rfl rfl rfl
    · exact hrequest _ _ (level_tables (Nat.le_succ _) rfl rfl rfl rfl)
  | cancelDial op =>
    unfold ShardState.perform ShardState.cancelDial
    dsimp only
    split
    · exact hrequest _ _ (level_tables le_rfl rfl rfl rfl rfl)
    · exact level_tables le_rfl rfl rfl rfl rfl
  | resolve target deadline =>
    unfold ShardState.perform ShardState.resolve
    dsimp only
    split
    · exact level_tables (Nat.le_succ _) rfl rfl rfl rfl
    · exact hrequest _ _ (level_tables (Nat.le_succ _) rfl rfl rfl rfl)
  | cancelResolve op =>
    unfold ShardState.perform ShardState.cancelResolve
    dsimp only
    split
    · exact hrequest _ _ (level_tables le_rfl rfl rfl rfl rfl)
    · exact level_tables le_rfl rfl rfl rfl rfl
  | openUdpSocket ip => exact hrequest _ _ (level_tables (Nat.le_succ _) rfl rfl rfl rfl)
  | openAppUdpSocket ip =>
    unfold ShardState.perform ShardState.openAppUdpSocket
    dsimp only
    split
    · exact level_tables (Nat.le_succ _) rfl rfl rfl rfl
    · have hopen : Level st (st.openUdpSocket ip).2 := hrequest _ _ (level_tables (Nat.le_succ _) rfl rfl rfl rfl)
      exact hopen.trans (level_tables le_rfl rfl rfl rfl rfl)
  | cancelUdpSocket op =>
    unfold ShardState.perform ShardState.cancelUdpSocket
    dsimp only
    split
    · exact hrequest _ _ (level_tables le_rfl rfl rfl rfl rfl)
    · exact level_tables le_rfl rfl rfl rfl rfl
  | startRelay tcp s conn pre => exact absurd rfl (hc tcp s conn pre)
  | setTimer at_ => exact level_tables (Nat.le_succ _) rfl rfl rfl rfl
  | _ => exact absurd rfl hbare

end Level

end MqProxy.Runtime
