import MqProxy.Library.History
import MqProxy.Runtime.ShardStreams

/-!
# The routing of transport events

`dispatch_events` gives the events of a stream to the relay that owns it, drops those of a
dead stream, and gives the rest to the app. `Streams` is what holds of a shard at every
point of a run, also in the middle of a pass over the events: the tables are `Routed`, with
what the log says about each relay and each dead stream, and the app has heard of no stream
that it bound.

The transport is any transport that is `Faithful`: it has no event for a stream that is
closed, and its `stream_info` fails for one. Without that the shard forgets a stream too
early or keeps it for ever (`routing_strays`).
-/

namespace MqProxy.Runtime

open MqProxy.Library

/-! ### Passes over the events -/

/-- The stream's `StreamClosed` was polled. -/
def StreamClosedIn (log : List Edge) (s : ℕ) : Prop := .polled (.event (.streamClosed s)) ∈ log

/-- The connection's `ConnClosed` was polled. -/
def ConnClosedIn (log : List Edge) (c : ℕ) : Prop := .polled (.event (.connClosed c)) ∈ log

/-- The stream's `StreamClosed` was polled in a pass that ended. -/
def ClosedBefore (log : List Edge) (s : ℕ) : Prop :=
  ∃ past future, log = past ++ .polled (.event (.streamClosed s)) :: future ∧ .passEnd ∈ future

/-- No event of the stream can come. -/
def Silent (connOf : ℕ → ℕ) (log : List Edge) (s : ℕ) : Prop := ClosedBefore log s ∨ ConnClosedIn log (connOf s)

/-- A relay in the table: its connection is open, and it knows whether its stream is. -/
def Tended (log : List Edge) (_tcp : ℕ) (r : Relay) : Prop :=
  r.Kept ∧ ¬ConnClosedIn log r.conn ∧ (r.streamGone = true ↔ StreamClosedIn log r.stream)

/-- A dead stream: its connection is open, and it is in `closed` if its `StreamClosed` was
polled. -/
def Due (log : List Edge) (closed : List ℕ) (s c : ℕ) : Prop :=
  ¬ConnClosedIn log c ∧ (StreamClosedIn log s → s ∈ closed)

/-- The tables, with what the log says about each relay and each dead stream. -/
abbrev RoutedIn (connOf : ℕ → ℕ) (log : List Edge) (closed : List ℕ) (st : ShardState) : Prop :=
  Routed connOf (Tended log) (Due log closed) (Silent connOf log) st

/-- The app hears of no stream that it bound. -/
def Told (past : List Edge) : Edge → Prop
  | .callback (.transportEvent (.event ev)) => ∀ s, ev.stream = some s → past.countP (Edge.binds s) = 0
  | _ => True

/-- **The streams of a shard.** -/
structure Streams {τ : Type} (connOf : ℕ → ℕ) (sh : Shard τ) : Prop where
  routed : RoutedIn connOf sh.st.log sh.control.cont.closed sh.st
  pass : sh.control.cont.inPass = false → ∀ s, StreamClosedIn sh.st.log s → ClosedBefore sh.st.log s
  listed : ∀ s ∈ sh.control.cont.closed, StreamClosedIn sh.st.log s
  told : Lawful Told sh.st.log

section Passes

variable {log es : List Edge} {s c : ℕ}

theorem not_closes_of_plain {x : Edge} (hx : x.plain = true) : x.closes = false := by
  unfold Edge.plain at hx
  unfold Edge.closes
  split
  · cases hx
  · cases hx
  · rfl

theorem mem_append_iff_left {x : Edge} (hx : x ∉ es) : x ∈ log ++ es ↔ x ∈ log := by
  rw [List.mem_append, or_iff_left hx]

theorem streamClosedIn_append (hes : ∀ x ∈ es, x.closes = false) : StreamClosedIn (log ++ es) s ↔ StreamClosedIn log s :=
  mem_append_iff_left fun hx => nomatch hes _ hx

theorem connClosedIn_append (hes : ∀ x ∈ es, x.closes = false) : ConnClosedIn (log ++ es) c ↔ ConnClosedIn log c :=
  mem_append_iff_left fun hx => nomatch hes _ hx

theorem ClosedBefore.append (h : ClosedBefore log s) (es : List Edge) : ClosedBefore (log ++ es) s := by
  obtain ⟨past, future, rfl, hend⟩ := h
  exact ⟨past, future ++ es, by simp, List.mem_append_left _ hend⟩

theorem Silent.append {connOf : ℕ → ℕ} (h : Silent connOf log s) (es : List Edge) : Silent connOf (log ++ es) s :=
  h.imp (fun h => h.append es) fun h => List.mem_append_left _ h

theorem told_of_plain {x : Edge} (hx : x.plain = true) (past : List Edge) : Told past x := by
  unfold Told
  split
  · next ev =>
    intro s hs
    simp [Edge.plain, hs] at hx
  · trivial

theorem lawful_told_append (h : Lawful Told log) (hes : ∀ x ∈ es, x.plain = true) : Lawful Told (log ++ es) := by
  induction es using List.reverseRecOn with
  | nil => rwa [List.append_nil]
  | append_singleton es x ih =>
    rw [← List.append_assoc]
    exact lawful_snoc.mpr ⟨ih fun y hy => hes y (List.mem_append_left _ hy), told_of_plain (hes x (by simp)) _⟩

/-- What is known stays known until a stream or a connection closes. -/
theorem Routed.quiet {connOf : ℕ → ℕ} {closed : List ℕ} {st : ShardState} (hes : ∀ x ∈ es, x.closes = false)
    (h : RoutedIn connOf log closed st) : RoutedIn connOf (log ++ es) closed st := by
  refine h.mono (fun tcp r _ hK => ?_) (fun s c _ hD => ?_) fun s hQ => hQ.append es
  · rw [Tended, connClosedIn_append hes, streamClosedIn_append hes]
    exact hK
  · rw [Due, connClosedIn_append hes, streamClosedIn_append hes]
    exact hD

end Passes

section Steps

variable {τ : Type} {T : ℕ → Transport τ} {connOf : ℕ → ℕ} {sh sh' : Shard τ}

/-- What is plain is logged. -/
theorem Streams.grow {es : List Edge} (h : Streams connOf sh) (hlog : sh'.st.log = sh.st.log ++ es)
    (hes : ∀ x ∈ es, x.plain = true) (hclosed : sh'.control.cont.closed = sh.control.cont.closed)
    (hpass : sh'.control.cont.inPass = false → sh.control.cont.inPass = false)
    (hrouted : RoutedIn connOf sh.st.log sh.control.cont.closed sh'.st) : Streams connOf sh' := by
  have hquiet (x : Edge) (hx : x ∈ es) : x.closes = false := not_closes_of_plain (hes x hx)
  refine ⟨?_, fun hp s hs => ?_, fun s hs => ?_, ?_⟩
  · rw [hlog, hclosed]
    exact hrouted.quiet hquiet
  · rw [hlog] at hs ⊢
    exact (h.pass (hpass hp) s ((streamClosedIn_append hquiet).mp hs)).append es
  · rw [hlog]
    exact List.mem_append_left _ (h.listed s (hclosed ▸ hs))
  · rw [hlog]
    exact lawful_told_append h.told hes

/-- A step that leaves streams and relays alone. -/
theorem Streams.level (h : Streams connOf sh) (hl : Level sh.st sh'.st)
    (hclosed : sh'.control.cont.closed = sh.control.cont.closed)
    (hpass : sh'.control.cont.inPass = false → sh.control.cont.inPass = false) : Streams connOf sh' := by
  obtain ⟨es, hlog, hes⟩ := hl.log
  exact h.grow hlog hes hclosed hpass (h.routed.level hl)

/-- A relay that the shard may keep, after it was settled. -/
theorem tended_settled {log : List Edge} {tcp : ℕ} {r r' : Relay} (hr : Tended log tcp r) (hev : r.Evolves r')
    (hu : r'.Unfinished) (ho : (ShardState.settled r').1.isOpen = true) : Tended log tcp (ShardState.settled r').1 := by
  have hset := hev.trans (Relay.evolves_settled r')
  refine ⟨Relay.kept_settled (hev.latched hr.1.latched) hu ho, ?_, ?_⟩
  · rw [hset.conn]
    exact hr.2.1
  · rw [hset.gone, hset.stream]
    exact hr.2.2

/-- A relay works outside of a pass. -/
theorem Streams.relayOp (h : Streams connOf sh) (hpass : sh.control.cont.inPass = false) {tcp : ℕ} {r r' : Relay}
    (hr : sh.st.tcp.lookup tcp = some (.relay r)) (hev : r.Evolves r') (hu : r.Kept → r'.Unfinished)
    (hst : sh'.st = (sh.st.putTcp tcp (.relay r')).settleRelay tcp)
    (hclosed : sh'.control.cont.closed = sh.control.cont.closed) : Streams connOf sh' := by
  obtain ⟨es, hlog, hes⟩ := (frame_settleRelay (sh.st.putTcp tcp (.relay r')) tcp).logs
  obtain ⟨-, htended⟩ := h.routed.relay tcp r hr
  refine h.grow (by rw [hst, hlog]; rfl) hes hclosed (fun _ => hpass) ?_
  rw [hst]
  apply h.routed.relayOp hr hev.stream hev.conn (fun _ _ _ _ hK => hK)
  · exact tended_settled htended hev (hu htended.1)
  · intro _ hg
    rw [hev.gone] at hg
    exact Or.inl (h.pass hpass _ (htended.2.2.mp hg))
  · intro _ hg
    rw [hev.gone] at hg
    refine ⟨htended.2.1, fun hs => ?_⟩
    rw [htended.2.2.mpr hs] at hg
    cases hg

/-! ### The inputs and the calls -/

/-- A callback that is about no stream. -/
theorem level_callApp {st : ShardState} (hl : Level sh.st st) {cb : Callback} (hcb : (Edge.callback cb).plain = true)
    (k : Cont) : Level sh.st (sh.callApp st cb k).st := hl.trans (level_note _ hcb)

theorem Streams.callApp (h : Streams connOf sh) {k : Cont} (hc : sh.control = .shard k) {st : ShardState}
    (hl : Level sh.st st) {cb : Callback} (hcb : (Edge.callback cb).plain = true) (k' : Cont)
    (hk : k'.closed = k.closed ∧ k'.inPass = k.inPass) : Streams connOf (sh.callApp st cb k') := by
  refine h.level (level_callApp hl hcb k') ?_ ?_
  · rw [hc]
    exact hk.1
  · rw [hc]
    exact fun hp => hk.2 ▸ hp

/-- What the app may ask of the transport: `stream_info` names the connection of a stream,
and fails for a stream that is closed. -/
def InfoFaithful (connOf : ℕ → ℕ) (log : List Edge) : CxCall → Prop
  | .startRelay _ s (some c) _ => c = connOf s ∧ ¬StreamClosedIn log s ∧ ¬ConnClosedIn log c
  | _ => True

/-- An entry that is not plain is added to the log. -/
theorem Routed.note {K : ℕ → Relay → Prop} {D : ℕ → ℕ → Prop} {Q : ℕ → Prop} {st : ShardState}
    (h : Routed connOf K D Q st) {x : Edge} (hx : ∀ s, x.binds s = false) : Routed connOf K D Q (st.note x) := by
  have hcount (s : ℕ) : (st.note x).log.countP (Edge.binds s) = st.log.countP (Edge.binds s) := by
    show (st.log ++ [x]).countP (Edge.binds s) = _
    rw [List.countP_append, List.countP_singleton, hx, if_neg Bool.false_ne_true, Nat.add_zero]
  exact ⟨h.below, h.streams, h.relay, h.dead, fun s hs => h.known s (hcount s ▸ hs), fun s hs => hcount s ▸ h.bound s hs,
    fun s hs => hcount s ▸ h.boundDead s hs, fun s hs hd => hcount s ▸ h.twice s hs hd⟩

theorem Streams.startRelay (h : Streams connOf sh) {tcp s : ℕ} {conn : Option ℕ} {pre : StreamPreread}
    (hinfo : InfoFaithful connOf sh.st.log (.startRelay tcp s conn pre)) :
    Streams connOf (sh.call (.startRelay tcp s conn pre)) := by
  have hlevel (hl : Level sh.st (sh.call (.startRelay tcp s conn pre)).st) :
      Streams connOf (sh.call (.startRelay tcp s conn pre)) := h.level hl rfl fun hp => hp
  have hstarts := startsRelay sh.st tcp s conn pre
  unfold Shard.call ShardState.perform at hlevel ⊢
  dsimp only at hlevel ⊢
  generalize sh.st.startRelay tcp s conn pre = p at hstarts hlevel ⊢
  cases hstarts with
  | refused => exact hlevel (level_note _ (by cases conn <;> rfl))
  | stale he => exact hlevel (((still_closeNow he true).level.trans (level_note _ rfl)).trans (level_note _ rfl))
  | @bound e c r he hopen hfree hstart =>
    obtain ⟨rfl, hstream, hconn⟩ := hinfo
    obtain ⟨hrconn, hrstream, hgone, hkept⟩ := Relay.kept_start hstart
    have hquiet : ∀ x ∈ [Edge.call (.startRelay tcp s (some (connOf s)) pre) .ok], x.closes = false := by
      simp [Edge.closes]
    have htended : Tended sh.st.log tcp r := by
      refine ⟨hkept, hrconn ▸ hconn, ?_⟩
      rw [hgone, hrstream]
      simp [hstream]
    refine ⟨?_, fun hp s' hs => ?_, fun s' hs => List.mem_append_left _ (h.listed s' hs), ?_⟩
    · apply Routed.quiet hquiet
      refine h.routed.bind he hfree hrstream hrconn htended fun s' => ?_
      simp [Edge.binds]
    · exact (h.pass hp s' ((streamClosedIn_append hquiet).mp hs)).append _
    · exact lawful_snoc.mpr ⟨h.told, trivial⟩

theorem Streams.call (h : Streams connOf sh) {c : CxCall} (hinfo : InfoFaithful connOf sh.st.log c) :
    Streams connOf (sh.call c) := by
  by_cases hc : ∃ tcp s conn pre, c = .startRelay tcp s conn pre
  · obtain ⟨tcp, s, conn, pre, rfl⟩ := hc
    exact h.startRelay hinfo
  · have hne (tcp s : ℕ) (conn : Option ℕ) (pre : StreamPreread) : c ≠ .startRelay tcp s conn pre :=
      fun heq => hc ⟨tcp, s, conn, pre, heq⟩
    refine h.level ((level_perform sh.st hne).trans (level_note _ ?_)) rfl fun hp => hp
    cases c with
    | startRelay tcp s conn pre => exact absurd rfl (hne tcp s conn pre)
    | _ => rfl

/-! ### The events -/

section Events

variable {closed closed' : List ℕ} {ev : Event} {s : ℕ} {st : ShardState} {log : List Edge}

/-- In a pass. -/
theorem Streams.inPass (h : Streams connOf sh) (hc : sh.control = .shard (.dispatch closed)) :
    sh.control.cont = .dispatch closed ∧ RoutedIn connOf sh.st.log closed sh.st := by
  have hcont : sh.control.cont = .dispatch closed := by rw [hc]; rfl
  have hrouted := h.routed
  rw [hcont] at hrouted
  exact ⟨hcont, hrouted⟩

/-- An event of a stream closes no other stream, and no connection. -/
theorem streamClosedIn_polled (hev : ev.stream = some s) {s' : ℕ} (hne : s' ≠ s) :
    StreamClosedIn (log ++ [.polled (.event ev)]) s' ↔ StreamClosedIn log s' := by
  refine mem_append_iff_left fun hx => ?_
  cases List.mem_singleton.mp hx
  exact hne (Option.some.inj hev)

theorem connClosedIn_polled (hev : ev.stream = some s) {c : ℕ} :
    ConnClosedIn (log ++ [.polled (.event ev)]) c ↔ ConnClosedIn log c := by
  refine mem_append_iff_left fun hx => ?_
  cases List.mem_singleton.mp hx
  cases hev

theorem streamClosedIn_polled_self (hev : ev.stream = some s) :
    StreamClosedIn (log ++ [.polled (.event ev)]) s ↔ StreamClosedIn log s ∨ ev = .streamClosed s := by
  rw [StreamClosedIn, StreamClosedIn, List.mem_append, List.mem_singleton]
  refine or_congr_right ⟨fun heq => ?_, fun heq => by rw [heq]⟩
  cases heq
  rfl

/-- The event of a stream was polled: what is known of the others stays known. -/
theorem Routed.polled (h : RoutedIn connOf log closed st)
    (hev : ev.stream = some s) (hsub : ∀ x ∈ closed, x ∈ closed')
    (hlist : ev = .streamClosed s → (st.deadStreams.lookup s).isSome → s ∈ closed') :
    Routed connOf (fun tcp r => r.stream ≠ s → Tended (log ++ [.polled (.event ev)]) tcp r)
      (Due (log ++ [.polled (.event ev)]) closed') (Silent connOf (log ++ [.polled (.event ev)]))
      (st.note (.polled (.event ev))) := by
  refine Routed.note (h.mono (fun tcp r _ hK hne => ?_) (fun s' c hs hD => ?_) fun s' hQ => hQ.append _) fun _ => rfl
  · rw [Tended, connClosedIn_polled hev, streamClosedIn_polled hev hne]
    exact hK
  · rw [Due, connClosedIn_polled hev]
    refine ⟨hD.1, fun hclosed => ?_⟩
    by_cases hne : s' = s
    · subst hne
      rcases (streamClosedIn_polled_self hev).mp hclosed with hold | hnew
      · exact hsub _ (hD.2 hold)
      · exact hlist hnew (by rw [hs]; rfl)
    · exact hsub _ (hD.2 ((streamClosedIn_polled hev hne).mp hclosed))

/-- A relay hears of its stream. -/
theorem Routed.heard (h : RoutedIn connOf log closed st)
    (hev : ev.stream = some s) (hsub : ∀ x ∈ closed, x ∈ closed') (hlist : ev = .streamClosed s → s ∈ closed')
    {tcp : ℕ} {r : Relay} (hr : st.tcp.lookup tcp = some (.relay r)) (hs : r.stream = s) :
    RoutedIn connOf (log ++ [.polled (.event ev)]) closed'
      (((st.note (.polled (.event ev))).putTcp tcp (.relay (r.onStreamEvent ev))).settleRelay tcp) := by
  obtain ⟨-, hkept, hconn, hgone⟩ := h.relay tcp r hr
  subst hs
  have hears := r.hears ev
  have hset := Relay.evolves_settled (r.onStreamEvent ev)
  have hpolled := h.polled hev hsub fun heq _ => hlist heq
  have hnot : ev ≠ .connClosed r.conn := by
    rintro rfl
    cases hev
  apply hpolled.relayOp hr hears.stream hears.conn
  · intro t x hne hx hK
    exact hK (h.stream_ne hr hx hne)
  · intro hopen
    refine ⟨Relay.kept_settled (hears.latched hkept.latched) (hears.unfinished hkept.latched hkept.unfinished) hopen,
      ?_, ?_⟩
    · rw [hset.conn, hears.conn, connClosedIn_polled hev]
      exact hconn
    · rw [hset.gone, hset.stream, hears.stream, streamClosedIn_polled_self hev]
      by_cases hclose : ev = .streamClosed r.stream
      · have hended := r.onStreamEvent_streamClosed hkept.isOpen
        rw [← hclose, Relay.isOpen_of_settled hopen] at hended
        simp [hclose ▸ hended.resolve_left (by simp), hclose]
      · rcases hears.streamGone with hsame | ⟨-, heq⟩
        · rw [hsame, hgone]
          simp [hclose]
        · exact absurd heq hclose
  · intro hended hg
    have := hkept.streamGone_of_ended hears hnot hended
    rw [hset.gone, hg] at this
    cases this
  · intro _ hg
    refine ⟨fun hc => hconn ((connClosedIn_polled hev).mp hc), fun hclosed => ?_⟩
    rcases (streamClosedIn_polled_self hev).mp hclosed with hold | hnew
    · -- a relay that knew that its stream was gone knows it still
      rcases hears.streamGone with hsame | ⟨htrue, -⟩
      · rw [hsame, hgone.mpr hold] at hg
        cases hg
      · rw [htrue] at hg
        cases hg
    · exact hlist hnew

/-- In a pass, after an event. -/
theorem Streams.polled {ev : Polled} {es : List Edge} (h : Streams connOf sh)
    (hlog : sh'.st.log = sh.st.log ++ [.polled ev] ++ es) (hes : ∀ x ∈ es, x.closes = false)
    (htold : Lawful Told (sh.st.log ++ [.polled ev] ++ es)) (hk : sh'.control.cont = .dispatch closed')
    (hlisted : ∀ s ∈ closed', s ∈ sh.control.cont.closed ∨ StreamClosedIn (sh.st.log ++ [.polled ev]) s)
    (hrouted : RoutedIn connOf (sh.st.log ++ [.polled ev]) closed' sh'.st) : Streams connOf sh' := by
  refine ⟨?_, fun hp => ?_, fun s hs => ?_, ?_⟩
  · rw [hlog, hk]
    exact hrouted.quiet hes
  · rw [hk] at hp
    cases hp
  · rw [hk] at hs
    rw [hlog]
    refine List.mem_append_left _ ?_
    exact (hlisted s hs).elim (fun hold => List.mem_append_left _ (h.listed s hold)) fun hnew => hnew
  · rwa [hlog]

/-- After an event of which the app hears nothing, or hears of no stream. -/
theorem Streams.polledPlain {ev : Polled} (h : Streams connOf sh) (hlogs : Logs (sh.st.note (.polled ev)) sh'.st)
    (hk : sh'.control.cont = .dispatch closed')
    (hlisted : ∀ s ∈ closed', s ∈ sh.control.cont.closed ∨ StreamClosedIn (sh.st.log ++ [.polled ev]) s)
    (hrouted : RoutedIn connOf (sh.st.log ++ [.polled ev]) closed' sh'.st) : Streams connOf sh' := by
  obtain ⟨es, hlog, hes⟩ := hlogs
  refine h.polled hlog (fun x hx => not_closes_of_plain (hes x hx)) ?_ hk hlisted hrouted
  exact lawful_told_append (lawful_snoc.mpr ⟨h.told, trivial⟩) hes

/-- **An event of a stream** for which the transport may still have one. -/
theorem Streams.streamEvent (h : Streams connOf sh) (hc : sh.control = .shard (.dispatch closed))
    (hev : ev.stream = some s) (hopen : ¬Silent connOf sh.st.log s) :
    Streams connOf (sh.streamEvent (sh.st.note (.polled (.event ev))) closed ev s) := by
  obtain ⟨hcont, hrouted⟩ := h.inPass hc
  -- what the turn adds to `closed`
  have hsub : ∀ x ∈ closed, x ∈ if ev = .streamClosed s then closed ++ [s] else closed := by
    intro x hx
    split
    · exact List.mem_append_left _ hx
    · exact hx
  have hlist : ev = .streamClosed s → s ∈ if ev = .streamClosed s then closed ++ [s] else closed := by
    intro heq
    simp [heq]
  have hlisted : ∀ x ∈ if ev = .streamClosed s then closed ++ [s] else closed,
      x ∈ sh.control.cont.closed ∨ StreamClosedIn (sh.st.log ++ [.polled (.event ev)]) x := by
    intro x hx
    rw [hcont]
    split at hx
    · next heq =>
      refine (List.mem_append.mp hx).imp_right fun hx => ?_
      rw [List.mem_singleton.mp hx]
      exact (streamClosedIn_polled_self hev).mpr (Or.inr heq)
    · exact Or.inl hx
  -- a relay whose stream is not `s` knows as much as before
  have hfree (hs : sh.st.streams.lookup s = none) (tcp : ℕ) (r : Relay)
      (hr : sh.st.tcp.lookup tcp = some (.relay r)) : r.stream ≠ s := by
    intro heq
    rw [(hrouted.streams s tcp).mpr ⟨r, hr, heq⟩] at hs
    cases hs
  have hnote : (sh.st.note (.polled (.event ev))).streams.lookup s = sh.st.streams.lookup s := rfl
  unfold Shard.streamEvent
  dsimp only
  split
  · next tcp hs =>
    obtain ⟨r, hr, hrs⟩ := (hrouted.streams s tcp).mp hs
    have hhear : Shard.relayEvent ev (sh.st.note (.polled (.event ev))) tcp =
        (sh.st.note (.polled (.event ev))).putTcp tcp (.relay (r.onStreamEvent ev)) := by
      have hr : (sh.st.note (.polled (.event ev))).tcp.lookup tcp = some (.relay r) := hr
      rw [Shard.relayEvent, hr]
    rw [hhear]
    exact h.polledPlain (frame_settleRelay _ _).logs rfl hlisted (hrouted.heard hev hsub hlist hr hrs)
  · next hs =>
    split
    · refine h.polledPlain (.refl _) rfl hlisted ?_
      refine (hrouted.polled hev hsub fun heq _ => hlist heq).mono (fun tcp r hr hK => ?_) (fun _ _ _ hD => hD)
        fun _ hQ => hQ
      exact hK (hfree hs tcp r hr)
    · next hd =>
      have hnotDead (heq : ev = .streamClosed s) (hsome : (sh.st.deadStreams.lookup s).isSome) : s ∈ closed :=
        absurd hsome hd
      have hunbound : sh.st.log.countP (Edge.binds s) = 0 := by
        by_contra hne
        rcases hrouted.known s (Nat.pos_of_ne_zero hne) with hk | hk | hk
        · rw [← hnote, hs] at hk
          cases hk
        · exact hd hk
        · exact hopen hk
      refine h.polled rfl ?_ ?_ rfl (fun x hx => Or.inl (by rwa [hcont])) ?_
      · simp [Edge.closes]
      · refine lawful_snoc.mpr ⟨lawful_snoc.mpr ⟨h.told, trivial⟩, fun s' hs' => ?_⟩
        have heq : s = s' := Option.some.inj (hev.symm.trans hs')
        rw [← heq, List.countP_append, hunbound]
        rfl
      · refine Routed.note ?_ fun _ => rfl
        refine (hrouted.polled hev (fun _ hx => hx) hnotDead).mono (fun tcp r hr hK => ?_) (fun _ _ _ hD => hD)
          fun _ hQ => hQ
        exact hK (hfree hs tcp r hr)

/-! ### A connection closes -/

theorem mem_swept {tcp c : ℕ} : tcp ∈ Shard.swept st c ↔ ∃ r, st.tcp.lookup tcp = some (.relay r) ∧ r.conn = c := by
  unfold Shard.swept
  rw [List.mem_map]
  constructor
  · rintro ⟨⟨t, e⟩, he, rfl⟩
    obtain ⟨hmem, hp⟩ := List.mem_filter.mp he
    cases e with
    | app e => cases hp
    | relay r => exact ⟨r, AList.mem_lookup_iff.mpr hmem, of_decide_eq_true hp⟩
  · rintro ⟨r, hr, hc⟩
    refine ⟨⟨tcp, .relay r⟩, List.mem_filter.mpr ⟨AList.mem_lookup_iff.mp hr, ?_⟩, rfl⟩
    exact decide_eq_true hc

/-- While the relays of a connection hear that it closed: those `left` have not heard yet. -/
def Hearing (log : List Edge) (c : ℕ) (ids left : List ℕ) (tcp : ℕ) (r : Relay) : Prop :=
  (tcp ∈ ids → r.conn = c ∧ (tcp ∉ left → r.isOpen = false)) ∧ (tcp ∉ ids → Tended log tcp r)

/-- While the relays of a closed connection are settled: those `left` have ended and are
still in the table. -/
def Leaving (log : List Edge) (c : ℕ) (ids left : List ℕ) (tcp : ℕ) (r : Relay) : Prop :=
  (tcp ∈ ids → r.conn = c ∧ r.isOpen = false ∧ tcp ∈ left) ∧ (tcp ∉ ids → Tended log tcp r)

section ConnClosed

variable {D : ℕ → ℕ → Prop} {Q : ℕ → Prop} {c : ℕ} {ids left : List ℕ}

theorem Routed.hear (h : Routed connOf (Hearing log c ids left) D Q st) (hleft : ∀ tcp ∈ left, tcp ∈ ids) :
    Routed connOf (Hearing log c ids []) D Q (left.foldl (Shard.relayEvent (.connClosed c)) st) := by
  induction left generalizing st with
  | nil => exact h
  | cons tcp left ih =>
    refine ih ?_ fun t ht => hleft t (List.mem_cons_of_mem _ ht)
    have hin := hleft tcp List.mem_cons_self
    -- the others have heard as much as before
    have hother (t : ℕ) (x : Relay) (hne : t ≠ tcp) (hK : Hearing log c ids (tcp :: left) t x) :
        Hearing log c ids left t x :=
      ⟨fun ht => ⟨(hK.1 ht).1, fun hn => (hK.1 ht).2 (by simp [hne, hn])⟩, hK.2⟩
    unfold Shard.relayEvent
    split
    · next r hr =>
      have hears := r.hears (.connClosed c)
      obtain ⟨rfl, -⟩ := (h.relay tcp r hr).2.1 hin
      refine h.put hr hears.stream hears.conn ?_ fun t x hne _ hK => hother t x hne hK
      exact ⟨fun _ => ⟨hears.conn, fun _ => r.isOpen_onStreamEvent_connClosed⟩, fun hn => absurd hin hn⟩
    · next hnot =>
      refine h.mono (fun t x hx hK => hother t x ?_ hK) (fun _ _ _ hD => hD) fun _ hQ => hQ
      rintro rfl
      exact hnot x hx

theorem Routed.leave (h : Routed connOf (Leaving log c ids left) D Q st) (hleft : ∀ tcp ∈ left, tcp ∈ ids)
    (hQ : ∀ s, connOf s = c → Q s) (hD : ∀ s, D s c) :
    Routed connOf (Leaving log c ids []) D Q (left.foldl ShardState.settleRelay st) := by
  induction left generalizing st with
  | nil => exact h
  | cons tcp left ih =>
    refine ih ?_ fun t ht => hleft t (List.mem_cons_of_mem _ ht)
    have hin := hleft tcp List.mem_cons_self
    have hother (t : ℕ) (x : Relay) (hne : t ≠ tcp) (hK : Leaving log c ids (tcp :: left) t x) :
        Leaving log c ids left t x :=
      ⟨fun ht => ⟨(hK.1 ht).1, (hK.1 ht).2.1, (List.mem_cons.mp (hK.1 ht).2.2).resolve_left hne⟩, hK.2⟩
    have hweak : Routed connOf (fun t x => t ≠ tcp → Leaving log c ids left t x) D Q st :=
      h.mono (fun t x _ hK hne => hother t x hne hK) (fun _ _ _ hD => hD) fun _ hQ => hQ
    by_cases hrelay : ∃ r, st.tcp.lookup tcp = some (.relay r)
    · obtain ⟨r, hr⟩ := hrelay
      obtain ⟨hconn, hK⟩ := h.relay tcp r hr
      obtain ⟨rfl, hended, -⟩ := hK.1 hin
      apply hweak.settle hr
      · intro hopen
        rw [Relay.isOpen_of_settled hopen] at hended
        cases hended
      · exact fun _ _ => hQ _ hconn.symm
      · exact fun _ _ => hD _
    · rw [settleRelay_of_not_relay fun r hr => hrelay ⟨r, hr⟩]
      refine hweak.mono (fun t x hx hK => hK ?_) (fun _ _ _ hD => hD) fun _ hQ => hQ
      rintro rfl
      exact hrelay ⟨x, hx⟩

/-- The dead streams of a closed connection are forgotten. -/
theorem Routed.forgetConn (h : Routed connOf (Leaving log c ids []) (fun s c' => c' ≠ c → D s c') Q st)
    (hQ : ∀ s, connOf s = c → Q s) : Routed connOf (Tended log) D Q (Shard.forgetConn st c) := by
  have hkept (s c' : ℕ) : (retain (fun _ c' => c' ≠ c) st.deadStreams).lookup s = some c' ↔
      st.deadStreams.lookup s = some c' ∧ c' ≠ c := by
    rw [lookup_retain, Option.filter_eq_some_iff, decide_eq_true_iff]
  have hforget : Routed connOf (Leaving log c ids []) (fun s c' => c' ≠ c → D s c') Q (Shard.forgetConn st c) := by
    refine h.forget (fun s c' hs => ((hkept s c').mp hs).1) (fun _ hQ => hQ) fun s hsome hnone => ?_
    obtain ⟨c', hc'⟩ := Option.isSome_iff_exists.mp hsome
    have hc : c' = c := by
      by_contra hne
      rw [(hkept s c').mpr ⟨hc', hne⟩] at hnone
      cases hnone
    exact hQ s ((h.dead s c' hc').1 ▸ hc)
  refine hforget.mono (fun tcp r _ hK => ?_) (fun s c' hs hD => hD ((hkept s c').mp hs).2) fun _ hQ => hQ
  by_cases hin : tcp ∈ ids
  · exact absurd (hK.1 hin).2.2 List.not_mem_nil
  · exact hK.2 hin

/-- **A connection closes**: its relays end, and its dead streams are forgotten. -/
theorem Routed.connClosed (h : RoutedIn connOf log closed st) (c : ℕ) :
    RoutedIn connOf (log ++ [.polled (.event (.connClosed c))]) closed
      (Shard.connClosed (st.note (.polled (.event (.connClosed c)))) c) := by
  set log' := log ++ [.polled (.event (.connClosed c))] with hlog'
  have hstream (s : ℕ) : StreamClosedIn log' s ↔ StreamClosedIn log s := by
    refine mem_append_iff_left fun hx => ?_
    cases List.mem_singleton.mp hx
  have hconn (c' : ℕ) (hne : c' ≠ c) : ConnClosedIn log' c' ↔ ConnClosedIn log c' := by
    refine mem_append_iff_left fun hx => ?_
    cases List.mem_singleton.mp hx
    exact hne rfl
  have hsilent (s : ℕ) (hs : connOf s = c) : Silent connOf log' s := by
    refine Or.inr ?_
    rw [ConnClosedIn, hs, hlog']
    simp
  generalize hids : Shard.swept (st.note (.polled (.event (.connClosed c)))) c = ids
  have hmem (tcp : ℕ) : tcp ∈ ids ↔ ∃ r, st.tcp.lookup tcp = some (.relay r) ∧ r.conn = c := by
    rw [← hids]
    exact mem_swept
  -- in between, nothing is known of the dead streams of this connection
  have hstart : Routed connOf (Hearing log' c ids ids) (fun s c' => c' ≠ c → Due log' closed s c')
      (Silent connOf log') (st.note (.polled (.event (.connClosed c)))) := by
    refine Routed.note ?_ fun _ => rfl
    refine h.mono (fun tcp r hr hK => ⟨fun hin => ?_, fun hout => ?_⟩) (fun s c' _ hD hne => ?_) fun s hQ => hQ.append _
    · obtain ⟨x, hx, hc⟩ := (hmem tcp).mp hin
      rw [hr] at hx
      cases hx
      exact ⟨hc, fun hn => absurd hin hn⟩
    · have hne : r.conn ≠ c := fun hc => hout ((hmem tcp).mpr ⟨r, hr, hc⟩)
      rw [Tended, hconn _ hne, hstream]
      exact hK
    · rw [Due, hconn _ hne, hstream]
      exact hD
  have hheard : Routed connOf (Leaving log' c ids ids) (fun s c' => c' ≠ c → Due log' closed s c') (Silent connOf log')
      (ids.foldl (Shard.relayEvent (.connClosed c)) (st.note (.polled (.event (.connClosed c))))) := by
    refine (hstart.hear fun _ ht => ht).mono (fun tcp r _ hK => ⟨fun hin => ?_, hK.2⟩) (fun _ _ _ hD => hD) fun _ hQ => hQ
    exact ⟨(hK.1 hin).1, (hK.1 hin).2 List.not_mem_nil, hin⟩
  have hleft := hheard.leave (fun _ ht => ht) hsilent fun _ hne => absurd rfl hne
  refine Routed.level ?_ (still_closeConnSockets _ _).level
  rw [hids]
  exact hleft.forgetConn hsilent

end ConnClosed

theorem Streams.connClosed (h : Streams connOf sh) (hc : sh.control = .shard (.dispatch closed)) (c : ℕ) :
    Streams connOf (sh.dispatch closed (.event (.connClosed c))) := by
  obtain ⟨hcont, hrouted⟩ := h.inPass hc
  refine h.polledPlain ((frame_connClosed _ c).logs.trans (level_note _ rfl).log) rfl (fun s hs => Or.inl ?_) ?_
  · rwa [hcont]
  · exact (hrouted.connClosed c).level (level_note _ rfl)

/-- An event that is about no stream and closes no connection. -/
theorem Streams.otherEvent (h : Streams connOf sh) (hc : sh.control = .shard (.dispatch closed)) {ev : Polled}
    (hev : (Edge.polled ev).closes = false) {st : ShardState} (hl : Level (sh.st.note (.polled ev)) st)
    (hcb : (Edge.callback (.transportEvent ev)).plain = true) :
    Streams connOf (sh.callApp st (.transportEvent ev) (.dispatch closed)) := by
  obtain ⟨hcont, hrouted⟩ := h.inPass hc
  have htell := hl.trans (level_note st hcb)
  have hnoted := (hrouted.note (x := .polled ev) fun _ => rfl).level htell
  refine h.polledPlain htell.log rfl (fun s hs => Or.inl (by rwa [hcont])) ?_
  exact hnoted.quiet (by simpa using hev)

/-- What the environment of the shard keeps to. The transport has no event for a stream
after a pass in which its `StreamClosed` was polled, nor after its connection's
`ConnClosed`. -/
def Faithful (connOf : ℕ → ℕ) (sh : Shard τ) : Action τ → Prop
  | .poll (some (.event ev)) => ∀ s, ev.stream = some s → ¬Silent connOf sh.st.log s
  | .call c => InfoFaithful connOf sh.st.log c
  | _ => True

theorem Streams.dispatch (h : Streams connOf sh) (hc : sh.control = .shard (.dispatch closed)) {ev : Polled}
    (hfaith : Faithful connOf sh (.poll (some ev))) : Streams connOf (sh.dispatch closed ev) := by
  cases ev with
  | pathRemoved c path => exact h.otherEvent hc rfl (still_closePathSocket _ c path).level rfl
  | event ev =>
    cases ev with
    | streamReadable s => exact h.streamEvent hc rfl (hfaith s rfl)
    | streamWritable s => exact h.streamEvent hc rfl (hfaith s rfl)
    | streamClosed s => exact h.streamEvent hc rfl (hfaith s rfl)
    | connClosed c => exact h.connClosed hc c
    | other => exact h.otherEvent hc rfl (.refl _) rfl

theorem lookup_foldl_erase (l : List ℕ) (d : AList fun _ : ℕ => ℕ) (s : ℕ) :
    (l.foldl (fun d s => d.erase s) d).lookup s = if s ∈ l then none else d.lookup s := by
  induction l generalizing d with
  | nil => rfl
  | cons t l ih =>
    rw [List.foldl_cons, ih]
    by_cases hst : s = t
    · subst hst
      simp [AList.lookup_erase]
    · rw [AList.lookup_erase_ne hst]
      simp [hst]

theorem closedBefore_passEnd (h : StreamClosedIn log s) : ClosedBefore (log ++ [.passEnd]) s := by
  obtain ⟨past, future, hsplit⟩ := List.append_of_mem h
  exact ⟨past, future ++ [.passEnd], by simp [hsplit], by simp⟩

/-- The streams that closed in a pass are forgotten at its end. -/
theorem Routed.passEnd (h : RoutedIn connOf log closed st)
    (hlisted : ∀ s ∈ closed, StreamClosedIn log s) :
    RoutedIn connOf (log ++ [.passEnd]) []
      { st with deadStreams := closed.foldl (fun d s => d.erase s) st.deadStreams } := by
  have hkept (s c : ℕ) : (closed.foldl (fun d s => d.erase s) st.deadStreams).lookup s = some c ↔
      s ∉ closed ∧ st.deadStreams.lookup s = some c := by
    rw [lookup_foldl_erase]
    split <;> simp_all
  have hquiet : ∀ x ∈ [Edge.passEnd], x.closes = false := by simp [Edge.closes]
  have hforget : RoutedIn connOf (log ++ [.passEnd]) closed
      { st with deadStreams := closed.foldl (fun d s => d.erase s) st.deadStreams } := by
    refine (h.quiet hquiet).forget (fun s c hs => ((hkept s c).mp hs).2) (fun _ hQ => hQ) fun s hsome hnone => ?_
    obtain ⟨c, hc⟩ := Option.isSome_iff_exists.mp hsome
    have hin : s ∈ closed := by
      by_contra hout
      rw [(hkept s c).mpr ⟨hout, hc⟩] at hnone
      cases hnone
    exact Or.inl (closedBefore_passEnd (hlisted s hin))
  refine hforget.mono (fun _ _ _ hK => hK) (fun s c hs hD => ⟨hD.1, fun hclosed => ?_⟩) fun _ hQ => hQ
  exact absurd (hD.2 hclosed) ((hkept s c).mp hs).1

/-- A pass ends. -/
theorem Streams.passEnd (h : Streams connOf sh) (hc : sh.control = .shard (.dispatch closed)) :
    Streams connOf (sh.passEnd closed) := by
  obtain ⟨hcont, hrouted⟩ := h.inPass hc
  have hlisted := h.listed
  rw [hcont] at hlisted
  refine ⟨?_, fun _ s hs => ?_, fun s hs => absurd hs List.not_mem_nil, ?_⟩
  · refine Routed.level ((hrouted.passEnd hlisted).note (x := .passEnd) fun _ => rfl) ?_
    exact level_tables le_rfl rfl rfl rfl rfl
  · have hquiet : ∀ x ∈ [Edge.passEnd], x.closes = false := by simp [Edge.closes]
    exact closedBefore_passEnd ((streamClosedIn_append hquiet).mp hs)
  · exact lawful_snoc.mpr ⟨h.told, trivial⟩

/-- **Every step of a shard keeps its streams.** -/
theorem Streams.step (h : Streams connOf sh) {a : Action τ} (hfaith : Faithful connOf sh a)
    (hstep : sh.step T a = some sh') : Streams connOf sh' := by
  -- the operations that the driver completes leave the tables of routing alone
  have hdial (op : ℕ) : Level sh.st (sh.st.dropDial op) := level_tables le_rfl rfl rfl rfl rfl
  have hsocket (op : ℕ) : Level sh.st (sh.st.dropSocketOp op) := level_tables le_rfl rfl rfl rfl rfl
  cases turn_of_step (readsFit_any sh a) hstep with
  | still hst hk _ => exact h.level hst.level hk.closed hk.inPass
  | relay hr hev hu hst hpass hk _ => exact h.relayOp hpass hr hev hu hst hk.closed
  | call c hc => exact h.call hfaith
  | accepted tag hc _ => exact h.callApp hc (level_insertAppTcp _) rfl _ ⟨rfl, rfl⟩
  | listener tag hc =>
    refine h.level ?_ rfl fun hp => hp
    exact level_tables (Nat.le_succ _) rfl rfl rfl rfl
  | dialResult r hc hop =>
    rw [Shard.onDialResult, if_pos hop]
    cases r with
    | ok addr => exact h.callApp hc ((hdial _).trans (level_insertAppTcp _)) rfl _ ⟨rfl, rfl⟩
    | error e => exact h.callApp hc (hdial _) rfl _ ⟨rfl, rfl⟩
  | resolveResult r hc hop =>
    rw [Shard.onResolveResult, if_pos hop]
    refine h.callApp hc ?_ rfl _ ⟨rfl, rfl⟩
    exact level_tables le_rfl rfl rfl rfl rfl
  | @udpSocket _ op r hc hop =>
    rw [Shard.onUdpSocket, if_pos hop]
    cases r with
    | ok addr =>
      refine h.callApp hc ((hsocket op).trans ?_) rfl _ ⟨rfl, rfl⟩
      exact level_tables (Nat.le_succ _) rfl rfl rfl rfl
    | error e => exact h.callApp hc (hsocket _) rfl _ ⟨rfl, rfl⟩
  | dialRefused hc => exact h.callApp hc (.refl _) rfl _ ⟨rfl, rfl⟩
  | openRefused hc => exact h.callApp hc (.refl _) rfl _ ⟨rfl, rfl⟩
  | resolved hc _ =>
    refine h.callApp hc ?_ rfl _ ⟨rfl, rfl⟩
    exact level_tables le_rfl rfl rfl rfl rfl
  | takeLimitedUdp hc =>
    refine h.level ?_ (by rw [hc]; rfl) fun _ => by rw [hc]; rfl
    exact level_tables le_rfl rfl rfl rfl rfl
  | event ev hc => exact h.dispatch hc hfaith
  | passEnd hc => exact h.passEnd hc

end Events

end Steps

end MqProxy.Runtime
