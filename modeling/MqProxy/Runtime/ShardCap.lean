import MqProxy.Library.Reservations
import MqProxy.Runtime.ShardOps

/-!
# The socket cap

The shard counts its TCP sockets, the dials that the driver runs, the UDP sockets of the app and the
opens of such sockets. A dial or an open is a reservation: it counts until its result comes or it is
cancelled, and a result that is a socket takes its place. **`sockets_capped`**: the count never
exceeds `SOCKET_CAP`, each reservation is settled exactly once, and no id is handed out twice.
-/

namespace MqProxy.Runtime

open MqProxy.Library

/-! ### What is counted -/

namespace ShardState

/-- The UDP sockets of the app. -/
def appUdp (st : ShardState) : ℕ := (st.udp.entries.filter fun e => e.2.owner = .app).length

/-- What counts toward the cap. -/
def sockets (st : ShardState) : ℕ := st.tcp.keys.length + st.dials.card + st.appUdpOps.card + st.appUdp

theorem atCap_iff_sockets (st : ShardState) : st.atCap = true ↔ SOCKET_CAP ≤ st.sockets := by
  simp [atCap, sockets, appUdp]

end ShardState

/-- The dial that a request makes a reservation for. -/
def dialReserve : Edge → Option ℕ
  | .request (.dial op _ _) => some op
  | _ => none

/-- The dial that is settled: it is cancelled at the driver, or its result is given. -/
def dialSettle : Edge → Option ℕ
  | .request (.cancelDial op) => some op
  | .callback (.dialResult op _) => some op
  | _ => none

/-- The socket open that a request makes. -/
def openReserve : Edge → Option ℕ
  | .request (.openUdpSocket op _) => some op
  | _ => none

/-- The socket open that is settled. -/
def openSettle : Edge → Option ℕ
  | .request (.cancelUdpSocket op) => some op
  | .callback (.udpSocket op _) => some op
  | _ => none

/-- The id that is handed to the app. -/
def Edge.hands : Edge → Option ℕ
  | .call (.dial _ _) (.id n) => some n
  | .call (.resolve _ _) (.id n) => some n
  | .call (.openUdpSocket _) (.id n) => some n
  | .call (.openAppUdpSocket _) (.id n) => some n
  | .call (.setTimer _) (.id n) => some n
  | .callback (.accepted _ tcp) => some tcp
  | .callback (.dialResult _ (.ok tcp)) => some tcp
  | .callback (.udpSocket _ (.ok (sock, _))) => some sock
  | _ => none

/-- An edge that neither hands out an id nor is about a reservation. -/
def Edge.idle (e : Edge) : Prop :=
  e.hands = none ∧ dialReserve e = none ∧ dialSettle e = none ∧ openReserve e = none ∧ openSettle e = none

/-- The ids that were handed out: those of the log, the listeners and the primary socket. -/
def handedOut (st : ShardState) (listeners : List ℕ) : List ℕ :=
  ShardState.PRIMARY_UDP :: (st.log.filterMap Edge.hands ++ listeners)

/-! ### The invariant -/

/-- **What holds of the counted tables**, with the batches of refused operations that are being reported and
the ids of the listeners. -/
structure Capped (st : ShardState) (dialBatch openBatch listeners : List ℕ) : Prop where
  cap : st.sockets ≤ SOCKET_CAP
  tcp : ∀ k ∈ st.tcp.keys, k < st.nextId
  udp : ∀ k ∈ st.udp.keys, k < st.nextId
  dials : Accounts dialReserve dialSettle st.dials (st.limited ++ dialBatch) st.nextId st.log
  opens : Accounts openReserve openSettle st.socketOps (st.limitedUdp ++ openBatch) st.nextId st.log
  apps : ∀ op, op ∈ st.appUdpOps ↔ op ∈ st.socketOps ∧ ∃ ip, .call (.openAppUdpSocket ip) (.id op) ∈ st.log
  fresh : (handedOut st listeners).Nodup
  handed : ∀ n ∈ handedOut st listeners, n < st.nextId

variable {st st' st'' : ShardState} {bd bo ls : List ℕ}

/-! ### What only shrinks -/

/-- The next id and the tables of the operations that count. -/
def ShardState.counted (st : ShardState) : ℕ × Finset ℕ × List ℕ × Finset ℕ × Finset ℕ × List ℕ :=
  (st.nextId, st.dials, st.limited, st.socketOps, st.appUdpOps, st.limitedUdp)

/-- Sockets may go, and nothing is reserved, settled or handed out. -/
structure Shrinks (st st' : ShardState) : Prop where
  counted : st'.counted = st.counted
  tcp : st'.tcp.keys ⊆ st.tcp.keys
  udp : st'.udp.entries.Sublist st.udp.entries
  log : ∃ es, st'.log = st.log ++ es ∧ ∀ e ∈ es, e.idle

theorem Shrinks.trans (h : Shrinks st st') (h' : Shrinks st' st'') : Shrinks st st'' := by
  obtain ⟨es, hes, hidle⟩ := h.log
  obtain ⟨es', hes', hidle'⟩ := h'.log
  refine ⟨h'.counted.trans h.counted, List.Subset.trans h'.tcp h.tcp, h'.udp.trans h.udp, es ++ es', ?_, fun e he => ?_⟩
  · rw [hes', hes, List.append_assoc]
  · exact (List.mem_append.mp he).elim (hidle e) (hidle' e)

/-- An entry of the log, after a change of other tables. -/
theorem shrinks_note {e : Edge} (hcounted : st'.counted = st.counted) (htcp : st'.tcp = st.tcp) (hudp : st'.udp = st.udp)
    (hlog : st'.log = st.log) (he : e.idle) : Shrinks st (st'.note e) :=
  ⟨hcounted, by rw [← htcp]; exact List.Subset.refl _, by rw [← hudp]; exact .refl _, [e], by rw [← hlog]; rfl,
    by simpa using he⟩

theorem length_keys_le (h : st'.tcp.keys ⊆ st.tcp.keys) : st'.tcp.keys.length ≤ st.tcp.keys.length :=
  (st'.tcp.keys_nodup.subperm h).length_le

/-- What only shrinks keeps the tables in order. -/
theorem Capped.shrinks (h : Capped st bd bo ls) (hs : Shrinks st st') : Capped st' bd bo ls := by
  obtain ⟨hcounted, htcp, hudp, es, hlog, hidle⟩ := hs
  simp only [ShardState.counted, Prod.mk.injEq] at hcounted
  obtain ⟨hnext, hdials, hlimited, hops, happ, hlim⟩ := hcounted
  have hhands : es.filterMap Edge.hands = [] := List.filterMap_eq_nil_iff.mpr fun e he => (hidle e he).1
  have hhanded : handedOut st' ls = handedOut st ls := by
    rw [handedOut, handedOut, hlog, List.filterMap_append, hhands, List.append_nil]
  refine ⟨?_, fun k hk => hnext ▸ h.tcp k (htcp hk), fun k hk => hnext ▸ h.udp k ((hudp.map _).subset hk), ?_, ?_, fun op => ?_,
    hhanded ▸ h.fresh, by rw [hhanded, hnext]; exact h.handed⟩
  · have hcap := h.cap
    have hle := length_keys_le htcp
    have happUdp := (hudp.filter fun e => e.2.owner = .app).length_le
    unfold ShardState.sockets ShardState.appUdp at hcap ⊢
    rw [hdials, happ]
    omega
  · rw [hdials, hlimited, hnext, hlog]
    exact h.dials.grow le_rfl (fun _ => id) fun e he => ⟨(hidle e he).2.1, (hidle e he).2.2.1⟩
  · rw [hops, hlim, hnext, hlog]
    exact h.opens.grow le_rfl (fun _ => id) fun e he => ⟨(hidle e he).2.2.2.1, (hidle e he).2.2.2.2⟩
  · rw [happ, hops, hlog, h.apps]
    grind [Edge.idle, Edge.hands]

theorem idle_of_bare {e : Edge} (he : e.bare = true) : e.idle := by
  refine ⟨?_, ?_, ?_, ?_, ?_⟩
  · unfold Edge.hands
    split <;> first | rfl | cases he
  · unfold dialReserve
    split <;> first | rfl | cases he
  · unfold dialSettle
    split <;> first | rfl | cases he
  · unfold openReserve
    split <;> first | rfl | cases he
  · unfold openSettle
    split <;> first | rfl | cases he

/-- **What leaves the operations alone only shrinks.** -/
theorem Frame.shrinks (h : Frame st st') : Shrinks st st' := by
  obtain ⟨es, hlog, hes⟩ := h.log
  have hops := h.ops
  simp only [ShardState.ops, Prod.mk.injEq] at hops
  refine ⟨?_, h.tcp, h.udp, es, hlog, fun e he => idle_of_bare (hes e he)⟩
  simp only [ShardState.counted, hops]

theorem shrinks_cancelResolve (st : ShardState) (op : ℕ) : Shrinks st (st.cancelResolve op) := by
  unfold ShardState.cancelResolve
  split
  · have h : Shrinks st ((st.dropResolve op).note (.request (.cancelResolve op))) :=
      shrinks_note rfl rfl rfl rfl ⟨rfl, rfl, rfl, rfl, rfl⟩
    exact { h with }
  · exact ⟨rfl, List.Subset.refl _, .refl _, [], (List.append_nil _).symm, List.forall_mem_nil _⟩

/-! ### Reservations -/

/-- An edge that hands out nothing, or the next id. -/
def Hands (st st' : ShardState) (es : List Edge) : Prop :=
  es.filterMap Edge.hands = [] ∧ st'.nextId = st.nextId ∨
    es.filterMap Edge.hands = [st.nextId] ∧ st'.nextId = st.nextId + 1

variable {es : List Edge}

theorem Hands.le (h : Hands st st' es) : st.nextId ≤ st'.nextId := by
  rcases h with ⟨-, h⟩ | ⟨-, h⟩ <;> omega

variable (h : Capped st bd bo ls)
include h

/-- The next id is new. -/
theorem Capped.hand_next {l : List ℕ} (hperm : l.Perm (st.nextId :: handedOut st ls)) :
    l.Nodup ∧ ∀ n ∈ l, n < st.nextId + 1 := by
  refine ⟨hperm.nodup_iff.mpr (List.nodup_cons.mpr ⟨fun hmem => ?_, h.fresh⟩), fun n hn => ?_⟩
  · exact absurd (h.handed _ hmem) (lt_irrefl _)
  · rcases List.mem_cons.mp (hperm.subset hn) with rfl | hn
    · exact Nat.lt_succ_self _
    · exact Nat.lt_succ_of_lt (h.handed n hn)

theorem Capped.hands (hlog : st'.log = st.log ++ es) (hes : Hands st st' es) :
    (handedOut st' ls).Nodup ∧ ∀ n ∈ handedOut st' ls, n < st'.nextId := by
  have hhanded : handedOut st' ls =
      ShardState.PRIMARY_UDP :: (st.log.filterMap Edge.hands ++ es.filterMap Edge.hands ++ ls) := by
    rw [handedOut, hlog, List.filterMap_append]
  rcases hes with ⟨hnone, hnext⟩ | ⟨hone, hnext⟩
  · rw [hhanded, hnone, List.append_nil, hnext]
    exact ⟨h.fresh, h.handed⟩
  · rw [hnext]
    refine h.hand_next ?_
    rw [hhanded, hone, List.append_assoc, List.singleton_append]
    exact (List.perm_middle.cons _).trans (List.Perm.swap _ _ _)

/-- **A change of the tables**, with what is to be shown for it. -/
theorem Capped.change {bd' bo' : List ℕ} (es : List Edge) (hlog : st'.log = st.log ++ es)
    (hes : Hands st st' es) (hcap : st'.sockets ≤ SOCKET_CAP)
    (htcp : ∀ k ∈ st'.tcp.keys, k ∈ st.tcp.keys ∨ k < st'.nextId)
    (hudp : ∀ k ∈ st'.udp.keys, k ∈ st.udp.keys ∨ k < st'.nextId)
    (hdials : Accounts dialReserve dialSettle st'.dials (st'.limited ++ bd') st'.nextId st'.log)
    (hopens : Accounts openReserve openSettle st'.socketOps (st'.limitedUdp ++ bo') st'.nextId st'.log)
    (happs : ∀ op, op ∈ st'.appUdpOps ↔ op ∈ st'.socketOps ∧ ∃ ip, .call (.openAppUdpSocket ip) (.id op) ∈ st'.log) :
    Capped st' bd' bo' ls := by
  obtain ⟨hfresh, hhanded⟩ := h.hands hlog hes
  refine ⟨hcap, fun k hk => ?_, fun k hk => ?_, hdials, hopens, happs, hfresh, hhanded⟩
  · exact (htcp k hk).elim (fun hk => (h.tcp k hk).trans_le hes.le) id
  · exact (hudp k hk).elim (fun hk => (h.udp k hk).trans_le hes.le) id

/-- The opens of the app, when nothing is opened. -/
theorem Capped.apps_append
    (hes : ∀ ip op, Edge.call (.openAppUdpSocket ip) (.id op) ∉ es) (op : ℕ) :
    op ∈ st.appUdpOps ↔ op ∈ st.socketOps ∧ ∃ ip, .call (.openAppUdpSocket ip) (.id op) ∈ st.log ++ es := by
  rw [h.apps]
  refine and_congr_right fun _ => exists_congr fun ip => ?_
  rw [List.mem_append, or_iff_left (hes ip op)]

omit h

theorem sockets_lt_of_room (h : ¬st.atCap = true) : st.sockets < SOCKET_CAP := by
  rwa [ShardState.atCap_iff_sockets, not_le] at h

include h

/-- A step without a part in the opens. -/
theorem Capped.aboutDial {bd' : List ℕ} (es : List Edge) (hlog : st'.log = st.log ++ es)
    (hes : Hands st st' es) (hcap : st'.sockets ≤ SOCKET_CAP)
    (htcp : ∀ k ∈ st'.tcp.keys, k ∈ st.tcp.keys ∨ k < st'.nextId)
    (hdials : Accounts dialReserve dialSettle st'.dials (st'.limited ++ bd') st'.nextId st'.log)
    (hquiet : ∀ e ∈ es, (openReserve e = none ∧ openSettle e = none) ∧ ∀ ip op, e ≠ .call (.openAppUdpSocket ip) (.id op))
    (hsame : st'.udp = st.udp ∧ st'.socketOps = st.socketOps ∧ st'.appUdpOps = st.appUdpOps ∧
      st'.limitedUdp = st.limitedUdp) : Capped st' bd' bo ls := by
  obtain ⟨hudp, hops, happ, hlim⟩ := hsame
  refine h.change es hlog hes hcap htcp (fun k hk => Or.inl (hudp ▸ hk)) hdials ?_ fun op => ?_
  · rw [hops, hlim, hlog]
    exact h.opens.grow hes.le (fun _ => id) fun e he => (hquiet e he).1
  · rw [happ, hops, hlog]
    exact h.apps_append (fun ip op hmem => (hquiet _ hmem).2 ip op rfl) op

/-- A step without a part in the dials. -/
theorem Capped.aboutOpen {bo' : List ℕ} (es : List Edge) (hlog : st'.log = st.log ++ es)
    (hes : Hands st st' es) (hcap : st'.sockets ≤ SOCKET_CAP)
    (hudp : ∀ k ∈ st'.udp.keys, k ∈ st.udp.keys ∨ k < st'.nextId)
    (hopens : Accounts openReserve openSettle st'.socketOps (st'.limitedUdp ++ bo') st'.nextId st'.log)
    (happs : ∀ op, op ∈ st'.appUdpOps ↔
      op ∈ st'.socketOps ∧ ∃ ip, .call (.openAppUdpSocket ip) (.id op) ∈ st.log ++ es)
    (hquiet : ∀ e ∈ es, dialReserve e = none ∧ dialSettle e = none)
    (hsame : st'.tcp = st.tcp ∧ st'.dials = st.dials ∧ st'.limited = st.limited) : Capped st' bd bo' ls := by
  obtain ⟨htcp, hdials, hlimited⟩ := hsame
  refine h.change es hlog hes hcap (fun k hk => Or.inl (htcp ▸ hk)) hudp ?_ hopens (by rwa [hlog])
  rw [hdials, hlimited, hlog]
  exact h.dials.grow hes.le (fun _ => id) hquiet

/-- `dial`: it reserves a place, or is refused. -/
theorem Capped.dial (target : Target) (deadline : ℕ) :
    Capped ((st.dial target deadline).2.note (.call (.dial target deadline) (.id (st.dial target deadline).1))) bd bo
      ls := by
  unfold ShardState.dial
  dsimp only
  split
  · refine h.aboutDial [.call (.dial target deadline) (.id st.nextId)] rfl (Or.inr ⟨rfl, rfl⟩) h.cap
      (fun _ hk => Or.inl hk) ?_ (by simp [openReserve, openSettle]) ⟨rfl, rfl, rfl, rfl⟩
    refine (h.dials.refuse_next.reorder fun op hop => ?_).grow le_rfl (fun _ => id) (by simp [dialReserve, dialSettle])
    grind [ShardState.note]
  · next hroom =>
    refine h.aboutDial [.request (.dial st.nextId target deadline), .call (.dial target deadline) (.id st.nextId)]
      (List.append_assoc _ _ _) (Or.inr ⟨rfl, rfl⟩) ?_ (fun _ hk => Or.inl hk)
      ((h.dials.reserve_next rfl rfl).grow le_rfl (fun _ => id) (by simp [dialReserve, dialSettle]))
      (by simp [openReserve, openSettle]) ⟨rfl, rfl, rfl, rfl⟩
    have hlt : st.sockets < SOCKET_CAP := sockets_lt_of_room hroom
    have hcard := Finset.card_insert_le st.nextId st.dials
    show st.tcp.keys.length + (insert st.nextId st.dials).card + st.appUdpOps.card + st.appUdp ≤ SOCKET_CAP
    unfold ShardState.sockets at hlt
    omega

/-- A dial is settled and leaves no socket: its place is free. -/
theorem Capped.freeDial {op : ℕ} (hop : op ∈ st.dials) {e : Edge}
    (hsettle : dialSettle e = some op) (hreserve : dialReserve e = none) (hhands : e.hands = none)
    (hopens : openReserve e = none ∧ openSettle e = none) : Capped ((st.dropDial op).note e) bd bo ls := by
  refine h.aboutDial [e] rfl (Or.inl ⟨by simp [hhands], rfl⟩) ?_ (fun _ hk => Or.inl hk)
    (h.dials.settle_one hop le_rfl hreserve hsettle) ?_ ⟨rfl, rfl, rfl, rfl⟩
  · have hcap := h.cap
    have hcard := Finset.card_erase_le (s := st.dials) (a := op)
    show st.tcp.keys.length + (st.dials.erase op).card + st.appUdpOps.card + st.appUdp ≤ SOCKET_CAP
    unfold ShardState.sockets at hcap
    omega
  · intro x hx
    obtain rfl := List.mem_singleton.mp hx
    refine ⟨hopens, ?_⟩
    rintro ip op rfl
    cases hhands

/-- `cancel_dial`: the place is given back. -/
theorem Capped.cancelDial (op : ℕ) : Capped (st.cancelDial op) bd bo ls := by
  unfold ShardState.cancelDial
  split
  · next hop =>
    have hfree := h.freeDial hop (e := .request (.cancelDial op)) rfl rfl rfl ⟨rfl, rfl⟩
    exact { hfree with }
  · refine h.aboutDial [] (by simp) (Or.inl ⟨rfl, rfl⟩) h.cap (fun _ hk => Or.inl hk) ?_ (by simp) ⟨rfl, rfl, rfl, rfl⟩
    refine h.dials.reorder fun x hx => ?_
    grind

/-- The next id was not given to an open. -/
theorem Capped.not_opened (ip : IpAddr) :
    Edge.call (.openAppUdpSocket ip) (.id st.nextId) ∉ st.log := by
  intro hmem
  have hhanded : st.nextId ∈ handedOut st ls :=
    List.mem_cons_of_mem _ (List.mem_append_left _ (List.mem_filterMap.mpr ⟨_, hmem, rfl⟩))
  exact absurd (h.handed _ hhanded) (lt_irrefl _)

omit h

@[simp] theorem fst_openUdpSocket (st : ShardState) (ip : IpAddr) : (st.openUdpSocket ip).1 = st.nextId := rfl

include h

/-- `open_udp_socket`: an open for the transport counts for nothing. -/
theorem Capped.openUdpSocket (ip : IpAddr) :
    Capped ((st.openUdpSocket ip).2.note (.call (.openUdpSocket ip) (.id (st.openUdpSocket ip).1))) bd bo ls := by
  refine h.aboutOpen [.request (.openUdpSocket st.nextId ip), .call (.openUdpSocket ip) (.id st.nextId)]
    (List.append_assoc _ _ _) (Or.inr ⟨rfl, rfl⟩) h.cap (fun _ hk => Or.inl hk)
    ((h.opens.reserve_next rfl rfl).grow le_rfl (fun _ => id) (by simp [openReserve, openSettle])) (fun op => ?_)
    (by simp [dialReserve, dialSettle]) ⟨rfl, rfl, rfl⟩
  show op ∈ st.appUdpOps ↔ op ∈ insert st.nextId st.socketOps ∧ _
  have hnew := h.not_opened
  rw [h.apps op]
  grind

/-- `open_app_udp_socket`: it reserves a place, or is refused. -/
theorem Capped.openAppUdpSocket (ip : IpAddr) :
    Capped ((st.openAppUdpSocket ip).2.note (.call (.openAppUdpSocket ip) (.id (st.openAppUdpSocket ip).1))) bd bo ls := by
  unfold ShardState.openAppUdpSocket
  split
  · refine h.aboutOpen [.call (.openAppUdpSocket ip) (.id st.nextId)] rfl (Or.inr ⟨rfl, rfl⟩) h.cap (fun _ hk => Or.inl hk)
      ?_ (fun op => ?_) (by simp [dialReserve, dialSettle]) ⟨rfl, rfl, rfl⟩
    · refine (h.opens.refuse_next.reorder fun op hop => ?_).grow le_rfl (fun _ => id) (by simp [openReserve, openSettle])
      grind [ShardState.note]
    · show op ∈ st.appUdpOps ↔ op ∈ st.socketOps ∧ _
      have hlt (hop : op ∈ st.socketOps) := h.opens.lt_of_mem hop
      rw [h.apps op]
      grind
  · next hroom =>
    refine h.aboutOpen [.request (.openUdpSocket st.nextId ip), .call (.openAppUdpSocket ip) (.id st.nextId)]
      (List.append_assoc _ _ _) (Or.inr ⟨rfl, rfl⟩) ?_ (fun _ hk => Or.inl hk)
      ((h.opens.reserve_next rfl rfl).grow le_rfl (fun _ => id) (by simp [openReserve, openSettle])) (fun op => ?_)
      (by simp [dialReserve, dialSettle]) ⟨rfl, rfl, rfl⟩
    · have hlt : st.sockets < SOCKET_CAP := sockets_lt_of_room hroom
      have hcard := Finset.card_insert_le st.nextId st.appUdpOps
      show st.tcp.keys.length + st.dials.card + (insert st.nextId st.appUdpOps).card + st.appUdp ≤ SOCKET_CAP
      unfold ShardState.sockets at hlt
      omega
    · show op ∈ insert st.nextId st.appUdpOps ↔ op ∈ insert st.nextId st.socketOps ∧ _
      have hold := h.apps op
      grind

/-- The tables of the opens, when one is settled. -/
theorem Capped.apps_erase {op : ℕ}
    (hes : ∀ ip op, Edge.call (.openAppUdpSocket ip) (.id op) ∉ es) (x : ℕ) :
    x ∈ st.appUdpOps.erase op ↔
      x ∈ st.socketOps.erase op ∧ ∃ ip, .call (.openAppUdpSocket ip) (.id x) ∈ st.log ++ es := by
  rw [Finset.mem_erase, Finset.mem_erase, and_assoc]
  exact and_congr_right fun _ => h.apps_append hes x

/-- An open is settled and leaves no socket: its place is free. -/
theorem Capped.freeOpen {op : ℕ} (hop : op ∈ st.socketOps) {e : Edge}
    (hsettle : openSettle e = some op) (hreserve : openReserve e = none) (hhands : e.hands = none)
    (hdials : dialReserve e = none ∧ dialSettle e = none) : Capped ((st.dropSocketOp op).note e) bd bo ls := by
  refine h.aboutOpen [e] rfl (Or.inl ⟨by simp [hhands], rfl⟩) ?_ (fun _ hk => Or.inl hk)
    (h.opens.settle_one hop le_rfl hreserve hsettle) (h.apps_erase fun ip op hmem => ?_) (by simpa using hdials)
    ⟨rfl, rfl, rfl⟩
  · have hcap := h.cap
    have hcard := Finset.card_erase_le (s := st.appUdpOps) (a := op)
    show st.tcp.keys.length + st.dials.card + (st.appUdpOps.erase op).card + st.appUdp ≤ SOCKET_CAP
    unfold ShardState.sockets at hcap
    omega
  · obtain rfl := List.mem_singleton.mp hmem
    cases hhands

/-- `cancel_udp_socket`: the place is given back. -/
theorem Capped.cancelUdpSocket (op : ℕ) : Capped (st.cancelUdpSocket op) bd bo ls := by
  unfold ShardState.cancelUdpSocket
  split
  · next hop =>
    have hfree := h.freeOpen hop (e := .request (.cancelUdpSocket op)) rfl rfl rfl ⟨rfl, rfl⟩
    exact { hfree with }
  · refine h.aboutOpen [] (by simp) (Or.inl ⟨rfl, rfl⟩) h.cap (fun _ hk => Or.inl hk) ?_ (h.apps_append (by simp)) (by simp)
      ⟨rfl, rfl, rfl⟩
    refine h.opens.reorder fun x hx => ?_
    grind

/-- An id is handed out by a call that reserves nothing. -/
theorem Capped.takeId (es : List Edge) (hes : es.filterMap Edge.hands = [st.nextId])
    (hdial : ∀ e ∈ es, dialReserve e = none ∧ dialSettle e = none)
    (hopen : ∀ e ∈ es, (openReserve e = none ∧ openSettle e = none) ∧ ∀ ip op, e ≠ .call (.openAppUdpSocket ip) (.id op))
    (hnext : st'.nextId = st.nextId + 1) (hlog : st'.log = st.log ++ es)
    (hkept : st'.tcp = st.tcp ∧ st'.dials = st.dials ∧ st'.limited = st.limited)
    (hsame : st'.udp = st.udp ∧ st'.socketOps = st.socketOps ∧ st'.appUdpOps = st.appUdpOps ∧
      st'.limitedUdp = st.limitedUdp) : Capped st' bd bo ls := by
  obtain ⟨htcp, hdials, hlimited⟩ := hkept
  refine h.aboutDial es hlog (Or.inr ⟨hes, hnext⟩) ?_ (fun k hk => Or.inl (htcp ▸ hk)) ?_ hopen hsame
  · rw [ShardState.sockets, ShardState.appUdp, htcp, hsame.1, hdials, hsame.2.2.1]
    exact h.cap
  · rw [hdials, hlimited, hnext, hlog]
    exact h.dials.grow (Nat.le_succ _) (fun _ => id) hdial

theorem Capped.resolve (target : Target) (deadline : ℕ) :
    Capped ((st.resolve target deadline).2.note (.call (.resolve target deadline) (.id (st.resolve target deadline).1)))
      bd bo ls := by
  unfold ShardState.resolve
  dsimp only
  split
  · exact h.takeId [.call (.resolve target deadline) (.id st.nextId)] rfl (by simp [dialReserve, dialSettle])
      (by simp [openReserve, openSettle]) rfl rfl ⟨rfl, rfl, rfl⟩ ⟨rfl, rfl, rfl, rfl⟩
  · exact h.takeId [.request (.resolve st.nextId target deadline), .call (.resolve target deadline) (.id st.nextId)] rfl
      (by simp [dialReserve, dialSettle]) (by simp [openReserve, openSettle]) rfl (List.append_assoc _ _ _)
      ⟨rfl, rfl, rfl⟩ ⟨rfl, rfl, rfl, rfl⟩

theorem Capped.setTimer (at_ : ℕ) :
    Capped ((st.setTimer at_).2.note (.call (.setTimer at_) (.id (st.setTimer at_).1))) bd bo ls :=
  h.takeId [.call (.setTimer at_) (.id st.nextId)] rfl (by simp [dialReserve, dialSettle])
    (by simp [openReserve, openSettle]) rfl rfl ⟨rfl, rfl, rfl⟩ ⟨rfl, rfl, rfl, rfl⟩

omit h

/-! ### Calls -/

theorem hands_call_of_bare {c : CxCall} (hc : c.bare = true) (a : Answer) : (Edge.call c a).hands = none := by
  cases c with
  | dial | resolve | openUdpSocket | openAppUdpSocket | setTimer => cases hc
  | _ => rfl

/-- A call that only shrinks. -/
theorem Capped.called (h : Capped st bd bo ls) (hs : Shrinks st st') {c : CxCall} {a : Answer}
    (hidle : (Edge.call c a).idle) : Capped (st'.note (.call c a)) bd bo ls :=
  h.shrinks (hs.trans (shrinks_note rfl rfl rfl rfl hidle))

/-- **A call of the app** keeps the counted tables in order. -/
theorem Capped.perform (h : Capped st bd bo ls) (c : CxCall) :
    Capped ((st.perform c).2.note (.call c (st.perform c).1)) bd bo ls := by
  by_cases hbare : c.bare = true
  · exact h.called (still_perform st hbare).shrinks ⟨hands_call_of_bare hbare _, rfl, rfl, rfl, rfl⟩
  cases c with
  | dial target deadline => exact h.dial target deadline
  | cancelDial op => exact (h.cancelDial op).shrinks (shrinks_note rfl rfl rfl rfl ⟨rfl, rfl, rfl, rfl, rfl⟩)
  | resolve target deadline => exact h.resolve target deadline
  | cancelResolve op => exact h.called (shrinks_cancelResolve st op) ⟨rfl, rfl, rfl, rfl, rfl⟩
  | openUdpSocket ip => exact h.openUdpSocket ip
  | openAppUdpSocket ip => exact h.openAppUdpSocket ip
  | cancelUdpSocket op => exact (h.cancelUdpSocket op).shrinks (shrinks_note rfl rfl rfl rfl ⟨rfl, rfl, rfl, rfl, rfl⟩)
  | startRelay t stream conn preread => exact h.called (frame_startRelay _ _ _ _ _).shrinks ⟨rfl, rfl, rfl, rfl, rfl⟩
  | setTimer at_ => exact h.setTimer at_
  | _ => exact absurd rfl hbare

/-! ### Sockets -/

theorem length_keys_insert_le (t : AList fun _ : ℕ => TcpEntry) (k : ℕ) (e : TcpEntry) :
    (t.insert k e).keys.length ≤ t.keys.length + 1 := by
  rw [AList.keys_insert, List.length_cons]
  exact Nat.succ_le_succ List.length_erase_le

theorem mem_keys_insert {β : Type} {t : AList fun _ : ℕ => β} {n k : ℕ} {e : β} (hk : k ∈ (t.insert n e).keys) :
    k ∈ t.keys ∨ k < n + 1 := by
  rw [AList.keys_insert, List.mem_cons] at hk
  rcases hk with rfl | hk
  · exact Or.inr (Nat.lt_succ_self _)
  · exact Or.inl (List.mem_of_mem_erase hk)

/-- A socket is accepted, below the cap. -/
theorem Capped.accepted (h : Capped st bd bo ls) (hroom : st.sockets < SOCKET_CAP) (tag : ℕ) :
    Capped (st.insertAppTcp.2.note (.callback (.accepted tag st.insertAppTcp.1))) bd bo ls := by
  refine h.aboutDial [.callback (.accepted tag st.nextId)] rfl (Or.inr ⟨rfl, rfl⟩) ?_ (fun _ => mem_keys_insert)
    (h.dials.grow (Nat.le_succ _) (fun _ => id) (by simp [dialReserve, dialSettle])) (by simp [openReserve, openSettle])
    ⟨rfl, rfl, rfl, rfl⟩
  have hlen := length_keys_insert_le st.tcp st.nextId (.app .new)
  show (st.tcp.insert st.nextId (.app .new)).keys.length + st.dials.card + st.appUdpOps.card + st.appUdp ≤ SOCKET_CAP
  unfold ShardState.sockets at hroom
  omega

variable {op : ℕ}

/-- **A dial that succeeds**: its place is the socket's. -/
theorem Capped.dialled (h : Capped st bd bo ls) (hop : op ∈ st.dials) :
    Capped ((st.dropDial op).insertAppTcp.2.note (.callback (.dialResult op (.ok (st.dropDial op).insertAppTcp.1)))) bd bo
      ls := by
  refine h.aboutDial [.callback (.dialResult op (.ok st.nextId))] rfl (Or.inr ⟨rfl, rfl⟩) ?_ (fun _ => mem_keys_insert)
    (h.dials.settle_one hop (Nat.le_succ _) rfl rfl) (by simp [openReserve, openSettle]) ⟨rfl, rfl, rfl, rfl⟩
  have hlen := length_keys_insert_le st.tcp st.nextId (.app .new)
  have hcard := Finset.card_erase_add_one hop
  have hcap := h.cap
  show (st.tcp.insert st.nextId (.app .new)).keys.length + (st.dials.erase op).card + st.appUdpOps.card + st.appUdp ≤
    SOCKET_CAP
  unfold ShardState.sockets at hcap
  omega

theorem appUdp_insert_le (t : AList fun _ : ℕ => UdpEntry) (k : ℕ) (e : UdpEntry) :
    ((t.insert k e).entries.filter fun x => x.2.owner = .app).length ≤
      (t.entries.filter fun x => x.2.owner = .app).length + (if e.owner = .app then 1 else 0) := by
  have hsub : List.Sublist (List.kerase k t.entries) t.entries := List.kerase_sublist k _
  have hle := (hsub.filter fun x => x.2.owner = .app).length_le
  rw [AList.entries_insert, List.filter_cons]
  split
  · next howner =>
    rw [if_pos (of_decide_eq_true howner), List.length_cons]
    omega
  · omega

/-- **An open that succeeds**: the place of an open of the app is the socket's. -/
theorem Capped.opened (h : Capped st bd bo ls) (hop : op ∈ st.socketOps) (l : SocketAddr) :
    Capped (((st.dropSocketOp op).insertUdp ⟨l, if decide (op ∈ st.appUdpOps) then .app else .transport⟩).2.note
      (.callback (.udpSocket op (.ok (((st.dropSocketOp op).insertUdp
        ⟨l, if decide (op ∈ st.appUdpOps) then .app else .transport⟩).1, l))))) bd bo ls := by
  refine h.aboutOpen [.callback (.udpSocket op (.ok (st.nextId, l)))] rfl (Or.inr ⟨rfl, rfl⟩) ?_
    (fun _ => mem_keys_insert) (h.opens.settle_one hop (Nat.le_succ _) rfl rfl) (h.apps_erase (by simp))
    (by simp [dialReserve, dialSettle]) ⟨rfl, rfl, rfl⟩
  have hle := appUdp_insert_le st.udp st.nextId ⟨l, if decide (op ∈ st.appUdpOps) then .app else .transport⟩
  have hcap := h.cap
  show st.tcp.keys.length + st.dials.card + (st.appUdpOps.erase op).card +
    ((st.udp.insert st.nextId _).entries.filter fun x => x.2.owner = .app).length ≤ SOCKET_CAP
  unfold ShardState.sockets ShardState.appUdp at hcap
  by_cases happ : op ∈ st.appUdpOps
  · have hcard := Finset.card_erase_add_one happ
    simp only [happ, decide_true, if_true] at hle ⊢
    omega
  · rw [Finset.erase_eq_of_notMem happ]
    simp only [happ, decide_false, Bool.false_eq_true, if_false, reduceCtorEq] at hle ⊢
    omega

/-- A refused dial is reported. -/
theorem Capped.dialRefused {ops : List ℕ} (h : Capped st (op :: ops) bo ls) :
    Capped (st.note (.callback (.dialResult op (.error .limit)))) ops bo ls := by
  refine h.aboutDial [.callback (.dialResult op (.error .limit))] rfl (Or.inl ⟨rfl, rfl⟩) h.cap (fun _ hk => Or.inl hk)
    (Accounts.settle_refused (h.dials.reorder fun x hx => ?_) rfl rfl) (by simp [openReserve, openSettle])
    ⟨rfl, rfl, rfl, rfl⟩
  grind [ShardState.note]

/-- A refused open is reported. -/
theorem Capped.openRefused {ops : List ℕ} (h : Capped st bd (op :: ops) ls) :
    Capped (st.note (.callback (.udpSocket op (.error .other)))) bd ops ls := by
  refine h.aboutOpen [.callback (.udpSocket op (.error .other))] rfl (Or.inl ⟨rfl, rfl⟩) h.cap (fun _ hk => Or.inl hk)
    (Accounts.settle_refused (h.opens.reorder fun x hx => ?_) rfl rfl) (h.apps_append (by simp))
    (by simp [dialReserve, dialSettle]) ⟨rfl, rfl, rfl⟩
  grind [ShardState.note]

/-! ### Steps -/

section Steps

variable {τ : Type} {T : ℕ → Transport τ} {sh sh' : Shard τ}

/-- The counted tables of a shard. -/
def CappedShard (sh : Shard τ) : Prop :=
  Capped sh.st (OpKind.dial.batch sh.control.cont) (OpKind.udpSocket.batch sh.control.cont) sh.listeners.keys

/-- What only shrinks, with the same batches. -/
theorem CappedShard.shrinks (h : CappedShard sh) (hs : Shrinks sh.st sh'.st)
    (hbatch : ∀ k : OpKind, k.batch sh'.control.cont = k.batch sh.control.cont) (hl : sh'.listeners = sh.listeners) :
    CappedShard sh' := by
  unfold CappedShard
  rw [hbatch, hbatch, hl]
  exact Capped.shrinks h hs

/-- The shard goes on with `k`. -/
theorem CappedShard.going {k : Cont} (h : CappedShard sh) (hc : sh.control = .shard k) :
    Capped sh.st (OpKind.dial.batch k) (OpKind.udpSocket.batch k) sh.listeners.keys := by
  unfold CappedShard at h
  rwa [hc] at h

variable {op : ℕ}

theorem CappedShard.onDialResult (h : Capped sh.st [] [] sh.listeners.keys) (hop : op ∈ sh.st.dials)
    (r : Except DialError SocketAddr) : CappedShard (sh.onDialResult op r) := by
  rw [Shard.onDialResult, if_pos hop]
  cases r with
  | ok addr => exact h.dialled hop
  | error e => exact h.freeDial hop rfl rfl rfl ⟨rfl, rfl⟩

theorem CappedShard.onUdpSocket (h : Capped sh.st [] [] sh.listeners.keys) (hop : op ∈ sh.st.socketOps)
    (r : Except ErrorKind SocketAddr) : CappedShard (sh.onUdpSocket op r) := by
  rw [Shard.onUdpSocket, if_pos hop]
  cases r with
  | ok l => exact h.opened hop l
  | error k => exact h.freeOpen hop rfl rfl rfl ⟨rfl, rfl⟩

/-- A listener gets the next id. -/
theorem CappedShard.addListener (h : CappedShard sh) (tag : ℕ) : CappedShard (sh.addListener tag) := by
  have hnew : sh.st.nextId ∉ sh.listeners.keys := fun hmem =>
    absurd (h.handed _ (List.mem_cons_of_mem _ (List.mem_append_right _ hmem))) (lt_irrefl _)
  have hkeys : (sh.listeners.insert sh.st.nextId tag).keys = sh.st.nextId :: sh.listeners.keys := by
    rw [AList.keys_insert, List.erase_of_not_mem hnew]
  obtain ⟨hfresh, hhanded⟩ := Capped.hand_next h (l := handedOut sh.st (sh.st.nextId :: sh.listeners.keys))
    ((List.perm_middle.cons _).trans (List.Perm.swap _ _ _))
  unfold CappedShard
  show Capped { sh.st with nextId := sh.st.nextId + 1 } (OpKind.dial.batch sh.control.cont)
    (OpKind.udpSocket.batch sh.control.cont) (sh.listeners.insert sh.st.nextId tag).keys
  rw [hkeys]
  refine ⟨h.cap, fun k hk => Nat.lt_succ_of_lt (h.tcp k hk), fun k hk => Nat.lt_succ_of_lt (h.udp k hk), ?_, ?_, h.apps,
    hfresh, hhanded⟩
  · simpa using h.dials.grow (Nat.le_succ _) (fun _ => id) (List.forall_mem_nil _)
  · simpa using h.opens.grow (Nat.le_succ _) (fun _ => id) (List.forall_mem_nil _)

/-- The batch of refused opens is taken. -/
theorem CappedShard.takeLimitedUdp {turns : ℕ} (h : CappedShard sh) (hc : sh.control = .shard (.resolved turns)) :
    CappedShard sh.takeLimitedUdp := by
  have hold : Capped sh.st [] [] sh.listeners.keys := h.going hc
  have hopens := hold.opens
  rw [List.append_nil] at hopens
  exact { hold with opens := hopens }

/-- An event is about no operation. -/
theorem shrinks_dispatch (closed : List ℕ) (ev : Polled) : Shrinks sh.st (sh.dispatch closed ev).st :=
  rel_dispatch .trans (fun hw : Works (fun _ _ => True) _ _ => hw.shrinks) (fun _ _ => shrinks_note rfl rfl rfl rfl ⟨rfl, rfl, rfl, rfl, rfl⟩)
    (fun _ _ => shrinks_note rfl rfl rfl rfl ⟨rfl, rfl, rfl, rfl, rfl⟩) sh closed ev

/-- The batch of refused dials is taken. -/
theorem CappedShard.passEnd {closed : List ℕ} (h : CappedShard sh) (hc : sh.control = .shard (.dispatch closed)) :
    CappedShard (sh.passEnd closed) := by
  have hold : Capped sh.st [] [] sh.listeners.keys := h.going hc
  have hnoted : Capped ({ sh.st with
      deadStreams := closed.foldl (fun d s => d.erase s) sh.st.deadStreams }.note .passEnd) [] [] sh.listeners.keys := by
    exact hold.shrinks (shrinks_note rfl rfl rfl rfl ⟨rfl, rfl, rfl, rfl, rfl⟩)
  have hdials := hnoted.dials
  rw [List.append_nil] at hdials
  exact { hnoted with dials := hdials }

/-- **A step keeps the counted tables in order.** -/
theorem CappedShard.step {a : Action τ} (h : CappedShard sh) (hstep : sh.step T a = some sh') : CappedShard sh' := by
  have hresolves (st : ShardState) (resolves : Finset ℕ) (resolved : List (ℕ × SocketAddr)) (cb : Callback)
      (hcb : (Edge.callback cb).idle) : Shrinks st ({ st with resolves, resolved }.note (.callback cb)) :=
    shrinks_note rfl rfl rfl rfl hcb
  cases turn_of_step (readsFit_any sh a) hstep with
  | still hst hk hl => exact h.shrinks hst.shrinks hk.batch hl
  | relay hr hev _ hst _ hk hl =>
    refine h.shrinks ?_ hk.batch hl
    rw [hst]
    exact (works_relayOp hr hev.stream : Works (fun _ _ => True) _ _).shrinks
  | call c hc => exact Capped.perform h c
  | accepted tag hc hroom => exact (h.going hc).accepted (sockets_lt_of_room hroom) tag
  | listener tag hc => exact h.addListener tag
  | dialResult r hc hop => exact .onDialResult (h.going hc) hop r
  | resolveResult r hc hop =>
    rw [Shard.onResolveResult, if_pos hop]
    exact h.shrinks (hresolves _ _ _ _ ⟨rfl, rfl, rfl, rfl, rfl⟩) (fun k => by rw [hc]; rfl) rfl
  | udpSocket r hc hop => exact .onUdpSocket (h.going hc) hop r
  | dialRefused hc => exact (h.going hc).dialRefused
  | openRefused hc => exact (h.going hc).openRefused
  | resolved hc hres =>
    exact h.shrinks (hresolves _ _ _ _ ⟨rfl, rfl, rfl, rfl, rfl⟩) (fun k => by rw [hc]; cases k <;> rfl) rfl
  | takeLimitedUdp hc => exact h.takeLimitedUdp hc
  | event ev hc =>
    refine h.shrinks (shrinks_dispatch _ ev) (fun k => ?_) ?_
    · rw [batch_dispatch, hc]
      cases k <;> rfl
    · exact listeners_dispatch _ ev
  | passEnd hc => exact h.passEnd hc

theorem capped_new (t : τ) (primaryLocal : SocketAddr) : CappedShard (Shard.new t primaryLocal) where
  cap := Nat.zero_le _
  tcp := nofun
  udp := by
    intro k hk
    have hk : k ∈ (AList.insert ShardState.PRIMARY_UDP (⟨primaryLocal, .transport⟩ : UdpEntry) ∅).keys := hk
    rw [AList.keys_insert] at hk
    simp only [AList.keys_empty, List.erase_nil, List.mem_singleton] at hk
    rw [hk]
    exact Nat.zero_lt_one
  dials := .nil _ _ _
  opens := .nil _ _ _
  apps := by simp [Shard.new, ShardState.new]
  fresh := by simp [handedOut, Shard.new, ShardState.new]
  handed := by simp [handedOut, Shard.new, ShardState.new, ShardState.PRIMARY_UDP]

/-! ### Results -/

/-- The result of a dial: its place becomes one socket, or is free. -/
theorem CappedShard.dialResult (h : CappedShard sh) (hop : op ∈ sh.st.dials) :
    (∀ addr, (sh.onDialResult op (.ok addr)).st.dials = sh.st.dials.erase op ∧
      (sh.onDialResult op (.ok addr)).st.tcp.keys = sh.st.nextId :: sh.st.tcp.keys ∧
      (sh.onDialResult op (.ok addr)).st.sockets = sh.st.sockets) ∧
    ∀ e, (sh.onDialResult op (.error e)).st.dials = sh.st.dials.erase op ∧
      (sh.onDialResult op (.error e)).st.tcp.keys = sh.st.tcp.keys ∧
      (sh.onDialResult op (.error e)).st.sockets + 1 = sh.st.sockets := by
  have hcard := Finset.card_erase_add_one hop
  have hnew : sh.st.nextId ∉ sh.st.tcp.keys := fun hmem => absurd (h.tcp _ hmem) (lt_irrefl _)
  have hkeys : (sh.st.tcp.insert sh.st.nextId (.app .new)).keys = sh.st.nextId :: sh.st.tcp.keys := by
    rw [AList.keys_insert, List.erase_of_not_mem hnew]
  unfold Shard.onDialResult
  simp only [if_pos hop]
  refine ⟨fun addr => ⟨rfl, hkeys, ?_⟩, fun e => ⟨rfl, rfl, ?_⟩⟩
  · show (sh.st.tcp.insert sh.st.nextId (.app .new)).keys.length + (sh.st.dials.erase op).card + sh.st.appUdpOps.card +
      sh.st.appUdp = _
    rw [hkeys, List.length_cons, ShardState.sockets]
    omega
  · show sh.st.tcp.keys.length + (sh.st.dials.erase op).card + sh.st.appUdpOps.card + sh.st.appUdp + 1 = _
    rw [ShardState.sockets]
    omega

/-- The result of an open of the app: its place becomes one socket, or is free. -/
theorem CappedShard.openResult (h : CappedShard sh) (hop : op ∈ sh.st.appUdpOps) :
    (∀ l, (sh.onUdpSocket op (.ok l)).st.appUdpOps = sh.st.appUdpOps.erase op ∧
      (sh.onUdpSocket op (.ok l)).st.udp = sh.st.udp.insert sh.st.nextId ⟨l, .app⟩ ∧
      (sh.onUdpSocket op (.ok l)).st.sockets = sh.st.sockets) ∧
    ∀ k, (sh.onUdpSocket op (.error k)).st.appUdpOps = sh.st.appUdpOps.erase op ∧
      (sh.onUdpSocket op (.error k)).st.udp = sh.st.udp ∧
      (sh.onUdpSocket op (.error k)).st.sockets + 1 = sh.st.sockets := by
  have hcard := Finset.card_erase_add_one hop
  have hnew : sh.st.nextId ∉ sh.st.udp.keys := fun hmem => absurd (h.udp _ hmem) (lt_irrefl _)
  have hentries (l : SocketAddr) : (sh.st.udp.insert sh.st.nextId ⟨l, .app⟩).entries =
      ⟨sh.st.nextId, ⟨l, .app⟩⟩ :: sh.st.udp.entries := AList.entries_insert_of_notMem hnew
  unfold Shard.onUdpSocket
  simp only [if_pos ((h.apps op).mp hop).1, hop, decide_true, if_true]
  refine ⟨fun l => ⟨rfl, rfl, ?_⟩, fun k => ⟨rfl, rfl, ?_⟩⟩
  · show sh.st.tcp.keys.length + sh.st.dials.card + (sh.st.appUdpOps.erase op).card +
      ((sh.st.udp.insert sh.st.nextId ⟨l, .app⟩).entries.filter fun e => e.2.owner = .app).length = _
    rw [hentries, List.filter_cons_of_pos (by simp), List.length_cons, ShardState.sockets, ShardState.appUdp]
    omega
  · show sh.st.tcp.keys.length + sh.st.dials.card + (sh.st.appUdpOps.erase op).card + sh.st.appUdp + 1 = _
    rw [ShardState.sockets]
    omega

/-! ### Ids -/

/-- `SlotId::new` and `from_slot` in `alloc`: the id with a number, or a panic. -/
def slotOf (n : UInt64) : Option (UInt32 × UInt32) :=
  let generation := (n >>> 32).toUInt32 + 1
  if generation = 0 then none else some (n.toUInt32, generation)

theorem slotOf_injective {n m : UInt64} {s : UInt32 × UInt32} (hn : slotOf n = some s) (hm : slotOf m = some s) :
    n = m := by
  have hparts {n : UInt64} (hn : slotOf n = some s) : n.toUInt32 = s.1 ∧ (n >>> 32).toUInt32 + 1 = s.2 := by
    unfold slotOf at hn
    dsimp only at hn
    split at hn
    · cases hn
    · cases hn
      exact ⟨rfl, rfl⟩
  obtain ⟨hlow, hhigh⟩ := hparts hn
  obtain ⟨hlow', hhigh'⟩ := hparts hm
  have hl : n.toUInt32.toNat = m.toUInt32.toNat := by rw [hlow, hlow']
  have hh : (n >>> 32).toUInt32.toNat = (m >>> 32).toUInt32.toNat := by
    rw [(UInt32.add_left_inj 1).mp (hhigh.trans hhigh'.symm)]
  simp only [UInt64.toNat_toUInt32, UInt64.toNat_shiftRight] at hl hh
  apply UInt64.toNat_inj.mp
  have h1 := n.toNat_lt
  have h2 := m.toNat_lt
  simp [Nat.shiftRight_eq_div_pow] at hl hh
  omega

/-- **The sockets of a shard.** Whatever the app calls and the driver reports: what is counted never
exceeds the cap; a dial or an open of the app that went to the driver is settled, by its result or its
cancel, exactly once when it no longer holds its place, and its result is one socket in that place
or frees it; and no id is handed out twice before the counter wraps. -/
theorem sockets_capped (T : ℕ → Transport τ) {t : τ} {primaryLocal : SocketAddr} {as : List (Action τ)} {sh : Shard τ}
    (hrun : Run (Shard.step T) (fun _ _ => True) (Shard.new t primaryLocal) as sh) :
    sh.st.sockets ≤ SOCKET_CAP ∧
    (∀ op target deadline, .request (.dial op target deadline) ∈ sh.st.log →
      settledIn dialSettle op sh.st.log = if op ∈ sh.st.dials then 0 else 1) ∧
    (∀ op ip ip', .request (.openUdpSocket op ip) ∈ sh.st.log → .call (.openAppUdpSocket ip') (.id op) ∈ sh.st.log →
      settledIn openSettle op sh.st.log = if op ∈ sh.st.appUdpOps then 0 else 1) ∧
    (∀ op ∈ sh.st.dials,
      (∀ addr, (sh.onDialResult op (.ok addr)).st.dials = sh.st.dials.erase op ∧
        (sh.onDialResult op (.ok addr)).st.tcp.keys = sh.st.nextId :: sh.st.tcp.keys ∧
        (sh.onDialResult op (.ok addr)).st.sockets = sh.st.sockets) ∧
      ∀ e, (sh.onDialResult op (.error e)).st.dials = sh.st.dials.erase op ∧
        (sh.onDialResult op (.error e)).st.tcp.keys = sh.st.tcp.keys ∧
        (sh.onDialResult op (.error e)).st.sockets + 1 = sh.st.sockets) ∧
    (∀ op ∈ sh.st.appUdpOps,
      (∀ l, (sh.onUdpSocket op (.ok l)).st.appUdpOps = sh.st.appUdpOps.erase op ∧
        (sh.onUdpSocket op (.ok l)).st.udp = sh.st.udp.insert sh.st.nextId ⟨l, .app⟩ ∧
        (sh.onUdpSocket op (.ok l)).st.sockets = sh.st.sockets) ∧
      ∀ k, (sh.onUdpSocket op (.error k)).st.appUdpOps = sh.st.appUdpOps.erase op ∧
        (sh.onUdpSocket op (.error k)).st.udp = sh.st.udp ∧
        (sh.onUdpSocket op (.error k)).st.sockets + 1 = sh.st.sockets) ∧
    (handedOut sh.st sh.listeners.keys).Nodup ∧
    (sh.st.nextId ≤ 2 ^ 64 →
      ((handedOut sh.st sh.listeners.keys).filterMap fun n => slotOf (UInt64.ofNat n)).Nodup) := by
  have h : CappedShard sh := hrun.invariant (fun _ _ _ hinv _ hstep => hinv.step hstep) (capped_new t primaryLocal)
  refine ⟨h.cap, fun op target deadline hmem => h.dials.count ⟨_, hmem, rfl⟩, fun op ip ip' hreq hcall => ?_,
    fun op hop => h.dialResult hop, fun op hop => h.openResult hop, h.fresh, fun hnext => ?_⟩
  · have hiff : op ∈ sh.st.appUdpOps ↔ op ∈ sh.st.socketOps :=
      (h.apps op).trans ⟨fun hboth => hboth.1, fun hop => ⟨hop, ip', hcall⟩⟩
    simp only [hiff]
    exact h.opens.count ⟨_, hreq, rfl⟩
  · have hnodup : ((handedOut sh.st sh.listeners.keys).map UInt64.ofNat).Nodup := by
      refine h.fresh.map_on fun n hn m hm heq => ?_
      have hn' := (h.handed n hn).trans_le hnext
      have hm' := (h.handed m hm).trans_le hnext
      have hnat := congrArg UInt64.toNat heq
      rwa [UInt64.toNat_ofNat_of_lt' hn', UInt64.toNat_ofNat_of_lt' hm'] at hnat
    have hslots := hnodup.filterMap fun n m s hn hm => slotOf_injective hn hm
    rwa [List.filterMap_map] at hslots

end Steps

/-- A dial succeeds, and its place is the socket's. -/
theorem sockets_capped_dial : ∃ sh, Run (Shard.step fun _ => Shard.still) (fun _ _ => True) (Shard.new () Shard.anyLocal)
      [.start, .call (.dial Shard.anyTarget 0), .ret, .dialResult 1 (.ok Shard.anyLocal)] sh ∧
    sh.st.sockets = 1 ∧ 1 ∉ sh.st.dials ∧ settledIn dialSettle 1 sh.st.log = 1 ∧
    (handedOut sh.st sh.listeners.keys).Nodup := by
  refine Run.exists_and (.cons trivial rfl <| .cons trivial rfl <| .cons trivial rfl <| .cons trivial rfl <| .nil _)
    fun hrun => ?_
  obtain ⟨-, hdials, -, -, -, hfresh, -⟩ := sockets_capped _ hrun
  refine ⟨rfl, by decide, ?_, hfresh⟩
  exact (hdials 1 Shard.anyTarget 0 (List.Mem.tail _ (List.Mem.head _))).trans (by decide)

end MqProxy.Runtime
