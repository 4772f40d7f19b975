import MqProxy.Library.Runs
import MqProxy.Transport.Inner

/-!
# Eviction and authentication

At the cap of connections the oldest one that is not authenticated is picked as a victim
(`cap_check`), and the next `drive` closes it with `EVICT_CLOSE_CODE`. The app may
authenticate a connection between the two. `mark_conn_authed` then keeps it from being
picked again, but the close that is pending stays, so that `drive` closes an authenticated
connection (`evicted_after_authed`).

`spared_iff` says when this does not happen, over all that the transport may do after the
call for as long as the connection lives: exactly when no eviction was pending at the call.
Besides the actions of the bookkeeping there are the two other places that touch what a
close depends on: a peer that opens a stream over the ceiling, and a close that the app
asks for. How many streams a connection has is left out, so the ceiling may be passed at
any time.
-/

namespace MqProxy.Transport

open MqProxy.Library

/-- `CEILING_CLOSE_CODE`. -/
def CEILING_CLOSE_CODE : ℕ := 0x1001

/-- What happens to a transport. -/
inductive Step where
  | act (a : Act)
  /-- `admit_peer` over the ceiling. -/
  | overCeiling (s : SlotId)
  /-- `close_conn` and `close_conn_with`; `locally` when no close of the peer was seen. -/
  | closeConn (conn : ConnId) (locally : Bool)

namespace Inner

/-- `admit_peer` over the ceiling. -/
def overCeiling (i : Inner) (s : SlotId) : Inner :=
  { i with conns := i.conns.modify s fun c => { c with pendingClose := some CEILING_CLOSE_CODE } }

/-- `mark_closed_locally`. -/
def markClosedLocally (i : Inner) (s : SlotId) (locally : Bool) : Inner :=
  { i with conns := i.conns.modify s fun c => { c with closedLocally := c.closedLocally || locally } }

/-- One step of a transport. -/
def step (grow : ℕ → ℕ → ℕ) (i : Inner) : Step → Option Inner
  | .act a => i.act grow a
  | .overCeiling s => some (i.overCeiling s)
  | .closeConn conn locally => some (i.markClosedLocally conn.slot locally)

/-- The connection that `drive` closes of its own accord in a step, and the code
(`xqc_conn_close_with_error`). -/
def driveCloses (i : Inner) : Step → Option (SlotId × ℕ)
  | .act (.takeClose s _) => ((i.conns.get s).bind ConnSlot.pendingClose).map fun code => (s, code)
  | _ => none

end Inner

/-- The step does not release the connection at an id. -/
def Keeps (s : SlotId) (_ : Inner) : Step → Prop
  | .act (.refuse s') => s' ≠ s
  | .act (.close s' _) => s' ≠ s
  | .act (.connectFailed s') => s' ≠ s
  | _ => True

/-! ### What a step does to one connection -/

/-- **What a step does to a connection that it keeps**: authentication stays, and a close is only
left, taken, or made pending by the ceiling or by an eviction, the last only of a connection that
is not authenticated. -/
structure Kept (c c' : ConnSlot) : Prop where
  authed : c.authed = true → c'.authed = true
  pending : c'.pendingClose = c.pendingClose ∨ c'.pendingClose = none ∨ c'.pendingClose = some CEILING_CLOSE_CODE ∨
    c.authed = false

theorem Kept.refl (c : ConnSlot) : Kept c c := ⟨id, .inl rfl⟩

/-- A connection that is not touched. -/
theorem kept_of_get {i i' : Inner} {s : SlotId} {c : ConnSlot} (hget : i.conns.get s = some c)
    (hsame : i'.conns.get s = i.conns.get s) : ∃ c', i'.conns.get s = some c' ∧ Kept c c' :=
  ⟨c, hsame.trans hget, .refl c⟩

variable {conns : Slots ConnSlot} {s : SlotId} {c : ConnSlot}

/-- A connection that may be changed. -/
theorem kept_of_modify (hget : conns.get s = some c)
    (s' : SlotId) {f : ConnSlot → ConnSlot} (hf : s = s' → Kept c (f c)) :
    ∃ c', (conns.modify s' f).get s = some c' ∧ Kept c c' := by
  rw [Slots.get_modify]
  split
  · next hs => exact ⟨f c, by rw [← hs, hget, Option.map_some], hf hs⟩
  · exact ⟨c, hget, .refl c⟩

theorem get_of_insert (hget : conns.get s = some c) (v : ConnSlot) : (conns.insert v).2.get s = conns.get s := by
  rw [Slots.get_insert, if_neg]
  rintro rfl
  rw [Slots.get_insert_fresh] at hget
  cases hget

theorem get_of_remove {conns' : Slots ConnSlot} {s' : SlotId} {v : ConnSlot}
    (h : conns.remove s' = some (v, conns')) (hs : s' ≠ s) : conns'.get s = conns.get s := by
  rw [(Slots.get_remove h).2, if_neg (Ne.symm hs)]

theorem victim_of_capCheck {i : Inner} {v : SlotId} (h : i.capCheck = some (.ok (some v))) : i.victim = some v := by
  rw [Inner.capCheck] at h
  split at h
  · cases h
  · obtain ⟨holding, -, h⟩ := Option.map_eq_some_iff.mp h
    split at h
    · cases h
    · split at h
      · cases h
      · split at h
        · cases h
        · next hv =>
          cases h
          exact hv

variable {i i' : Inner}

/-- An eviction touches its victim only. -/
theorem kept_of_evictVictim {v : Option SlotId}
    (hcheck : i.capCheck = some (.ok v)) (h : i.evictVictim v = some i') (hget : i.conns.get s = some c) :
    ∃ c', i'.conns.get s = some c' ∧ Kept c c' := by
  cases v with
  | none =>
    cases h
    exact kept_of_get hget rfl
  | some v =>
    obtain ⟨_, -, rfl⟩ := Option.map_eq_some_iff.mp h
    refine kept_of_modify hget v ?_
    rintro rfl
    obtain ⟨c', hc', -, hauthed, -⟩ := get_victim (victim_of_capCheck hcheck)
    rw [hget, Option.some.injEq] at hc'
    exact ⟨fun h => h, .inr (.inr (.inr (hc' ▸ hauthed)))⟩

theorem Kept.trans {c' c'' : ConnSlot} (h : Kept c c') (h' : Kept c' c'') : Kept c c'' := by
  refine ⟨fun hauthed => h'.authed (h.authed hauthed), ?_⟩
  cases hauthed : c.authed with
  | false => exact .inr (.inr (.inr rfl))
  | true =>
    rcases h'.pending with hp | hp | hp | hp
    · rw [hp, ← hauthed]
      exact h.pending
    · exact .inr (.inl hp)
    · exact .inr (.inr (.inl hp))
    · rw [h.authed hauthed] at hp
      cases hp

/-- The admission of a connection keeps every one. -/
theorem kept_of_onConnCreate {xqc : ℕ} {cid : Option ℕ} {s' : SlotId} {proto : ConnProto} {r : Bool}
    (h : i.onConnCreate xqc cid s' proto = some (r, i')) (hget : i.conns.get s = some c) :
    ∃ c', i'.conns.get s = some c' ∧ Kept c c' := by
  simp only [Inner.onConnCreate] at h
  split at h
  · cases h
    exact kept_of_get hget rfl
  · split at h
    · split at h
      · cases h
      · cases h
        exact kept_of_get hget rfl
      · next v hcheck =>
        simp only [Option.map_eq_some_iff, Option.bind_eq_some_iff, Prod.mk.injEq] at h
        obtain ⟨_, ⟨i₁, hevict, hadmit⟩, -, rfl⟩ := h
        simp only [Inner.admitSlot, Option.bind_eq_bind, Option.bind_eq_some_iff, pure, Option.some.injEq] at hadmit
        obtain ⟨_, -, _, -, _, -, rfl⟩ := hadmit
        obtain ⟨c₁, hget₁, hkept⟩ := kept_of_evictVictim hcheck hevict hget
        obtain ⟨c', hget', hkept'⟩ := kept_of_modify (f := fun c =>
          { c with admitted := i₁.nAdmitted + 1, provisional := false, provisionalDeadline := none, counted := true,
                   proto }) hget₁ s' fun _ => ⟨id, .inl rfl⟩
        exact ⟨c', hget', hkept.trans hkept'⟩
    · cases h
      exact kept_of_modify hget s' fun _ => ⟨id, .inl rfl⟩

/-- Clearing deadlines keeps every connection. -/
theorem kept_of_clearExpired (i : Inner) (now : ℕ) {s : SlotId} {c : ConnSlot} (hget : i.conns.get s = some c) :
    ∃ c', (i.clearExpired now).conns.get s = some c' ∧ Kept c c' := by
  simp only [Inner.clearExpired]
  generalize i.conns = conns at hget ⊢
  generalize (conns.iterLive.filter fun x => x.2.provisionalDeadline.any (· ≤ now)).map Prod.fst = expired
  induction expired generalizing conns c with
  | nil => exact ⟨c, hget, .refl c⟩
  | cons s' expired ih =>
    obtain ⟨c₁, hget₁, hkept⟩ :=
      kept_of_modify (f := fun c => { c with provisionalDeadline := none }) hget s' fun _ => ⟨id, .inl rfl⟩
    obtain ⟨c', hget', hkept'⟩ := ih _ hget₁
    exact ⟨c', hget', hkept.trans hkept'⟩

variable {grow : ℕ → ℕ → ℕ}

/-- A packet to write touches no connection. -/
theorem conns_of_onWrite {ud : SlotId} {path : PathId} {strict : Bool}
    {dst : Option Runtime.SocketAddr} {pkt : List UInt8} {r : ℤ}
    (h : i.onWrite grow ud path strict dst pkt = some (r, i')) : i'.conns = i.conns := by
  simp only [Inner.onWrite] at h
  cases dst with
  | none =>
    cases h
    rfl
  | some dst =>
    simp only at h
    split at h
    · simp only [Option.bind_eq_bind, Option.bind_eq_some_iff] at h
      obtain ⟨_, -, ⟨r', _⟩, -, h⟩ := h
      cases r' <;> cases h <;> rfl
    · simp only [Option.map_eq_some_iff, Prod.mk.injEq] at h
      obtain ⟨_, -, -, rfl⟩ := h
      rfl

theorem kept_of_act {a : Act}
    (hkeeps : Keeps s i (.act a)) (h : i.act grow a = some i') (hget : i.conns.get s = some c) :
    ∃ c', i'.conns.get s = some c' ∧ Kept c c' := by
  cases a with
  | accept xqc cid now =>
    simp only [Inner.act, Inner.onServerAccept, Option.map_map, Option.map_eq_some_iff] at h
    obtain ⟨check, -, rfl⟩ := h
    cases check with
    | error u => exact kept_of_get hget rfl
    | ok v =>
      simp only [Function.comp_apply]
      split
      · exact kept_of_get hget rfl
      · exact kept_of_get hget (get_of_insert hget _)
  | refuse s' =>
    simp only [Inner.act, Inner.onServerRefuse] at h
    split at h
    · cases h
      exact kept_of_get hget rfl
    · next hremove =>
      simp only [Option.bind_eq_bind, Option.bind_eq_some_iff, pure, Option.some.injEq] at h
      obtain ⟨_, -, _, -, _, -, _, -, rfl⟩ := h
      exact kept_of_get hget (get_of_remove hremove hkeeps)
  | create xqc cid s' proto =>
    obtain ⟨⟨r, i''⟩, hcreate, rfl⟩ := Option.map_eq_some_iff.mp h
    exact kept_of_onConnCreate hcreate hget
  | close s' reason =>
    simp only [Inner.act, Inner.onConnClose] at h
    split at h
    · cases h
      exact kept_of_get hget rfl
    · next hremove =>
      simp only [Option.bind_eq_bind, Option.bind_eq_some_iff, pure, Option.some.injEq] at h
      obtain ⟨_, -, _, -, _, -, rfl⟩ := h
      exact kept_of_get hget (get_of_remove hremove hkeeps)
  | connect =>
    cases h
    exact kept_of_get hget (get_of_insert hget _)
  | connectFailed s' =>
    cases h
    simp only [Inner.connectFailed]
    split
    · exact kept_of_get hget rfl
    · next hremove => exact kept_of_get hget (get_of_remove hremove hkeeps)
  | authed conn =>
    cases h
    exact kept_of_modify hget conn.slot fun _ => ⟨fun _ => rfl, .inl rfl⟩
  | write ud path strict dst pkt =>
    obtain ⟨⟨r, i''⟩, hwrite, rfl⟩ := Option.map_eq_some_iff.mp h
    exact kept_of_get hget (congrArg (Slots.get · s) (conns_of_onWrite hwrite))
  | transmitDone key n =>
    simp only [Inner.act, Inner.transmitDone] at h
    split at h
    · obtain ⟨_, -, rfl⟩ := Option.map_eq_some_iff.mp h
      exact kept_of_get hget rfl
    · cases h
      exact kept_of_get hget rfl
  | clearExpired now =>
    cases h
    exact kept_of_clearExpired i now hget
  | takeClose s' locally =>
    cases h
    exact kept_of_modify hget s' fun _ => ⟨id, .inr (.inl rfl)⟩
  | takeResumable =>
    cases h
    exact kept_of_get hget rfl

/-- **A step keeps a connection that it does not release.** -/
theorem kept_of_step {a : Step} (hkeeps : Keeps s i a)
    (h : i.step grow a = some i') (hget : i.conns.get s = some c) : ∃ c', i'.conns.get s = some c' ∧ Kept c c' := by
  cases a with
  | act a => exact kept_of_act hkeeps h hget
  | overCeiling s' =>
    cases h
    exact kept_of_modify hget s' fun _ => ⟨id, .inr (.inr (.inl rfl))⟩
  | closeConn conn locally =>
    cases h
    exact kept_of_modify hget conn.slot fun _ => ⟨id, .inl rfl⟩

/-! ### Authenticated connections -/

/-- The connection at an id is authenticated and no eviction is pending. -/
def Spared (s : SlotId) (i : Inner) : Prop :=
  ∃ c, i.conns.get s = some c ∧ c.authed = true ∧ c.pendingClose ≠ some EVICT_CLOSE_CODE

theorem Spared.step {a : Step} (h : Spared s i)
    (hkeeps : Keeps s i a) (hstep : i.step grow a = some i') : Spared s i' := by
  obtain ⟨c, hget, hauthed, hpending⟩ := h
  obtain ⟨c', hget', hkept⟩ := kept_of_step hkeeps hstep hget
  refine ⟨c', hget', hkept.authed hauthed, ?_⟩
  rcases hkept.pending with hp | hp | hp | hp
  · rwa [hp]
  · rw [hp]
    simp
  · rw [hp]
    decide
  · rw [hauthed] at hp
    cases hp

/-- A spared connection is not closed with the eviction code. -/
theorem Spared.driveCloses_ne (h : Spared s i) (a : Step) : i.driveCloses a ≠ some (s, EVICT_CLOSE_CODE) := by
  obtain ⟨c, hget, -, hpending⟩ := h
  intro hcloses
  unfold Inner.driveCloses at hcloses
  split at hcloses
  · simp only [Option.map_eq_some_iff, Prod.mk.injEq] at hcloses
    obtain ⟨code, hcode, rfl, rfl⟩ := hcloses
    rw [hget, Option.bind_some] at hcode
    exact hpending hcode
  · cases hcloses

/-- **A connection that the app authenticates is never closed with the eviction code, exactly when
no eviction of it was pending at the call**: over everything that may happen while it lives. -/
theorem spared_iff (grow : ℕ → ℕ → ℕ) {i : Inner} {conn : ConnId} {c : ConnSlot}
    (hlive : i.conns.get conn.slot = some c) :
    (∀ steps i' a, Run (Inner.step grow) (Keeps conn.slot) (i.markConnAuthed conn) steps i' →
        i'.driveCloses a ≠ some (conn.slot, EVICT_CLOSE_CODE)) ↔
      c.pendingClose ≠ some EVICT_CLOSE_CODE := by
  have hget : (i.markConnAuthed conn).conns.get conn.slot = some { c with authed := true } := by
    rw [Inner.markConnAuthed, Slots.get_modify, if_pos rfl, hlive, Option.map_some]
  constructor
  · -- the next `drive` carries the pending close out
    intro hnever hpending
    refine hnever [] _ (.act (.takeClose conn.slot true)) (.nil _) ?_
    rw [Inner.driveCloses, hget, Option.bind_some, hpending, Option.map_some]
  · intro hpending steps i' a hrun
    have hspared : Spared conn.slot i' :=
      hrun.invariant (fun _ _ _ h hkeeps hstep => h.step hkeeps hstep) ⟨_, hget, rfl, hpending⟩
    exact hspared.driveCloses_ne a

/-- An authenticated connection at the cap of one: nothing closes it with the eviction code. -/
theorem spared_iff_first :
    ∃ i c, Run (Inner.step fun _ _ => 0) (fun _ _ => True) (.new 1)
        [.act (.accept 1 1 0), .act (.create 1 (some 1) ⟨0, 1⟩ .raw)] i ∧
      i.conns.get ⟨0, 1⟩ = some c ∧
      ∀ steps i' a, Run (Inner.step fun _ _ => 0) (Keeps ⟨0, 1⟩) (i.markConnAuthed ⟨0, 1, Nat.one_ne_zero⟩) steps i' →
        i'.driveCloses a ≠ some (⟨0, 1⟩, EVICT_CLOSE_CODE) :=
  ⟨_, _, .cons trivial rfl (.cons trivial rfl (.nil _)), rfl,
    (@spared_iff (fun _ _ => 0) _ ⟨0, 1, Nat.one_ne_zero⟩ _ rfl).mpr (by decide)⟩

/-- **An authenticated connection is evicted**: with a cap of one, the first connection is picked
when the second is created, then authenticated, and closed by the next `drive`. -/
theorem evicted_after_authed :
    ¬∀ (grow : ℕ → ℕ → ℕ) (maxConns : ℕ) (before after : List Step) (i i' : Inner) (conn : ConnId) (a : Step),
      Run (Inner.step grow) (fun _ _ => True) (.new maxConns) before i → i.conns.isLive conn.slot = true →
        Run (Inner.step grow) (Keeps conn.slot) (i.markConnAuthed conn) after i' →
          i'.driveCloses a ≠ some (conn.slot, EVICT_CLOSE_CODE) := by
  intro h
  refine h (fun _ _ => 0) 1 [.act (.accept 1 1 0), .act (.create 1 (some 1) ⟨0, 1⟩ .raw), .act (.accept 2 2 0),
    .act (.create 2 (some 2) ⟨1, 1⟩ .raw)] [] _ _ ⟨0, 1, Nat.one_ne_zero⟩ (.act (.takeClose ⟨0, 1⟩ true))
    (.cons trivial rfl (.cons trivial rfl (.cons trivial rfl (.cons trivial rfl (.nil _))))) ?_ (.nil _) ?_
  · decide
  · decide

end MqProxy.Transport
