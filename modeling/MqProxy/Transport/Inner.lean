import MqProxy.Transport.TxQueues
import Mathlib.Data.List.MinMax

/-!
# The transport's bookkeeping

`Inner` of `mq-transport/src/lib.rs` and what the callbacks of xquic do to it, from
`mq-transport/src/ffi/trampolines.rs`: a connection is accepted provisionally, admitted
by the create notification of its protocol if the cap allows it, and released by the close
notification or by a refusal; packets go to the transmit queues. `drive` of
`mq-transport/src/conn.rs` is its three pieces, between which xquic calls back: deadlines
that have passed are cleared, a pending close is carried out, and the connections that may
send again are taken. Streams, datagrams, the engine and the event timer are left out;
pointers and connection ids of xquic are numbers, and times are microseconds.

A subtraction below zero and an `expect` that fails have no result. Counters are natural
numbers: there are fewer than `2^32` connections.
-/

namespace MqProxy.Transport

open MqProxy.Library MqProxy.Runtime

/-- `ConnProto`. -/
inductive ConnProto where
  | raw
  | h3
  deriving DecidableEq

/-- `ErrType`. -/
inductive ErrType where
  | unknown
  | transport
  | application
  deriving DecidableEq

/-- `CloseReason`. -/
structure CloseReason where
  errType : ErrType
  code : ℕ
  deriving DecidableEq

/-- The events of `Event` that tell of connections. -/
inductive Event where
  | newConn (conn : ConnId) (proto : ConnProto)
  | connClosed (conn : ConnId) (reason : CloseReason)
  deriving DecidableEq

/-- `EVICT_CLOSE_CODE`. -/
def EVICT_CLOSE_CODE : ℕ := 0x1002

/-- `PROVISIONAL_TIMEOUT`. -/
def PROVISIONAL_TIMEOUT : ℕ := 10000000

/-- `BACKLOG_MIN`. -/
def BACKLOG_MIN : ℕ := 64

/-- `XQC_SOCKET_EAGAIN`. -/
def XQC_SOCKET_EAGAIN : ℤ := -2

/-- `backlog_cap`. -/
def backlogCap (maxConns : ℕ) : ℕ := max BACKLOG_MIN (min (maxConns * 4) (2 ^ 32 - 1))

/-- `ConnSlot`. -/
structure ConnSlot where
  xqc : ℕ
  cid : ℕ
  counted : Bool
  server : Bool
  proto : ConnProto
  provisional : Bool
  provisionalDeadline : Option ℕ
  authed : Bool
  evicting : Bool
  admitted : ℕ
  pendingClose : Option ℕ
  closedLocally : Bool
  deriving DecidableEq

/-- `ConnSlot::new`. -/
def ConnSlot.new (server : Bool) (xqc cid : ℕ) : ConnSlot :=
  ⟨xqc, cid, false, server, .raw, false, none, false, false, 0, none, false⟩

/-- `Inner`. -/
structure Inner where
  /-- `cfg.max_conns`; `0` is no limit. -/
  maxConns : ℕ
  nCounted : ℕ
  nProvisional : ℕ
  nAdmitted : ℕ
  conns : Slots ConnSlot
  txq : TxQueues
  /-- The events queued, oldest first. -/
  events : List Event

/-- A counter goes down when `b`. -/
def decrementIf (b : Bool) (n : ℕ) : Option ℕ := if b then checkedSub n 1 else some n

namespace Inner

/-- `Inner::new`. -/
def new (maxConns : ℕ) : Inner := ⟨maxConns, 0, 0, 0, .default, .default, []⟩

/-! ### Admission -/

variable (i : Inner)

/-- The victim of `cap_check`: the oldest counted connection that is neither
authenticated nor being evicted. -/
def victim : Option SlotId :=
  ((i.conns.iterLive.filter fun x => x.2.counted && !x.2.authed && !x.2.evicting).argmin fun x => x.2.admitted).map
    Prod.fst

/-- `cap_check`: room, room if the victim is evicted, or none. -/
def capCheck : Option (Except Unit (Option SlotId)) :=
  if i.maxConns = 0 ∨ i.nCounted < i.maxConns then some (.ok none)
  else
    let evicting := (i.conns.iterLive.filter fun x => x.2.evicting).length
    (checkedSub i.nCounted evicting).map fun holding =>
      if holding < i.maxConns then .ok none
      else if backlogCap i.maxConns ≤ evicting then .error ()
      else match i.victim with
        | none => .error ()
        | some v => .ok (some v)

/-- `on_server_accept`. -/
def onServerAccept (xqc cid now : ℕ) : Option (Option SlotId × Inner) :=
  i.capCheck.map fun
    | .error () => (none, i)
    | .ok _ =>
      if backlogCap i.maxConns ≤ i.nProvisional then (none, i)
      else
        let slot := { ConnSlot.new true xqc cid with
          provisional := true, provisionalDeadline := some (now + PROVISIONAL_TIMEOUT) }
        let (s, conns) := i.conns.insert slot
        (some s, { i with conns, nProvisional := i.nProvisional + 1 })

/-- `on_server_refuse`. -/
def onServerRefuse (s : SlotId) : Option Inner :=
  match i.conns.remove s with
  | none => some i
  | some (slot, conns) => do
    let conn ← ConnId.fromSlot s
    let txq ← i.txq.dropConn conn
    let nProvisional ← decrementIf slot.provisional i.nProvisional
    let nCounted ← decrementIf slot.counted i.nCounted
    let closed := if slot.counted then [.connClosed conn ⟨.unknown, 0⟩] else []
    return { i with conns, txq, nProvisional, nCounted, events := i.events ++ closed }

/-- A connection is picked as a victim. -/
def evict (c : ConnSlot) : ConnSlot :=
  { c with evicting := true, pendingClose := some (c.pendingClose.getD EVICT_CLOSE_CODE) }

/-- The victim of a cap check is marked. -/
def evictVictim : Option SlotId → Option Inner
  | none => some i
  | some v => (i.conns.get v).map fun _ => { i with conns := i.conns.modify v evict }

/-- The server's part of `on_conn_create` once the cap allows it. -/
def admitSlot (s : SlotId) (proto : ConnProto) : Option Inner := do
  let slot ← i.conns.get s
  let nProvisional ← decrementIf slot.provisional i.nProvisional
  let conn ← ConnId.fromSlot s
  return { i with
    conns := i.conns.modify s fun c =>
      { c with admitted := i.nAdmitted + 1, provisional := false, provisionalDeadline := none, counted := true, proto }
    nCounted := i.nCounted + 1
    nAdmitted := i.nAdmitted + 1
    nProvisional
    events := i.events ++ [.newConn conn proto] }

/-- `on_conn_create`. -/
def onConnCreate (xqc : ℕ) (cid : Option ℕ) (s : SlotId) (proto : ConnProto) : Option (Bool × Inner) :=
  match i.conns.get s with
  | none => some (false, i)
  | some slot =>
    if slot.server then
      match i.capCheck with
      | none => none
      | some (.error ()) => some (false, i)
      | some (.ok v) => ((i.evictVictim v).bind fun i => i.admitSlot s proto).map fun i => (true, i)
    else some (true, { i with conns := i.conns.modify s fun c => { c with xqc, cid := cid.getD c.cid, proto } })

/-- `on_conn_close`. -/
def onConnClose (s : SlotId) (reason : CloseReason) : Option Inner :=
  match i.conns.remove s with
  | none => some i
  | some (slot, conns) => do
    let conn ← ConnId.fromSlot s
    let reason := if slot.closedLocally then { reason with errType := .unknown } else reason
    let nCounted ← decrementIf slot.counted i.nCounted
    let txq ← i.txq.dropConn conn
    return { i with conns, txq, nCounted, events := i.events ++ [.connClosed conn reason] }

/-- `connect`: the slot of a client connection, before xquic is called. -/
def connect : Inner := { i with conns := (i.conns.insert (.new false 0 0)).2 }

/-- The end of `connect` when xquic gave no connection. -/
def connectFailed (s : SlotId) : Inner :=
  match i.conns.remove s with
  | none => i
  | some (_, conns) => { i with conns }

/-- `mark_conn_authed`. -/
def markConnAuthed (conn : ConnId) : Inner :=
  { i with conns := i.conns.modify conn.slot fun c => { c with authed := true } }

/-! ### Packets -/

/-- `on_write`. -/
def onWrite (grow : ℕ → ℕ → ℕ) (i : Inner) (ud : SlotId) (path : PathId) (strict : Bool) (dst : Option SocketAddr)
    (pkt : List UInt8) : Option (ℤ × Inner) :=
  match dst with
  | none => some (pkt.length, i)
  | some dst =>
    if strict && i.conns.isLive ud then do
      let conn ← ConnId.fromSlot ud
      let key := (some conn, path)
      match ← i.txq.push grow key dst pkt with
      | (.ok (), txq) => return (pkt.length, { i with txq })
      | (.error why, txq) => return (XQC_SOCKET_EAGAIN, { i with txq := txq.recordBlocked conn key why })
    else (i.txq.pushOrDrop grow (none, 0) dst pkt).map fun txq => (pkt.length, { i with txq })

/-- `transmit_done`. -/
def transmitDone (key : TxKey) (datagrams : ℕ) : Option Inner :=
  if datagrams ≠ 0 then (i.txq.done key datagrams).map fun txq => { i with txq } else some i

/-! ### The pieces of `drive` -/

/-- The deadlines that have passed are cleared. -/
def clearExpired (now : ℕ) : Inner :=
  let expired := (i.conns.iterLive.filter fun x => x.2.provisionalDeadline.any (· ≤ now)).map Prod.fst
  { i with conns := expired.foldl (fun conns s => conns.modify s fun c => { c with provisionalDeadline := none }) i.conns }

/-- A pending close is taken; `locally` when no close of the peer was seen. -/
def takeClose (s : SlotId) (locally : Bool) : Inner :=
  { i with conns := i.conns.modify s fun c =>
      { c with pendingClose := none, closedLocally := c.closedLocally || (c.pendingClose.isSome && locally) } }

/-- The connections that may send again are taken. -/
def takeResumable (i : Inner) : Inner := { i with txq := i.txq.takeResumable.2 }

end Inner

/-- What happens to the bookkeeping. -/
inductive Act where
  | accept (xqc cid now : ℕ)
  | refuse (s : SlotId)
  | create (xqc : ℕ) (cid : Option ℕ) (s : SlotId) (proto : ConnProto)
  | close (s : SlotId) (reason : CloseReason)
  | connect
  | connectFailed (s : SlotId)
  | authed (conn : ConnId)
  | write (ud : SlotId) (path : PathId) (strict : Bool) (dst : Option SocketAddr) (pkt : List UInt8)
  | transmitDone (key : TxKey) (datagrams : ℕ)
  | clearExpired (now : ℕ)
  | takeClose (s : SlotId) (locally : Bool)
  | takeResumable

/-- One action. -/
def Inner.act (grow : ℕ → ℕ → ℕ) (i : Inner) : Act → Option Inner
  | .accept xqc cid now => (i.onServerAccept xqc cid now).map Prod.snd
  | .refuse s => i.onServerRefuse s
  | .create xqc cid s proto => (i.onConnCreate xqc cid s proto).map Prod.snd
  | .close s reason => i.onConnClose s reason
  | .connect => some i.connect
  | .connectFailed s => some (i.connectFailed s)
  | .authed conn => some (i.markConnAuthed conn)
  | .write ud path strict dst pkt => (i.onWrite grow ud path strict dst pkt).map Prod.snd
  | .transmitDone key datagrams => i.transmitDone key datagrams
  | .clearExpired now => some (i.clearExpired now)
  | .takeClose s locally => some (i.takeClose s locally)
  | .takeResumable => some i.takeResumable

/-! ### What an action does to the transmit queues -/

/-- The action drops a connection. -/
def Drops (i : Inner) (a : Act) (conn : ConnId) : Prop :=
  (a = .refuse conn.slot ∨ ∃ reason, a = .close conn.slot reason) ∧ i.conns.isLive conn.slot = true

/-- What an action does to the transmit queues. -/
inductive TxStep (grow : ℕ → ℕ → ℕ) (i : Inner) : Act → TxQueues → Prop
  | same {a : Act} :
      (∀ key n, a = .transmitDone key n → n = 0) → (∀ conn, ¬Drops i a conn) → TxStep grow i a i.txq
  /-- A packet was pushed, and a refusal is not recorded or there is none. -/
  | pushed {ud : SlotId} {path : PathId} {strict : Bool} {dst : SocketAddr} {pkt : List UInt8} {key : TxKey}
      {r : Except Refusal Unit} {t : TxQueues} :
      i.txq.push grow key dst pkt = some (r, t) → TxStep grow i (.write ud path strict (some dst) pkt) t
  /-- A live connection is blocked. -/
  | refused {conn : ConnId} {path : PathId} {strict : Bool} {dst : SocketAddr} {pkt : List UInt8} {why : Refusal}
      {t : TxQueues} :
      i.conns.isLive conn.slot = true → i.txq.push grow (some conn, path) dst pkt = some (.error why, t) →
        TxStep grow i (.write conn.slot path strict (some dst) pkt) (t.recordBlocked conn (some conn, path) why)
  | done {key : TxKey} {n : ℕ} {t : TxQueues} :
      n ≠ 0 → i.txq.done key n = some t → TxStep grow i (.transmitDone key n) t
  | dropped {a : Act} {conn : ConnId} {t : TxQueues} :
      Drops i a conn → i.txq.dropConn conn = some t → TxStep grow i a t
  | resumed : TxStep grow i .takeResumable i.txq.takeResumable.2

variable {grow : ℕ → ℕ → ℕ} {i i' : Inner} {a : Act}

/-! ### Victims -/

/-- A victim is counted, and neither authenticated nor being evicted. -/
theorem get_victim {v : SlotId} (h : i.victim = some v) :
    ∃ c, i.conns.get v = some c ∧ c.counted = true ∧ c.authed = false ∧ c.evicting = false := by
  obtain ⟨⟨v', c⟩, hmin, rfl⟩ := Option.map_eq_some_iff.mp h
  obtain ⟨hmem, hc⟩ := List.mem_filter.mp (List.argmin_mem hmin)
  simp only [Bool.and_eq_true, Bool.not_eq_true'] at hc
  exact ⟨c, Slots.mem_iterLive.mp hmem, hc.1.1, hc.1.2, hc.2⟩

/-! ### Every action is a step of the transmit queues -/

theorem drops_of_remove {s : SlotId} {slot : ConnSlot} {conns : Slots ConnSlot} {conn : ConnId}
    (hremove : i.conns.remove s = some (slot, conns)) (hconn : ConnId.fromSlot s = some conn) :
    s = conn.slot ∧ i.conns.isLive conn.slot = true := by
  have hslot := ConnId.slot_of_fromSlot hconn
  exact ⟨hslot.symm, by rw [Slots.isLive, hslot, (Slots.get_remove hremove).1, Option.isSome_some]⟩

theorem Inner.onConnCreate_txq {xqc : ℕ} {cid : Option ℕ} {s : SlotId} {proto : ConnProto} {r : Bool}
    (h : i.onConnCreate xqc cid s proto = some (r, i')) : i'.txq = i.txq := by
  simp only [Inner.onConnCreate] at h
  split at h
  · cases h
    rfl
  · split at h
    · split at h
      · cases h
      · cases h
        rfl
      · next v _ =>
        simp only [Option.map_eq_some_iff, Option.bind_eq_some_iff, Prod.mk.injEq] at h
        obtain ⟨_, ⟨i₁, hevict, hadmit⟩, -, rfl⟩ := h
        have htxq : i₁.txq = i.txq := by
          cases v with
          | none =>
            cases hevict
            rfl
          | some v =>
            obtain ⟨_, -, rfl⟩ := Option.map_eq_some_iff.mp hevict
            rfl
        simp only [Inner.admitSlot, Option.bind_eq_bind, Option.bind_eq_some_iff, pure, Option.some.injEq] at hadmit
        obtain ⟨_, -, _, -, _, -, rfl⟩ := hadmit
        exact htxq
    · cases h
      rfl

/-- The action is neither a `done` nor a drop. -/
theorem TxStep.of_idle (hdone : ∀ key n, a ≠ .transmitDone key n) (hrefuse : ∀ s, a ≠ .refuse s)
    (hclose : ∀ s reason, a ≠ .close s reason) : TxStep grow i a i.txq := by
  refine .same (fun key n h => absurd h (hdone key n)) ?_
  rintro conn ⟨h | ⟨reason, h⟩, -⟩
  · exact hrefuse _ h
  · exact hclose _ _ h

/-- A slot that is not live is not dropped. -/
theorem TxStep.of_stale {s : SlotId} (hremove : i.conns.remove s = none)
    (ha : a = .refuse s ∨ ∃ reason, a = .close s reason) : TxStep grow i a i.txq := by
  have hstale : i.conns.isLive s = false := by
    cases hget : i.conns.get s with
    | none => rw [Slots.isLive, hget, Option.isSome_none]
    | some slot =>
      obtain ⟨conns, hsome, -⟩ := Slots.remove_cases hget
      rw [hremove] at hsome
      cases hsome
  refine .same ?_ ?_
  · rintro key n rfl
    rcases ha with ha | ⟨_, ha⟩ <;> cases ha
  · rintro conn ⟨h, hlive⟩
    have hs : s = conn.slot := by
      rcases ha with rfl | ⟨_, rfl⟩
      · rcases h with h | ⟨_, h⟩ <;> cases h
        rfl
      · rcases h with h | ⟨_, h⟩ <;> cases h
        rfl
    rw [← hs, hstale] at hlive
    cases hlive

/-- **Every action is one of these for the transmit queues.** -/
theorem txStep_of_act (h : i.act grow a = some i') : TxStep grow i a i'.txq := by
  cases a with
  | accept xqc cid now =>
    simp only [Inner.act, Inner.onServerAccept, Option.map_map, Option.map_eq_some_iff] at h
    obtain ⟨check, -, rfl⟩ := h
    cases check with
    | error u => exact .of_idle (by simp) (by simp) (by simp)
    | ok v =>
      simp only [Function.comp_apply]
      split <;> exact .of_idle (by simp) (by simp) (by simp)
  | refuse s =>
    simp only [Inner.act, Inner.onServerRefuse] at h
    split at h
    · next hremove =>
      cases h
      exact .of_stale hremove (.inl rfl)
    · next slot conns hremove =>
      simp only [Option.bind_eq_bind, Option.bind_eq_some_iff, pure, Option.some.injEq] at h
      obtain ⟨conn, hconn, txq, hdrop, _, -, _, -, rfl⟩ := h
      obtain ⟨rfl, hlive⟩ := drops_of_remove hremove hconn
      exact .dropped ⟨.inl rfl, hlive⟩ hdrop
  | create xqc cid s proto =>
    obtain ⟨⟨r, i''⟩, hcreate, rfl⟩ := Option.map_eq_some_iff.mp h
    rw [show (r, i'').2.txq = i.txq from Inner.onConnCreate_txq hcreate]
    exact .of_idle (by simp) (by simp) (by simp)
  | close s reason =>
    simp only [Inner.act, Inner.onConnClose] at h
    split at h
    · next hremove =>
      cases h
      exact .of_stale hremove (.inr ⟨reason, rfl⟩)
    · next slot conns hremove =>
      simp only [Option.bind_eq_bind, Option.bind_eq_some_iff, pure, Option.some.injEq] at h
      obtain ⟨conn, hconn, _, -, txq, hdrop, rfl⟩ := h
      obtain ⟨rfl, hlive⟩ := drops_of_remove hremove hconn
      exact .dropped ⟨.inr ⟨reason, rfl⟩, hlive⟩ hdrop
  | connect =>
    cases h
    exact .of_idle (by simp) (by simp) (by simp)
  | connectFailed s =>
    cases h
    simp only [Inner.connectFailed]
    split <;> exact .of_idle (by simp) (by simp) (by simp)
  | authed conn =>
    cases h
    exact .of_idle (by simp) (by simp) (by simp)
  | write ud path strict dst pkt =>
    simp only [Inner.act, Option.map_eq_some_iff, Prod.exists, exists_eq_right] at h
    obtain ⟨r, h⟩ := h
    simp only [Inner.onWrite] at h
    cases dst with
    | none =>
      cases h
      exact .of_idle (by simp) (by simp) (by simp)
    | some dst =>
      simp only at h
      split at h
      · next hlive =>
        rw [Bool.and_eq_true] at hlive
        simp only [Option.bind_eq_bind, Option.bind_eq_some_iff] at h
        obtain ⟨conn, hconn, ⟨r', txq⟩, hpush, h⟩ := h
        obtain rfl := ConnId.slot_of_fromSlot hconn
        cases r' with
        | ok u =>
          cases h
          exact .pushed hpush
        | error why =>
          cases h
          exact .refused hlive.2 hpush
      · simp only [Option.map_eq_some_iff, TxQueues.pushOrDrop, Prod.mk.injEq] at h
        obtain ⟨txq, ⟨⟨r', txq'⟩, hpush, rfl⟩, -, rfl⟩ := h
        exact .pushed hpush
  | transmitDone key n =>
    simp only [Inner.act, Inner.transmitDone] at h
    split at h
    · next hn =>
      obtain ⟨txq, hdone, rfl⟩ := Option.map_eq_some_iff.mp h
      exact .done hn hdone
    · next hn =>
      cases h
      refine .same (fun key' n' h => ?_) ?_
      · cases h
        exact not_not.mp hn
      · rintro conn ⟨h | ⟨_, h⟩, -⟩ <;> cases h
  | clearExpired now =>
    cases h
    exact .of_idle (by simp) (by simp) (by simp)
  | takeClose s locally =>
    cases h
    exact .of_idle (by simp) (by simp) (by simp)
  | takeResumable =>
    cases h
    exact .resumed

/-- The queues stand for lists of packets after every action. -/
theorem TxStep.represents {t : TxQueues} {m : TxKey → List Packet} (hs : TxStep grow i a t) (h : i.txq.Represents m) :
    ∃ m', t.Represents m' := by
  cases hs with
  | same => exact ⟨m, h⟩
  | @pushed ud path strict dst pkt key r t hpush =>
    obtain ⟨t', ht', hrep, -⟩ := h.push grow key ⟨dst, pkt⟩
    rw [hpush, Option.some.injEq, Prod.mk.injEq] at ht'
    exact ⟨_, ht'.2 ▸ hrep⟩
  | @refused conn path strict dst pkt why t hlive hpush =>
    obtain ⟨t', ht', hrep, -⟩ := h.push grow (some conn, path) ⟨dst, pkt⟩
    rw [hpush, Option.some.injEq, Prod.mk.injEq] at ht'
    exact ⟨_, (ht'.2 ▸ hrep).of_eq rfl rfl⟩
  | done hn hdone =>
    obtain ⟨t₁, rfl, hrep, -⟩ := h.of_done hdone
    exact ⟨_, hrep.resumptionPass _⟩
  | @dropped a conn t hdrops hdrop =>
    obtain ⟨t₁, ht₁, hrep, -⟩ := h.dropConn conn
    rw [hdrop, Option.some.injEq] at ht₁
    exact ⟨_, ht₁ ▸ hrep.resumptionPass _⟩
  | resumed => exact ⟨m, h.of_eq rfl rfl⟩

end MqProxy.Transport
