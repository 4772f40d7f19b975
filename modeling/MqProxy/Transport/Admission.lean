import MqProxy.Library.Runs
import MqProxy.Transport.Inner

/-!
# Admission accounts

The transport counts the connections that were admitted (`n_counted`) and those that were
accepted and wait for it (`n_provisional`), and holds both against caps. At the cap a new
connection is admitted by evicting an old one, which stays counted until its close
notification but does not hold the cap.

`admission_accounts` says that the counters are right and the caps are kept along every
run, for as long as xquic keeps its side (`Proper`): a connection is created at most once,
its close is notified only if the create succeeded, and any other accepted connection is
refused. It also says which events each server connection leads to.
-/

namespace MqProxy.Transport

open MqProxy.Library MqProxy.Runtime

/-- The number of packets queued at a key. -/
def TxQueues.queued (t : TxQueues) (key : TxKey) : ℕ := ((t.queues.lookup key).map fun q => q.pkts.length).getD 0

/-- **What xquic and the driver keep to.** -/
def Proper (i : Inner) : Act → Prop
  /- a server connection is not created again -/
  | .create _ _ s _ => ∀ slot, i.conns.get s = some slot → slot.server = true → slot.counted = false
  /- the close of a server connection is notified only if its create succeeded -/
  | .close s _ => ∀ slot, i.conns.get s = some slot → slot.server = true → slot.counted = true
  | .connectFailed s => ∀ slot, i.conns.get s = some slot → slot.server = false
  | .transmitDone key n => n ≤ i.txq.queued key
  | _ => True

/-- What the accounts look at in a slot. -/
structure Flags where
  server : Bool
  counted : Bool
  provisional : Bool
  evicting : Bool

/-- The flags of a slot. -/
def ConnSlot.flags (c : ConnSlot) : Flags := ⟨c.server, c.counted, c.provisional, c.evicting⟩

/-- The flags of a slot fit together. -/
structure Flags.Ok (f : Flags) : Prop where
  counted : f.counted = true → f.server = true ∧ f.provisional = false
  provisional : f.provisional = true → f.server = true
  evicting : f.evicting = true → f.counted = true

/-- The connections that hold the cap. -/
def Inner.held (i : Inner) : ℕ := i.conns.count fun c => c.counted && !c.evicting

/-- **The accounts are right and the caps are kept.** -/
structure Accounts (i : Inner) : Prop where
  flags : ∀ s c, i.conns.get s = some c → c.flags.Ok
  counted_eq : i.nCounted = i.conns.count ConnSlot.counted
  provisional_eq : i.nProvisional = i.conns.count ConnSlot.provisional
  held_le : i.maxConns ≠ 0 → i.held ≤ i.maxConns
  evicting_le : i.conns.count ConnSlot.evicting ≤ backlogCap i.maxConns
  provisional_le : i.conns.count ConnSlot.provisional ≤ backlogCap i.maxConns
  represents : ∃ m, i.txq.Represents m

theorem accounts_new (maxConns : ℕ) : Accounts (.new maxConns) :=
  ⟨fun _ _ h => (nomatch h), rfl, rfl, fun _ => Nat.zero_le _, Nat.zero_le _, Nat.zero_le _,
    ⟨_, TxQueues.represents_default⟩⟩

variable {i i' : Inner} {s : SlotId}

/-- Evicting connections are counted apart from those that hold the cap. -/
theorem Accounts.held_add_evicting (h : Accounts i) : i.held + i.conns.count ConnSlot.evicting = i.nCounted := by
  rw [h.counted_eq]
  exact (Slots.count_split (p := ConnSlot.counted) (q := ConnSlot.evicting)
    fun s c hc hev => (h.flags s c hc).evicting hev).symm

/-! ### Changes that the accounts do not see -/

/-- The same slots with the same flags. -/
structure Alike (conns conns' : Slots ConnSlot) : Prop where
  get : ∀ s, (conns'.get s).map ConnSlot.flags = (conns.get s).map ConnSlot.flags
  count : ∀ p : Flags → Bool, conns'.count (fun c => p c.flags) = conns.count fun c => p c.flags

theorem Alike.refl (conns : Slots ConnSlot) : Alike conns conns := ⟨fun _ => rfl, fun _ => rfl⟩

theorem Alike.trans {conns conns' conns'' : Slots ConnSlot} (h : Alike conns conns') (h' : Alike conns' conns'') :
    Alike conns conns'' :=
  ⟨fun s => (h'.get s).trans (h.get s), fun p => (h'.count p).trans (h.count p)⟩

theorem alike_modify (conns : Slots ConnSlot) (s : SlotId) {f : ConnSlot → ConnSlot} (hf : ∀ c, (f c).flags = c.flags) :
    Alike conns (conns.modify s f) := by
  refine ⟨fun s' => ?_, fun p => Slots.count_modify_of_eq conns s fun c => by rw [hf]⟩
  rw [Slots.get_modify]
  split
  · next h =>
    subst h
    rw [Option.map_map]
    exact congrArg (Option.map · _) (funext hf)
  · rfl

theorem alike_foldl_modify (ss : List SlotId) (conns : Slots ConnSlot) {f : ConnSlot → ConnSlot}
    (hf : ∀ c, (f c).flags = c.flags) : Alike conns (ss.foldl (fun conns s => conns.modify s f) conns) := by
  induction ss generalizing conns with
  | nil => exact .refl conns
  | cons s ss ih => exact (alike_modify conns s hf).trans (ih _)

/-- The accounts do not see it. -/
theorem Accounts.of_alike (h : Accounts i) (halike : Alike i.conns i'.conns) (hmax : i'.maxConns = i.maxConns)
    (hcounted : i'.nCounted = i.nCounted) (hprovisional : i'.nProvisional = i.nProvisional)
    (hrep : ∃ m, i'.txq.Represents m) : Accounts i' := by
  refine ⟨fun s c hc => ?_, ?_, ?_, ?_, ?_, ?_, hrep⟩
  · have hget := halike.get s
    rw [hc] at hget
    obtain ⟨c', hc', hflags⟩ := Option.map_eq_some_iff.mp hget.symm
    exact hflags ▸ h.flags s c' hc'
  · rw [hcounted, h.counted_eq]
    exact (halike.count Flags.counted).symm
  · rw [hprovisional, h.provisional_eq]
    exact (halike.count Flags.provisional).symm
  · rw [hmax]
    exact fun hne => (halike.count fun f => f.counted && !f.evicting).trans_le (h.held_le hne)
  · rw [hmax]
    exact (halike.count Flags.evicting).trans_le h.evicting_le
  · rw [hmax]
    exact (halike.count Flags.provisional).trans_le h.provisional_le

/-! ### Changes of one slot -/

/-- `1` for flags with a property. -/
def indicator (p : Flags → Bool) (o : Option Flags) : ℕ := if o.any p then 1 else 0

@[simp] theorem indicator_none (p : Flags → Bool) : indicator p none = 0 := rfl

@[simp] theorem indicator_some (p : Flags → Bool) (f : Flags) : indicator p (some f) = if p f then 1 else 0 := rfl

/-- **One slot changes**: its flags were `o` and are `o'`, `none` for no connection. -/
structure Swap (conns conns' : Slots ConnSlot) (s : SlotId) (o o' : Option Flags) : Prop where
  before : (conns.get s).map ConnSlot.flags = o
  after : (conns'.get s).map ConnSlot.flags = o'
  others : ∀ s' ≠ s, conns'.get s' = conns.get s'
  count : ∀ p : Flags → Bool,
    conns'.count (fun c => p c.flags) + indicator p o = conns.count (fun c => p c.flags) + indicator p o'

theorem swap_insert (conns : Slots ConnSlot) (c : ConnSlot) :
    Swap conns (conns.insert c).2 (conns.insert c).1 none (some c.flags) := by
  refine ⟨by rw [Slots.get_insert_fresh, Option.map_none], ?_, fun s' hs' => ?_, fun p => Slots.count_insert conns c⟩
  · rw [Slots.get_insert, if_pos rfl, Option.map_some]
  · rw [Slots.get_insert, if_neg hs']

theorem swap_remove {conns conns' : Slots ConnSlot} {c : ConnSlot} (h : conns.remove s = some (c, conns')) :
    Swap conns conns' s (some c.flags) none := by
  obtain ⟨hget, hget'⟩ := Slots.get_remove h
  refine ⟨by rw [hget, Option.map_some], by rw [hget', if_pos rfl, Option.map_none], fun s' hs' => ?_,
    fun p => Slots.count_remove h⟩
  rw [hget', if_neg hs']

theorem swap_modify {conns : Slots ConnSlot} {c : ConnSlot} (h : conns.get s = some c) (f : ConnSlot → ConnSlot) :
    Swap conns (conns.modify s f) s (some c.flags) (some (f c).flags) := by
  refine ⟨by rw [h, Option.map_some], by rw [Slots.get_modify, if_pos rfl, h, Option.map_some, Option.map_some],
    fun s' hs' => ?_, fun p => Slots.count_modify h f⟩
  rw [Slots.get_modify, if_neg hs']

/-- **The accounts stay right** when the counters follow the flags and the caps have room for
them. -/
theorem Accounts.swap (h : Accounts i) {o o' : Option Flags} (hswap : Swap i.conns i'.conns s o o')
    (hok : ∀ f, o' = some f → f.Ok) (hmax : i'.maxConns = i.maxConns)
    (hcounted : i'.nCounted + indicator Flags.counted o = i.nCounted + indicator Flags.counted o')
    (hprovisional : i'.nProvisional + indicator Flags.provisional o = i.nProvisional + indicator Flags.provisional o')
    (hheld : i.maxConns ≠ 0 → i.held + indicator (fun f => f.counted && !f.evicting) o' ≤
      i.maxConns + indicator (fun f => f.counted && !f.evicting) o)
    (hevicting : i.conns.count ConnSlot.evicting + indicator Flags.evicting o' ≤
      backlogCap i.maxConns + indicator Flags.evicting o)
    (hbacklog : i.conns.count ConnSlot.provisional + indicator Flags.provisional o' ≤
      backlogCap i.maxConns + indicator Flags.provisional o)
    (hrep : ∃ m, i'.txq.Represents m) : Accounts i' := by
  have hc : i'.conns.count ConnSlot.counted + _ = i.conns.count ConnSlot.counted + _ := hswap.count Flags.counted
  have hp : i'.conns.count ConnSlot.provisional + _ = i.conns.count ConnSlot.provisional + _ :=
    hswap.count Flags.provisional
  have hh : i'.held + _ = i.held + _ := hswap.count fun f => f.counted && !f.evicting
  have he : i'.conns.count ConnSlot.evicting + _ = i.conns.count ConnSlot.evicting + _ := hswap.count Flags.evicting
  have hce := h.counted_eq
  have hpe := h.provisional_eq
  refine ⟨fun s' c hc' => ?_, ?_, ?_, fun hne => ?_, ?_, ?_, hrep⟩
  · by_cases hs : s' = s
    · rw [hs] at hc'
      refine hok _ (hswap.after.symm.trans ?_)
      rw [hc', Option.map_some]
    · exact h.flags s' c (hswap.others s' hs ▸ hc')
  · omega
  · omega
  · rw [hmax] at hne ⊢
    have := hheld hne
    omega
  · rw [hmax]
    omega
  · rw [hmax]
    omega

/-! ### What an action does to one connection -/

/-- Whether there is a connection at an id, whether it is a server's, and whether it is
counted. -/
def Inner.kindAt (i : Inner) (s : SlotId) : Option (Bool × Bool) :=
  ((i.conns.get s).map ConnSlot.flags).map fun f => (f.server, f.counted)

/-- **What an action does to the connections and the events.** -/
inductive Change (i i' : Inner) : Prop
  | quiet (kind : ∀ s, i'.kindAt s = i.kindAt s) (events : i'.events = i.events)
  | issued (s : SlotId) (fresh : i.kindAt s = none) (kind : ∀ s' ≠ s, i'.kindAt s' = i.kindAt s')
      (events : i'.events = i.events)
  | admitted (s : SlotId) (conn : ConnId) (proto : ConnProto) (slot : conn.slot = s)
      (before : i.kindAt s = some (true, false)) (after : i'.kindAt s = some (true, true))
      (kind : ∀ s' ≠ s, i'.kindAt s' = i.kindAt s') (events : i'.events = i.events ++ [.newConn conn proto])
  | released (s : SlotId) (conn : ConnId) (k : Bool × Bool) (evs : List Event) (slot : conn.slot = s)
      (before : i.kindAt s = some k) (after : i'.kindAt s = none) (kind : ∀ s' ≠ s, i'.kindAt s' = i.kindAt s')
      (events : i'.events = i.events ++ evs) (about : evs = [] ∨ ∃ reason, evs = [.connClosed conn reason])
      (closed : k.1 = true → (evs = [] ↔ k.2 = false))

theorem change_of_alike (h : Alike i.conns i'.conns) (hevents : i'.events = i.events) : Change i i' :=
  .quiet (fun s => congrArg _ (h.get s)) hevents

/-- A change after one that is not seen. -/
theorem Change.after {i₁ : Inner} (h : Change i₁ i') (hkind : ∀ s, i₁.kindAt s = i.kindAt s)
    (hevents : i₁.events = i.events) : Change i i' := by
  cases h with
  | quiet kind events => exact .quiet (fun s => (kind s).trans (hkind s)) (events.trans hevents)
  | issued s fresh kind events =>
    exact .issued s ((hkind s).symm.trans fresh) (fun s' hs' => (kind s' hs').trans (hkind s')) (events.trans hevents)
  | admitted s conn proto slot before after kind events =>
    exact .admitted s conn proto slot ((hkind s).symm.trans before) after
      (fun s' hs' => (kind s' hs').trans (hkind s')) (hevents ▸ events)
  | released s conn k evs slot before after kind events about closed =>
    exact .released s conn k evs slot ((hkind s).symm.trans before) after
      (fun s' hs' => (kind s' hs').trans (hkind s')) (hevents ▸ events) about closed

theorem Swap.kindAt_others {o o' : Option Flags} (h : Swap i.conns i'.conns s o o') :
    ∀ s' ≠ s, i'.kindAt s' = i.kindAt s' := by
  intro s' hs'
  rw [Inner.kindAt, h.others s' hs', Inner.kindAt]

/-- The kind of a connection by its flags. -/
theorem kindAt_of_flags {o : Option Flags} (h : (i.conns.get s).map ConnSlot.flags = o) :
    i.kindAt s = o.map fun f => (f.server, f.counted) := congrArg _ h

/-- A live slot has a connection id. -/
theorem exists_conn {c : ConnSlot} (h : i.conns.get s = some c) :
    ∃ conn, ConnId.fromSlot s = some conn ∧ conn.slot = s := by
  have hne := Slots.generation_ne_of_get h
  exact ⟨⟨s.index, s.generation, hne⟩, dif_pos hne, rfl⟩

/-! ### The cap -/

/-- There is room for one more connection. -/
def Room (i : Inner) : Prop := i.maxConns ≠ 0 → i.held < i.maxConns

theorem backlogCap_le (maxConns : ℕ) : backlogCap maxConns ≤ max 64 (4 * maxConns) := by
  rw [backlogCap, BACKLOG_MIN, Nat.mul_comm]
  omega

/-- The check of the cap does not fail, and leaves room when it allows a connection: as it is, or
by the eviction of a victim. -/
theorem Accounts.capCheck (h : Accounts i) :
    ∃ r, i.capCheck = some r ∧ (r = .ok none → Room i) ∧
      ∀ v, r = .ok (some v) → (∃ c, i.conns.get v = some c ∧ c.counted = true ∧ c.evicting = false) ∧
        i.conns.count ConnSlot.evicting < backlogCap i.maxConns := by
  have hsplit := h.held_add_evicting
  rw [Inner.capCheck]
  split
  · next hroom =>
    refine ⟨_, rfl, fun _ hne => ?_, fun v hv => by cases hv⟩
    have := hroom.resolve_left hne
    omega
  · next hfull =>
    simp only [Slots.length_filter_iterLive]
    rw [checkedSub_of_le (by omega), Option.map_some]
    refine ⟨_, rfl, fun hr hne => ?_, fun v hr => ?_⟩
    · split at hr
      · omega
      · split at hr
        · cases hr
        · split at hr <;> cases hr
    · split at hr
      · cases hr
      · split at hr
        · cases hr
        · next hbacklog =>
          split at hr
          · cases hr
          · next v' hv' =>
            cases hr
            obtain ⟨c, hc, hcounted, -, hevicting⟩ := get_victim hv'
            exact ⟨⟨c, hc, hcounted, hevicting⟩, Nat.lt_of_not_le hbacklog⟩

/-- **A victim makes room**: it no longer holds the cap. -/
theorem Accounts.evictVictim (h : Accounts i) {v : Option SlotId} (hcheck : i.capCheck = some (.ok v)) :
    ∃ i₁, i.evictVictim v = some i₁ ∧ Accounts i₁ ∧ Room i₁ ∧ i₁.events = i.events ∧ i₁.maxConns = i.maxConns ∧
      (∀ s, i₁.kindAt s = i.kindAt s) ∧ ∀ s c, i.conns.get s = some c → c.counted = false → i₁.conns.get s = some c := by
  obtain ⟨r, hr, hnone, hsome⟩ := h.capCheck
  rw [hcheck, Option.some.injEq] at hr
  cases v with
  | none => exact ⟨i, rfl, h, hnone hr.symm, rfl, rfl, fun _ => rfl, fun _ _ hc _ => hc⟩
  | some v =>
    obtain ⟨⟨c, hget, hcounted, hevicting⟩, hbacklog⟩ := hsome v hr.symm
    let i₁ : Inner := { i with conns := i.conns.modify v Inner.evict }
    have hswap : Swap i.conns i₁.conns v (some c.flags) (some (Inner.evict c).flags) := swap_modify hget Inner.evict
    have hflags := h.flags v c hget
    have hheld : i₁.held + 1 = i.held := by
      simpa [Inner.held, ConnSlot.flags, Inner.evict, hcounted, hevicting] using
        hswap.count fun f => f.counted && !f.evicting
    refine ⟨i₁, by rw [Inner.evictVictim, hget, Option.map_some], ?_, fun hne => ?_, rfl, rfl, fun s' => ?_,
      fun s' c' hc' hnot => ?_⟩
    · refine h.swap hswap (fun f hf => ?_) rfl rfl rfl (fun hne => ?_) ?_ ?_ h.represents
      · cases hf
        exact ⟨hflags.counted, hflags.provisional, fun _ => hcounted⟩
      · exact Nat.add_le_add (h.held_le hne) (by simp [ConnSlot.flags, Inner.evict])
      · simpa [ConnSlot.flags, Inner.evict, hevicting] using Nat.succ_le_of_lt hbacklog
      · exact Nat.add_le_add_right h.provisional_le _
    · have := h.held_le hne
      show i₁.held < i.maxConns
      omega
    · by_cases hs : s' = v
      · rw [hs, kindAt_of_flags hswap.before, kindAt_of_flags hswap.after]
        rfl
      · exact hswap.kindAt_others s' hs
    · refine (hswap.others s' ?_).trans hc'
      rintro rfl
      rw [hget, Option.some.injEq] at hc'
      rw [← hc', hcounted] at hnot
      cases hnot

/-- **The outcome of an action**: it does not fail, and the accounts stay right. -/
def Settles (i : Inner) (r : Option Inner) : Prop :=
  ∃ i', r = some i' ∧ Accounts i' ∧ Change i i' ∧ i'.maxConns = i.maxConns

theorem decrementIf_of_pos {b : Bool} {n : ℕ} (h : b = true → 0 < n) :
    ∃ n', decrementIf b n = some n' ∧ n' + (if b then 1 else 0) = n := by
  cases b with
  | false => exact ⟨n, rfl, rfl⟩
  | true =>
    have hn : 1 ≤ n := h rfl
    exact ⟨n - 1, checkedSub_of_le hn, Nat.sub_add_cancel hn⟩

variable (h : Accounts i)
include h

theorem Accounts.provisional_pos {c : ConnSlot} (hget : i.conns.get s = some c) :
    c.provisional = true → 0 < i.nProvisional := by
  rw [h.provisional_eq]
  exact Slots.count_pos hget

theorem Accounts.counted_pos {c : ConnSlot} (hget : i.conns.get s = some c) :
    c.counted = true → 0 < i.nCounted := by
  rw [h.counted_eq]
  exact Slots.count_pos hget

/-- An accepted connection that is not counted is admitted when there is room. -/
theorem Accounts.admitSlot (hroom : Room i) {c : ConnSlot} (hget : i.conns.get s = some c)
    (hserver : c.server = true) (hcounted : c.counted = false) (proto : ConnProto) : Settles i (i.admitSlot s proto) := by
  obtain ⟨conn, hconn, hslot⟩ := exists_conn hget
  obtain ⟨nProvisional, hdec, hsum⟩ := decrementIf_of_pos (h.provisional_pos hget)
  have hflags := h.flags s c hget
  have hevicting : c.evicting = false := by
    rw [← Bool.not_eq_true]
    intro hev
    rw [show c.counted = true from hflags.evicting hev] at hcounted
    cases hcounted
  simp only [Inner.admitSlot, hget, hdec, hconn, Option.bind_eq_bind, Option.bind_some]
  have hswap := swap_modify hget fun c =>
    { c with admitted := i.nAdmitted + 1, provisional := false, provisionalDeadline := none, counted := true, proto }
  refine ⟨_, rfl, ?_, ?_, rfl⟩
  · refine h.swap hswap (fun f hf => ?_) rfl ?_ ?_ (fun hne => ?_) ?_ ?_ h.represents
    · cases hf
      exact ⟨fun _ => ⟨hserver, rfl⟩, fun h => (Bool.false_ne_true h).elim, fun _ => rfl⟩
    · simp [ConnSlot.flags, hcounted]
    · simpa [ConnSlot.flags] using hsum
    · simpa [ConnSlot.flags, hcounted, hevicting] using Nat.succ_le_of_lt (hroom hne)
    · exact Nat.add_le_add_right h.evicting_le _
    · exact Nat.add_le_add h.provisional_le (by simp [ConnSlot.flags])
  · refine .admitted s conn proto hslot ?_ ?_ hswap.kindAt_others rfl
    · rw [kindAt_of_flags hswap.before]
      simp [ConnSlot.flags, hserver, hcounted]
    · simp only [Inner.kindAt, hswap.after]
      simp [ConnSlot.flags, hserver]

/-! ### The callbacks -/

theorem Accounts.onServerAccept (xqc cid now : ℕ) :
    ∃ r i', i.onServerAccept xqc cid now = some (r, i') ∧ Accounts i' ∧ Change i i' ∧ i'.maxConns = i.maxConns ∧
      ∀ s, r = some s → i'.kindAt s = some (true, false) := by
  obtain ⟨check, hcheck, -, -⟩ := h.capCheck
  have hstay : Change i i := change_of_alike (.refl _) rfl
  simp only [Inner.onServerAccept, hcheck, Option.map_some]
  cases check with
  | error u => exact ⟨none, i, rfl, h, hstay, rfl, fun s hs => by cases hs⟩
  | ok v =>
    simp only
    split
    · exact ⟨none, i, rfl, h, hstay, rfl, fun s hs => by cases hs⟩
    · next hroom =>
      have hswap := swap_insert i.conns { ConnSlot.new true xqc cid with
        provisional := true, provisionalDeadline := some (now + PROVISIONAL_TIMEOUT) }
      refine ⟨_, _, rfl, ?_, ?_, rfl, ?_⟩
      · refine h.swap hswap (fun f hf => ?_) rfl rfl rfl (fun hne => ?_) ?_ ?_ h.represents
        · cases hf
          exact ⟨fun h => (Bool.false_ne_true h).elim, fun _ => rfl, fun h => (Bool.false_ne_true h).elim⟩
        · exact h.held_le hne
        · exact h.evicting_le
        · rw [Nat.not_le, h.provisional_eq] at hroom
          simpa [ConnSlot.flags] using Nat.succ_le_of_lt hroom
      · refine .issued _ ?_ hswap.kindAt_others rfl
        rw [kindAt_of_flags hswap.before]
        rfl
      · rintro s hs
        cases hs
        simp only [Inner.kindAt, hswap.after]
        rfl

/-- An action that the accounts do not see. -/
theorem Accounts.settles_alike (halike : Alike i.conns i'.conns) (hmax : i'.maxConns = i.maxConns)
    (hcounted : i'.nCounted = i.nCounted) (hprovisional : i'.nProvisional = i.nProvisional)
    (hevents : i'.events = i.events) (hrep : ∃ m, i'.txq.Represents m) : Settles i (some i') :=
  ⟨i', rfl, h.of_alike halike hmax hcounted hprovisional hrep, change_of_alike halike hevents, hmax⟩

theorem Accounts.settles_self : Settles i (some i) :=
  h.settles_alike (.refl _) rfl rfl rfl rfl h.represents

/-- **A connection is released**, and the counters with it. -/
theorem Accounts.release {c : ConnSlot} {conn : ConnId} (evs : List Event)
    (hswap : Swap i.conns i'.conns s (some c.flags) none) (hslot : conn.slot = s) (hmax : i'.maxConns = i.maxConns)
    (hcounted : i'.nCounted + (if c.counted then 1 else 0) = i.nCounted)
    (hprovisional : i'.nProvisional + (if c.provisional then 1 else 0) = i.nProvisional)
    (hevents : i'.events = i.events ++ evs) (habout : evs = [] ∨ ∃ reason, evs = [.connClosed conn reason])
    (hclosed : c.server = true → (evs = [] ↔ c.counted = false)) (hrep : ∃ m, i'.txq.Represents m) :
    Settles i (some i') := by
  have hle := h.provisional_le
  have hev := h.evicting_le
  refine ⟨i', rfl, ?_, ?_, hmax⟩
  · refine h.swap hswap (fun f hf => by cases hf) hmax ?_ ?_ (fun hne => ?_) ?_ ?_ hrep
    · simpa [ConnSlot.flags] using hcounted
    · simpa [ConnSlot.flags] using hprovisional
    · have := h.held_le hne
      rw [indicator_none]
      omega
    · rw [indicator_none]
      omega
    · rw [indicator_none]
      omega
  · exact .released s conn (c.server, c.counted) evs hslot (kindAt_of_flags hswap.before) (kindAt_of_flags hswap.after)
      hswap.kindAt_others hevents habout hclosed

theorem Accounts.onServerRefuse (s : SlotId) : Settles i (i.onServerRefuse s) := by
  rw [Inner.onServerRefuse]
  cases hget : i.conns.get s with
  | none =>
    rw [Slots.remove_of_absent hget]
    exact h.settles_self
  | some c =>
    obtain ⟨conns, hremove, -⟩ := Slots.remove_cases hget
    obtain ⟨conn, hconn, hslot⟩ := exists_conn hget
    obtain ⟨m, hrep⟩ := h.represents
    obtain ⟨t, hdrop, hrep', -⟩ := hrep.dropConn conn
    obtain ⟨nP, hnP, hsumP⟩ := decrementIf_of_pos (h.provisional_pos hget)
    obtain ⟨nC, hnC, hsumC⟩ := decrementIf_of_pos (h.counted_pos hget)
    simp only [hremove, hconn, hdrop, hnP, hnC, Option.bind_eq_bind, Option.bind_some]
    refine h.release _ (swap_remove hremove) hslot rfl hsumC hsumP rfl ?_ (fun _ => ?_) ⟨_, hrep'.resumptionPass _⟩
    · split
      · exact .inr ⟨_, rfl⟩
      · exact .inl rfl
    · cases c.counted <;> simp

theorem Accounts.onConnClose (s : SlotId) (reason : CloseReason) (hproper : Proper i (.close s reason)) :
    Settles i (i.onConnClose s reason) := by
  rw [Inner.onConnClose]
  cases hget : i.conns.get s with
  | none =>
    rw [Slots.remove_of_absent hget]
    exact h.settles_self
  | some c =>
    obtain ⟨conns, hremove, -⟩ := Slots.remove_cases hget
    obtain ⟨conn, hconn, hslot⟩ := exists_conn hget
    obtain ⟨m, hrep⟩ := h.represents
    obtain ⟨t, hdrop, hrep', -⟩ := hrep.dropConn conn
    obtain ⟨nC, hnC, hsumC⟩ := decrementIf_of_pos (h.counted_pos hget)
    have hflags := h.flags s c hget
    have hcounted : c.server = true → c.counted = true := hproper c hget
    -- only a provisional connection would have to leave the other counter
    have hprovisional : c.provisional = false := by
      rw [← Bool.not_eq_true]
      intro hp
      have hnot := (hflags.counted (hcounted (hflags.provisional hp))).2
      rw [show c.flags.provisional = true from hp] at hnot
      cases hnot
    simp only [hremove, hconn, hdrop, hnC, Option.bind_eq_bind, Option.bind_some]
    refine h.release _ (swap_remove hremove) hslot rfl hsumC ?_ rfl (.inr ⟨_, rfl⟩) (fun hserver => ?_)
      ⟨_, hrep'.resumptionPass _⟩
    · simp [hprovisional]
    · simp [hcounted hserver]

theorem Accounts.onConnCreate (xqc : ℕ) (cid : Option ℕ) (s : SlotId) (proto : ConnProto)
    (hproper : Proper i (.create xqc cid s proto)) : Settles i ((i.onConnCreate xqc cid s proto).map Prod.snd) := by
  rw [Inner.onConnCreate]
  cases hget : i.conns.get s with
  | none => exact h.settles_self
  | some c =>
    simp only
    cases hserver : c.server with
    | false =>
      exact h.settles_alike (alike_modify i.conns s fun _ => rfl) rfl rfl rfl rfl h.represents
    | true =>
      have hcounted := hproper c hget hserver
      obtain ⟨check, hcheck, -⟩ := h.capCheck
      simp only [if_true, hcheck]
      cases check with
      | error u => exact h.settles_self
      | ok v =>
        obtain ⟨i₁, hevict, h₁, hroom, hevents, hmax, hkind, hkeep⟩ := h.evictVictim hcheck
        obtain ⟨i', hadmit, h', hchange, hmax'⟩ := h₁.admitSlot hroom (hkeep s c hget hcounted) hserver hcounted proto
        exact ⟨i', by simp only [hevict, Option.bind_some, hadmit, Option.map_some], h', hchange.after hkind hevents,
          hmax'.trans hmax⟩

theorem Accounts.connectFailed (s : SlotId) (hproper : Proper i (.connectFailed s)) :
    Settles i (some (i.connectFailed s)) := by
  rw [Inner.connectFailed]
  cases hget : i.conns.get s with
  | none =>
    rw [Slots.remove_of_absent hget]
    exact h.settles_self
  | some c =>
    obtain ⟨conns, hremove, -⟩ := Slots.remove_cases hget
    obtain ⟨conn, -, hslot⟩ := exists_conn hget
    have hflags := h.flags s c hget
    have hserver : c.server = false := hproper c hget
    have hclient : ∀ b : Bool, (b = true → c.server = true) → b = false := by
      intro b hb
      rw [← Bool.not_eq_true]
      intro ht
      rw [hb ht] at hserver
      cases hserver
    have hcounted : c.counted = false := hclient _ fun hc => (hflags.counted hc).1
    have hprovisional : c.provisional = false := hclient _ hflags.provisional
    rw [hremove]
    refine h.release [] (swap_remove hremove) hslot rfl (by simp [hcounted]) (by simp [hprovisional]) ?_
      (.inl rfl) (fun hs => ?_) h.represents
    · rw [List.append_nil]
    · rw [hserver] at hs
      cases hs

omit h

/-- Writes do not fail. -/
theorem TxQueues.Represents.onWrite {m : TxKey → List Packet} (h : i.txq.Represents m) (grow : ℕ → ℕ → ℕ)
    (ud : SlotId) (path : PathId) (strict : Bool) (dst : Option SocketAddr) (pkt : List UInt8) :
    ∃ t, (i.onWrite grow ud path strict dst pkt).map Prod.snd = some { i with txq := t } := by
  cases dst with
  | none => exact ⟨i.txq, rfl⟩
  | some dst =>
    simp only [Inner.onWrite]
    split
    · next hlive =>
      rw [Bool.and_eq_true, Slots.isLive] at hlive
      obtain ⟨c, hget⟩ := Option.isSome_iff_exists.mp hlive.2
      obtain ⟨conn, hconn, -⟩ := exists_conn hget
      obtain ⟨t, hpush, -⟩ := h.push grow (some conn, path) ⟨dst, pkt⟩
      simp only [hconn, hpush, Option.bind_eq_bind, Option.bind_some]
      split
      · exact ⟨_, rfl⟩
      · exact ⟨_, rfl⟩
    · obtain ⟨t, hpush, -⟩ := h.push grow (none, 0) ⟨dst, pkt⟩
      exact ⟨t, by simp only [TxQueues.pushOrDrop, hpush, Option.map_some]⟩

/-- Nor does a `done` for packets that are queued. -/
theorem TxQueues.Represents.transmitDone {m : TxKey → List Packet} (h : i.txq.Represents m) {key : TxKey} {n : ℕ}
    (hn : n ≤ i.txq.queued key) : ∃ t, i.transmitDone key n = some { i with txq := t } := by
  have hle : n ≤ (m key).length := by
    rw [TxQueues.queued] at hn
    cases hq : i.txq.queues.lookup key with
    | none =>
      rw [hq, Option.map_none, Option.getD_none] at hn
      omega
    | some q =>
      rwa [hq, Option.map_some, Option.getD_some, (h.holds key q hq).pkts_eq, List.length_map] at hn
  rw [Inner.transmitDone]
  split
  · obtain ⟨t, hdone, -⟩ := h.done hle
    exact ⟨_, by rw [hdone, Option.map_some]⟩
  · exact ⟨i.txq, rfl⟩

/-- **Every action that is taken settles**: it does not fail, and the accounts stay right. -/
theorem Accounts.act (h : Accounts i) (grow : ℕ → ℕ → ℕ) {a : Act} (hproper : Proper i a) :
    Settles i (i.act grow a) := by
  obtain ⟨m, hrep⟩ := h.represents
  have htxq : ∀ {t}, i.act grow a = some { i with txq := t } → Settles i (i.act grow a) := by
    intro t hact
    have hrep' := (txStep_of_act hact).represents hrep
    rw [hact]
    exact h.settles_alike (.refl _) rfl rfl rfl rfl hrep'
  cases a with
  | accept xqc cid now =>
    obtain ⟨r, i', haccept, h', hchange, hmax, -⟩ := h.onServerAccept xqc cid now
    exact ⟨i', by rw [Inner.act, haccept, Option.map_some], h', hchange, hmax⟩
  | refuse s => exact h.onServerRefuse s
  | create xqc cid s proto => exact h.onConnCreate xqc cid s proto hproper
  | close s reason => exact h.onConnClose s reason hproper
  | connect =>
    have hswap := swap_insert i.conns (.new false 0 0)
    refine ⟨_, rfl, ?_, .issued _ ?_ hswap.kindAt_others rfl, rfl⟩
    · refine h.swap hswap (fun f hf => ?_) rfl rfl rfl h.held_le h.evicting_le h.provisional_le h.represents
      cases hf
      exact ⟨fun h => (Bool.false_ne_true h).elim, fun h => (Bool.false_ne_true h).elim, fun h => (Bool.false_ne_true h).elim⟩
    · rw [kindAt_of_flags hswap.before]
      rfl
  | connectFailed s => exact h.connectFailed s hproper
  | authed conn => exact h.settles_alike (alike_modify i.conns conn.slot fun _ => rfl) rfl rfl rfl rfl h.represents
  | write ud path strict dst pkt =>
    obtain ⟨t, ht⟩ := hrep.onWrite grow ud path strict dst pkt
    exact htxq ht
  | transmitDone key n =>
    obtain ⟨t, ht⟩ := hrep.transmitDone hproper
    exact htxq ht
  | clearExpired now => exact h.settles_alike (alike_foldl_modify _ i.conns fun _ => rfl) rfl rfl rfl rfl h.represents
  | takeClose s locally => exact h.settles_alike (alike_modify i.conns s fun _ => rfl) rfl rfl rfl rfl h.represents
  | takeResumable => exact htxq rfl

/-! ### The events of a connection -/

/-- The connection that an event is about. -/
def Event.conn : Event → ConnId
  | .newConn conn _ => conn
  | .connClosed conn _ => conn

/-- The events about a connection. -/
def eventsOf (conn : ConnId) (evs : List Event) : List Event := evs.filter fun e => e.conn = conn

/-- **The story of a server connection** in the events about it: it waits, is admitted, is refused
before that, or is released after it. -/
inductive Story (i : Inner) (conn : ConnId) : List Event → Prop
  | waiting (live : i.kindAt conn.slot = some (true, false)) : Story i conn []
  | admitted {proto : ConnProto} (live : i.kindAt conn.slot = some (true, true)) : Story i conn [.newConn conn proto]
  | refused (released : i.kindAt conn.slot = none) : Story i conn []
  | closed {proto : ConnProto} {reason : CloseReason} (released : i.kindAt conn.slot = none) :
      Story i conn [.newConn conn proto, .connClosed conn reason]

/-- The action gives the id to a new connection. -/
def Reissues (grow : ℕ → ℕ → ℕ) (i : Inner) (a : Act) (s : SlotId) : Prop :=
  i.conns.get s = none ∧ ∃ i', i.act grow a = some i' ∧ i'.conns.get s ≠ none

theorem kindAt_eq_none : i.kindAt s = none ↔ i.conns.get s = none := by
  rw [Inner.kindAt, Option.map_eq_none_iff, Option.map_eq_none_iff]

variable {conn : ConnId} {evs : List Event}

/-- The kind of the connection is what the story goes by. -/
theorem Story.congr (h : Story i conn evs) (hkind : i'.kindAt conn.slot = i.kindAt conn.slot) : Story i' conn evs := by
  cases h with
  | waiting live => exact .waiting (hkind.trans live)
  | admitted live => exact .admitted (hkind.trans live)
  | refused released => exact .refused (hkind.trans released)
  | closed released => exact .closed (hkind.trans released)

theorem eventsOf_append (conn : ConnId) (evs evs' : List Event) :
    eventsOf conn (evs ++ evs') = eventsOf conn evs ++ eventsOf conn evs' := List.filter_append ..

theorem eventsOf_own (conn : ConnId) (e : Event) (h : e.conn = conn) : eventsOf conn [e] = [e] := by
  simp [eventsOf, h]

theorem eventsOf_other (e : Event) (h : e.conn ≠ conn) : eventsOf conn [e] = [] := by
  simp [eventsOf, h]

/-- While the connection is there, it waits or was admitted. -/
theorem Story.live (h : Story i conn evs) {k : Bool × Bool} (hkind : i.kindAt conn.slot = some k) :
    k = (true, false) ∧ evs = [] ∨ k = (true, true) ∧ ∃ proto, evs = [.newConn conn proto] := by
  cases h with
  | waiting live => exact .inl ⟨Option.some.inj (hkind.symm.trans live), rfl⟩
  | admitted live => exact .inr ⟨Option.some.inj (hkind.symm.trans live), _, rfl⟩
  | refused released => cases hkind.symm.trans released
  | closed released => cases hkind.symm.trans released

/-- **One action goes on with the story.** -/
theorem Story.step (h : Story i conn (eventsOf conn evs)) (hchange : Change i i')
    (hnew : i.kindAt conn.slot = none → i'.kindAt conn.slot = none) :
    ∃ evs', i'.events = i.events ++ evs' ∧ Story i' conn (eventsOf conn (evs ++ evs')) := by
  cases hchange with
  | quiet kind events => exact ⟨[], by rw [events, List.append_nil], by rw [List.append_nil]; exact h.congr (kind _)⟩
  | issued s fresh kind events =>
    refine ⟨[], by rw [events, List.append_nil], ?_⟩
    rw [List.append_nil]
    by_cases hs : conn.slot = s
    · refine h.congr ?_
      rw [← hs] at fresh
      rw [fresh, hnew fresh]
    · exact h.congr (kind _ hs)
  | admitted s conn' proto slot before after kind events =>
    refine ⟨_, events, ?_⟩
    subst slot
    rw [eventsOf_append]
    by_cases hs : conn' = conn
    · subst hs
      obtain ⟨-, hnil⟩ | ⟨hk, -⟩ := h.live before
      · rw [eventsOf_own conn' (.newConn conn' proto) rfl, hnil]
        exact .admitted after
      · cases hk
    · rw [eventsOf_other (.newConn conn' proto) hs, List.append_nil]
      exact h.congr (kind _ fun hslot => hs (ConnId.slot_injective hslot).symm)
  | released s conn' k evs' slot before after kind events about closed =>
    refine ⟨evs', events, ?_⟩
    subst slot
    rw [eventsOf_append]
    by_cases hs : conn' = conn
    · subst hs
      obtain ⟨rfl, hnil⟩ | ⟨rfl, proto, hproto⟩ := h.live before
      · rw [hnil, (closed rfl).mpr rfl]
        exact .refused after
      · rcases about with hnil | ⟨reason, rfl⟩
        · cases (closed rfl).mp hnil
        · rw [hproto, eventsOf_own conn' (.connClosed conn' reason) rfl]
          exact .closed after
    · have hnone : eventsOf conn evs' = [] := by
        rcases about with rfl | ⟨reason, rfl⟩
        · rfl
        · exact eventsOf_other (.connClosed conn' reason) hs
      rw [hnone, List.append_nil]
      exact h.congr (kind _ fun hslot => hs (ConnId.slot_injective hslot).symm)

/-- The accounts along a run. -/
theorem accounts_of_run {grow : ℕ → ℕ → ℕ} {as : List Act} {n : ℕ} (hrun : Run (Inner.act grow) Proper i as i')
    (h : Accounts i ∧ i.maxConns = n) : Accounts i' ∧ i'.maxConns = n := by
  refine hrun.invariant (I := fun i => Accounts i ∧ i.maxConns = n) ?_ h
  rintro i a i' ⟨h, hn⟩ hproper hact
  obtain ⟨i'', hact', h', -, hmax⟩ := h.act grow hproper
  rw [hact, Option.some.injEq] at hact'
  subst hact'
  exact ⟨h', hmax.trans hn⟩

/-- The story along a run that does not give the id to another connection. -/
theorem story_of_run {grow : ℕ → ℕ → ℕ} {as : List Act}
    (hrun : Run (Inner.act grow) (fun j a => Proper j a ∧ ¬Reissues grow j a conn.slot) i as i') (h : Accounts i)
    (hkind : i.kindAt conn.slot = some (true, false)) :
    ∃ evs, i'.events = i.events ++ evs ∧ Story i' conn (eventsOf conn evs) := by
  refine (hrun.invariant
    (I := fun j => Accounts j ∧ ∃ evs, j.events = i.events ++ evs ∧ Story j conn (eventsOf conn evs)) ?_
    ⟨h, [], by rw [List.append_nil], .waiting hkind⟩).2
  rintro j a j' ⟨hj, evs, hevs, hstory⟩ ⟨hproper, hnot⟩ hact
  obtain ⟨j'', hact', h', hchange, -⟩ := hj.act grow hproper
  rw [hact, Option.some.injEq] at hact'
  subst hact'
  obtain ⟨evs', hevs', hstory'⟩ := hstory.step hchange fun hnone => by
    by_contra hsome
    exact hnot ⟨kindAt_eq_none.mp hnone, j', hact, mt kindAt_eq_none.mpr hsome⟩
  exact ⟨h', evs ++ evs', by rw [hevs', hevs, List.append_assoc], hstory'⟩

/-- **Admission accounts.** In every state that the transport reaches while xquic keeps its side
(`Proper`): the counters are the numbers of live slots that are counted and provisional; no action
fails, so no counter underflows; the connections that hold the cap are no more than `max_conns`,
unless that is `0`; and those being evicted and those provisional are no more than
`max(64, 4 * max_conns)` each. From its accept on, until its id goes to another connection, the
events of a server connection tell its story: none before it is admitted, `NewConn` once it is,
and `ConnClosed` after that exactly when it is released. -/
theorem admission_accounts (grow : ℕ → ℕ → ℕ) {maxConns : ℕ} {as : List Act} {i : Inner}
    (hrun : Run (Inner.act grow) Proper (.new maxConns) as i) :
    i.nCounted = i.conns.count ConnSlot.counted ∧ i.nProvisional = i.conns.count ConnSlot.provisional ∧
      (∀ a, Proper i a → ∃ i', i.act grow a = some i') ∧
      (maxConns ≠ 0 → i.conns.count (fun c => c.counted && !c.evicting) ≤ maxConns) ∧
      i.conns.count ConnSlot.evicting ≤ max 64 (4 * maxConns) ∧
      i.conns.count ConnSlot.provisional ≤ max 64 (4 * maxConns) ∧
      ∀ xqc cid now s i₁, i.onServerAccept xqc cid now = some (some s, i₁) →
        ∀ as' i₂, Run (Inner.act grow) (fun j a => Proper j a ∧ ¬Reissues grow j a s) i₁ as' i₂ →
          ∃ conn evs, conn.slot = s ∧ i₂.events = i₁.events ++ evs ∧ Story i₂ conn (eventsOf conn evs) := by
  obtain ⟨h, rfl⟩ := accounts_of_run hrun ⟨accounts_new maxConns, rfl⟩
  refine ⟨h.counted_eq, h.provisional_eq, fun a ha => ?_, h.held_le, h.evicting_le.trans (backlogCap_le _),
    h.provisional_le.trans (backlogCap_le _), fun xqc cid now s i₁ haccept as' i₂ hrun' => ?_⟩
  · obtain ⟨i', hact, -⟩ := h.act grow ha
    exact ⟨i', hact⟩
  · obtain ⟨r, i', haccept', h', -, -, hkind⟩ := h.onServerAccept xqc cid now
    rw [haccept, Option.some.injEq, Prod.mk.injEq] at haccept'
    obtain ⟨rfl, rfl⟩ := haccept'
    have hkind := hkind s rfl
    obtain ⟨c, hc⟩ : ∃ c, i₁.conns.get s = some c := by
      rw [← Option.ne_none_iff_exists']
      intro hnone
      rw [kindAt_eq_none.mpr hnone] at hkind
      cases hkind
    obtain ⟨conn, -, rfl⟩ := exists_conn hc
    obtain ⟨evs, hevs, hstory⟩ := story_of_run hrun' h' hkind
    exact ⟨conn, evs, rfl, hevs, hstory⟩

/-- At a cap of one connection, a second one is admitted by the eviction of the first: until the
first is closed both are counted, and one of them holds the cap. -/
theorem admission_accounts_evict :
    ∃ i, Run (Inner.act fun _ n => n) Proper (.new 1)
        [.accept 1 1 0, .create 1 none ⟨0, 1⟩ .raw, .accept 2 2 0, .create 2 none ⟨1, 1⟩ .h3] i ∧
      i.nCounted = 2 ∧ i.conns.count (fun c => c.counted && !c.evicting) ≤ 1 := by
  have hrun : ∃ i, Run (Inner.act fun _ n => n) Proper (.new 1)
      [.accept 1 1 0, .create 1 none ⟨0, 1⟩ .raw, .accept 2 2 0, .create 2 none ⟨1, 1⟩ .h3] i ∧
      i.nCounted = 2 := by
    refine ⟨_, .cons trivial rfl (.cons ?_ rfl (.cons trivial rfl (.cons ?_ rfl (.nil _)))), rfl⟩ <;>
      · intro slot hslot _
        cases hslot
        rfl
  obtain ⟨i, hrun, hcounted⟩ := hrun
  exact ⟨i, hrun, hcounted, (admission_accounts (fun _ n => n) hrun).2.2.2.1 one_ne_zero⟩

end MqProxy.Transport
