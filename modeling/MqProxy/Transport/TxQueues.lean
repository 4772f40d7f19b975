import MqProxy.Library.Table
import MqProxy.Transport.Slots
import MqProxy.Transport.TxQueue

/-!
# The transmit queues

`TxQueues` of `mq-transport/src/txq.rs`: a queue for each path of each connection, the
bytes in all of them, the connections whose last packet was refused with the reason, and
the connections that may send again. Hash tables are association lists; their order is
that of the list, and nothing that is proved depends on it.

`Represents` relates the queues to the list of packets at each key. The operations are
specified by what they do to these lists, and `resumptionPass` by which connections it
moves.
-/

namespace MqProxy.Transport

open MqProxy.Library MqProxy.Runtime

/-- `QUEUE_QUOTA`. -/
def QUEUE_QUOTA : ℕ := 1024 * 1024

/-- `QUEUE_LOW`. -/
def QUEUE_LOW : ℕ := 512 * 1024

/-- `TOTAL_HIGH`. -/
def TOTAL_HIGH : ℕ := 4 * 1024 * 1024

/-- `Refusal`. -/
inductive Refusal where
  | quota
  | total
  deriving DecidableEq

/-- `PathId`. -/
abbrev PathId := UInt64

/-- `TxKey`. -/
abbrev TxKey := Option ConnId × PathId

/-- `Blocked`: why a connection is blocked. -/
structure Blocked where
  quotaKeys : List TxKey
  total : Bool
  deriving DecidableEq

/-- `Blocked::default`. -/
def Blocked.default : Blocked := ⟨[], false⟩

/-- One more reason. -/
def Blocked.add (b : Blocked) (key : TxKey) : Refusal → Blocked
  | .quota => if key ∈ b.quotaKeys then b else { b with quotaKeys := b.quotaKeys ++ [key] }
  | .total => { b with total := true }

/-- `TxQueues`. -/
structure TxQueues where
  queues : AList fun _ : TxKey => Queue
  total : ℕ
  blocked : AList fun _ : ConnId => Blocked
  resumable : List ConnId

namespace TxQueues

/-- `TxQueues::default`. -/
def default : TxQueues := ⟨∅, 0, ∅, []⟩

/-- `queues.entry(key).or_insert_with(Queue::new)`: the queue and the table with it. -/
def entry (t : TxQueues) (key : TxKey) : Queue × TxQueues :=
  match t.queues.lookup key with
  | some q => (q, t)
  | none => (Queue.new, { t with queues := t.queues.insert key Queue.new })

/-- `TxQueues::push`. -/
def push (grow : ℕ → ℕ → ℕ) (t : TxQueues) (key : TxKey) (dst : SocketAddr) (pkt : List UInt8) :
    Option (Except Refusal Unit × TxQueues) :=
  let (q, t) := t.entry key
  if QUEUE_QUOTA < q.bytes + pkt.length then some (.error .quota, t)
  else if TOTAL_HIGH < t.total + pkt.length then some (.error .total, t)
  else (q.append grow dst pkt).map fun q =>
    (.ok (), { t with queues := t.queues.insert key q, total := t.total + pkt.length })

/-- `TxQueues::push_or_drop`. -/
def pushOrDrop (grow : ℕ → ℕ → ℕ) (t : TxQueues) (key : TxKey) (dst : SocketAddr) (pkt : List UInt8) :
    Option TxQueues := (t.push grow key dst pkt).map Prod.snd

/-- `TxQueues::record_blocked`. -/
def recordBlocked (t : TxQueues) (conn : ConnId) (key : TxKey) (why : Refusal) : TxQueues :=
  { t with blocked := t.blocked.insert conn (((t.blocked.lookup conn).getD .default).add key why) }

/-- `TxQueues::keys`: what it adds to `out`. -/
def keys (t : TxQueues) : List TxKey :=
  (t.queues.entries.filter fun e => 0 < e.2.bytes).map Sigma.fst

/-- `TxQueues::peek`. -/
def peek (t : TxQueues) (key : TxKey) : Option (Option Transmit) :=
  match t.queues.lookup key with
  | none => some none
  | some q => q.peek

/-- A blocked connection may send again: the queue of `key` that it waits on is low, or
it waits on the total and that is below the limit. -/
def ready (t : TxQueues) (key : Option TxKey) (b : Blocked) : Bool :=
  let quotaOk := key.any fun k => k ∈ b.quotaKeys ∧ (t.queues.lookup k).all fun q => q.bytes < QUEUE_LOW
  let totalOk := b.total ∧ t.total < TOTAL_HIGH
  quotaOk || totalOk

/-- One connection is moved to `resumable`. -/
def resume (t : TxQueues) (c : ConnId) : TxQueues :=
  { t with
    blocked := t.blocked.erase c
    resumable := if c ∈ t.resumable then t.resumable else t.resumable ++ [c] }

/-- `TxQueues::resumption_pass`. -/
def resumptionPass (t : TxQueues) (key : Option TxKey) : TxQueues :=
  ((t.blocked.entries.filter fun e => t.ready key e.2).map Sigma.fst).foldl resume t

/-- `TxQueues::done`. -/
def done (t : TxQueues) (key : TxKey) (datagrams : ℕ) : Option TxQueues :=
  match t.queues.lookup key with
  | none => some (t.resumptionPass (some key))
  | some q => do
    let (q, freed) ← q.done datagrams
    let total ← checkedSub t.total freed
    return { t with queues := t.queues.insert key q, total }.resumptionPass (some key)

/-- One queue of a dropped connection is removed. -/
def removeQueue (t : TxQueues) (key : TxKey) : Option TxQueues := do
  let q ← t.queues.lookup key
  let total ← checkedSub t.total q.bytes
  return { t with queues := t.queues.erase key, total }

/-- `TxQueues::drop_conn`. -/
def dropConn (t : TxQueues) (conn : ConnId) : Option TxQueues := do
  let t ← (t.queues.keys.filter fun k => k.1 = some conn).foldlM removeQueue t
  return { t with blocked := t.blocked.erase conn, resumable := t.resumable.filter (· ≠ conn) }.resumptionPass none

/-- `TxQueues::take_resumable`. -/
def takeResumable (t : TxQueues) : List ConnId × TxQueues := (t.resumable, { t with resumable := [] })

/-! ### The lists that the queues stand for -/

/-- **The queues stand for the list `m key` of packets at each key**, within the limits. -/
structure Represents (t : TxQueues) (m : TxKey → List Packet) : Prop where
  /-- A queue holds the packets of its key. -/
  holds : ∀ key q, t.queues.lookup key = some q → q.Holds (m key)
  /-- A key without a queue has no packets. -/
  absent : ∀ key, t.queues.lookup key = none → m key = []
  /-- `total` is the sum over the queues. -/
  total_eq : t.total = weigh Queue.bytes t.queues
  size_le : ∀ key, size (m key) ≤ QUEUE_QUOTA
  total_le : t.total ≤ TOTAL_HIGH

variable {t t' : TxQueues} {m : TxKey → List Packet} {key : TxKey}

theorem represents_default : default.Represents fun _ => [] :=
  ⟨fun _ _ h => (nomatch h), fun _ _ => rfl, rfl, fun _ => Nat.zero_le _, Nat.zero_le _⟩

variable (h : t.Represents m)
include h

theorem Represents.weighAt_eq (key : TxKey) : weighAt Queue.bytes t.queues key = size (m key) := by
  cases hq : t.queues.lookup key with
  | none => rw [weighAt_of_absent hq, h.absent key hq, size_nil]
  | some q => rw [weighAt_of_lookup hq, (h.holds key q hq).bytes_eq]

/-- The total in terms of the lists. -/
theorem Represents.total_eq_finsum : t.total = ∑ᶠ key, size (m key) := by
  rw [h.total_eq, weigh_eq_finsum]
  exact finsum_congr h.weighAt_eq

/-- Only the queues and the total count. -/
theorem Represents.of_eq (hq : t'.queues = t.queues) (ht : t'.total = t.total) :
    t'.Represents m :=
  ⟨by rw [hq]; exact h.holds, by rw [hq]; exact h.absent, by rw [hq, ht]; exact h.total_eq, h.size_le,
    by rw [ht]; exact h.total_le⟩

/-- The queue of one key is replaced, and the total follows. -/
theorem Represents.set (key : TxKey) (total : ℕ) {q : Queue} {l : List Packet} (hq : q.Holds l)
    (hsize : size l ≤ QUEUE_QUOTA) (htotal : total + size (m key) = t.total + size l) (hle : total ≤ TOTAL_HIGH) :
    { t with queues := t.queues.insert key q, total }.Represents (Function.update m key l) := by
  refine ⟨fun k q' hk => ?_, fun k hk => ?_, ?_, fun k => ?_, hle⟩
  · by_cases hkey : k = key
    · subst hkey
      rw [AList.lookup_insert, Option.some.injEq] at hk
      rw [Function.update_self, ← hk]
      exact hq
    · rw [AList.lookup_insert_ne hkey] at hk
      rw [Function.update_of_ne hkey]
      exact h.holds k q' hk
  · by_cases hkey : k = key
    · subst hkey
      rw [AList.lookup_insert] at hk
      cases hk
    · rw [AList.lookup_insert_ne hkey] at hk
      rw [Function.update_of_ne hkey]
      exact h.absent k hk
  · have hweigh := weigh_insert (w := Queue.bytes) (t := t.queues) (k := key) q
    rw [h.weighAt_eq, ← h.total_eq, hq.bytes_eq, ← htotal] at hweigh
    exact (Nat.add_right_cancel hweigh).symm
  · by_cases hkey : k = key
    · rw [hkey, Function.update_self]
      exact hsize
    · rw [Function.update_of_ne hkey]
      exact h.size_le k

omit h

/-! ### Push -/

/-- Whether a packet of `len` bytes is taken by a queue of `used` bytes. -/
def verdict (used total len : ℕ) : Except Refusal Unit :=
  if QUEUE_QUOTA < used + len then .error .quota else if TOTAL_HIGH < total + len then .error .total else .ok ()

/-- The lists after a push. -/
def afterPush (m : TxKey → List Packet) (key : TxKey) (p : Packet) : Except Refusal Unit → TxKey → List Packet
  | .ok () => Function.update m key (m key ++ [p])
  | .error _ => m

theorem Represents.entry (h : t.Represents m) (key : TxKey) :
    (t.entry key).1.Holds (m key) ∧ (t.entry key).2.Represents m ∧ (t.entry key).2.total = t.total ∧
      (t.entry key).2.blocked = t.blocked ∧ (t.entry key).2.resumable = t.resumable := by
  rw [TxQueues.entry]
  cases hq : t.queues.lookup key with
  | some q => exact ⟨h.holds key q hq, h, rfl, rfl, rfl⟩
  | none =>
    have hm := h.absent key hq
    refine ⟨hm ▸ Queue.holds_new, ?_, rfl, rfl, rfl⟩
    -- the new queue is empty
    have hset := h.set key t.total Queue.holds_new (Nat.zero_le _) (by rw [hm]) h.total_le
    rwa [← hm, Function.update_eq_self] at hset

/-- **`push` takes a packet or refuses it**; a refused one changes no list. -/
theorem Represents.push (h : t.Represents m) (grow : ℕ → ℕ → ℕ) (key : TxKey) (p : Packet) :
    ∃ t', t.push grow key p.dst p.bytes = some (verdict (size (m key)) t.total p.bytes.length, t') ∧
      t'.Represents (afterPush m key p (verdict (size (m key)) t.total p.bytes.length)) ∧
        t'.blocked = t.blocked ∧ t'.resumable = t.resumable ∧ t.total ≤ t'.total := by
  obtain ⟨hholds, hrep, htotal, hblocked, hresumable⟩ := h.entry key
  simp only [TxQueues.push, verdict, hholds.bytes_eq, htotal]
  split
  · exact ⟨_, rfl, hrep, hblocked, hresumable, htotal.ge⟩
  · next hquota =>
    split
    · exact ⟨_, rfl, hrep, hblocked, hresumable, htotal.ge⟩
    · next hhigh =>
      obtain ⟨q, hq, hq'⟩ := hholds.append grow p
      rw [hq, Option.map_some]
      refine ⟨_, rfl, ?_, hblocked, hresumable, Nat.le_add_right _ _⟩
      refine hrep.set key _ hq' ?_ ?_ (Nat.not_lt.mp hhigh)
      · rw [size_append, size_cons, size_nil]
        exact Nat.not_lt.mp hquota
      · rw [htotal, size_append, size_cons, size_nil]
        omega

/-! ### The resumption pass -/

/-- Moving connections to `resumable` touches no queue, and each of them is moved. -/
theorem foldl_resume (cs : List ConnId) (t : TxQueues) :
    (cs.foldl resume t).queues = t.queues ∧ (cs.foldl resume t).total = t.total ∧
      (∀ c, (cs.foldl resume t).blocked.lookup c = if c ∈ cs then none else t.blocked.lookup c) ∧
      (∀ c, c ∈ (cs.foldl resume t).resumable ↔ c ∈ t.resumable ∨ c ∈ cs) ∧
      (t.resumable.Nodup → (cs.foldl resume t).resumable.Nodup) := by
  induction cs generalizing t with
  | nil => simp
  | cons c cs ih =>
    obtain ⟨hq, htotal, hblocked, hmem, hnodup⟩ := ih (t.resume c)
    refine ⟨hq, htotal, fun c' => ?_, fun c' => ?_, fun hn => hnodup ?_⟩
    · rw [List.foldl_cons, hblocked]
      by_cases hc : c' = c
      · subst hc
        simp [resume]
      · simp [resume, hc, AList.lookup_erase_ne hc]
    · rw [List.foldl_cons, hmem, List.mem_cons, resume]
      by_cases hc : c ∈ t.resumable
      · rw [if_pos hc]
        constructor
        · rintro (h | h)
          · exact .inl h
          · exact .inr (.inr h)
        · rintro (h | rfl | h)
          · exact .inl h
          · exact .inl hc
          · exact .inr h
      · rw [if_neg hc, List.mem_append, List.mem_singleton, or_assoc]
    · rw [resume]
      split
      · exact hn
      · next hc => exact List.nodup_append'.mpr ⟨hn, List.nodup_singleton c, by simpa using hc⟩

/-- Connection `c` is blocked for a reason that the pass finds gone. -/
def Ready (t : TxQueues) (key : Option TxKey) (c : ConnId) : Prop :=
  ∃ b, t.blocked.lookup c = some b ∧ t.ready key b = true

theorem mem_ready {key : Option TxKey} {c : ConnId} :
    c ∈ (t.blocked.entries.filter fun e => t.ready key e.2).map Sigma.fst ↔ t.Ready key c := by
  simp only [List.mem_map, List.mem_filter, Ready]
  constructor
  · rintro ⟨⟨c, b⟩, ⟨he, hb⟩, rfl⟩
    exact ⟨b, AList.mem_lookup_iff.mpr he, hb⟩
  · rintro ⟨b, hb, hready⟩
    exact ⟨⟨c, b⟩, ⟨AList.mem_lookup_iff.mp hb, hready⟩, rfl⟩

@[simp] theorem resumptionPass_queues (t : TxQueues) (key : Option TxKey) :
    (t.resumptionPass key).queues = t.queues := (foldl_resume _ t).1

@[simp] theorem resumptionPass_total (t : TxQueues) (key : Option TxKey) :
    (t.resumptionPass key).total = t.total := (foldl_resume _ t).2.1

/-- What stays blocked was blocked and is not ready. -/
theorem lookup_resumptionPass {key : Option TxKey} {c : ConnId} {b : Blocked} :
    (t.resumptionPass key).blocked.lookup c = some b ↔ t.blocked.lookup c = some b ∧ t.ready key b = false := by
  rw [resumptionPass, (foldl_resume _ t).2.2.1 c]
  by_cases hc : t.Ready key c
  · obtain ⟨b', hb', hready⟩ := hc
    rw [if_pos (mem_ready.mpr ⟨b', hb', hready⟩), hb']
    simp only [reduceCtorEq, Option.some.injEq, false_iff, not_and]
    rintro rfl
    simp [hready]
  · rw [if_neg (mt mem_ready.mp hc)]
    refine ⟨fun hb => ⟨hb, ?_⟩, And.left⟩
    rw [← Bool.not_eq_true]
    exact fun hready => hc ⟨b, hb, hready⟩

theorem mem_resumptionPass {key : Option TxKey} {c : ConnId} :
    c ∈ (t.resumptionPass key).resumable ↔ c ∈ t.resumable ∨ t.Ready key c := by
  rw [resumptionPass, (foldl_resume _ t).2.2.2.1 c, mem_ready]

theorem nodup_resumptionPass (key : Option TxKey) (h : t.resumable.Nodup) :
    (t.resumptionPass key).resumable.Nodup := (foldl_resume _ t).2.2.2.2 h

include h

theorem Represents.resumptionPass (key : Option TxKey) : (t.resumptionPass key).Represents m :=
  h.of_eq (resumptionPass_queues t key) (resumptionPass_total t key)

/-- The pass finds a connection ready by the sizes of the lists. -/
theorem Represents.ready_iff {key : Option TxKey} {b : Blocked} :
    t.ready key b = true ↔
      (∃ k, key = some k ∧ k ∈ b.quotaKeys ∧ size (m k) < QUEUE_LOW) ∨ b.total = true ∧ t.total < TOTAL_HIGH := by
  have hlow : ∀ k, ((t.queues.lookup k).all fun q => decide (q.bytes < QUEUE_LOW)) = true ↔ size (m k) < QUEUE_LOW := by
    intro k
    cases hq : t.queues.lookup k with
    | none =>
      rw [h.absent k hq]
      simp [QUEUE_LOW]
    | some q => simp [(h.holds k q hq).bytes_eq]
  cases key with
  | none => simp [ready]
  | some k => simp [ready, hlow]

/-! ### Done -/

/-- There is nothing to remove at a key without a queue. -/
theorem Represents.drop_absent (hq : t.queues.lookup key = none) (n : ℕ) :
    t.Represents (Function.update m key ((m key).drop n)) := by
  rw [h.absent key hq, List.drop_nil, ← h.absent key hq, Function.update_eq_self]
  exact h

/-- **`done` removes the first packets of its key**, and then looks who may send again. -/
theorem Represents.done {n : ℕ} (hn : n ≤ (m key).length) :
    ∃ t₁ : TxQueues, t.done key n = some (t₁.resumptionPass (some key)) ∧
      t₁.Represents (Function.update m key ((m key).drop n)) ∧
        t₁.blocked = t.blocked ∧ t₁.resumable = t.resumable := by
  rw [TxQueues.done]
  cases hq : t.queues.lookup key with
  | none => exact ⟨t, rfl, h.drop_absent hq n, rfl, rfl⟩
  | some q =>
    obtain ⟨q', hdone, hq'⟩ := (h.holds key q hq).done hn
    have hsize := size_take_add_drop (m key) n
    have hmine : size (m key) ≤ t.total := by
      rw [← h.weighAt_eq, h.total_eq]
      exact weighAt_le_weigh key
    have hsub := checkedSub_of_le (show size ((m key).take n) ≤ t.total by omega)
    simp only [hdone, Option.bind_eq_bind, Option.bind_some, hsub]
    refine ⟨_, rfl, ?_, rfl, rfl⟩
    have hquota := h.size_le key
    have hhigh := h.total_le
    exact h.set key _ hq' (by omega) (by omega) (by omega)

/-- A `done` that does not panic is for packets that are there, or for a key without a
queue. -/
theorem Represents.of_done {n : ℕ} (hdone : t.done key n = some t') :
    ∃ t₁ : TxQueues, t' = t₁.resumptionPass (some key) ∧
      t₁.Represents (Function.update m key ((m key).drop n)) ∧
        t₁.blocked = t.blocked ∧ t₁.resumable = t.resumable := by
  cases hq : t.queues.lookup key with
  | none =>
    simp only [TxQueues.done, hq, Option.some.injEq] at hdone
    exact ⟨t, hdone.symm, h.drop_absent hq n, rfl, rfl⟩
  | some q =>
    have hn : n ≤ (m key).length := by
      simp only [TxQueues.done, hq, Option.bind_eq_bind, Option.bind_eq_some_iff] at hdone
      obtain ⟨_, hd, -⟩ := hdone
      exact (h.holds key q hq).le_of_done hd
    obtain ⟨t₁, ht₁, hrest⟩ := h.done hn
    rw [hdone, Option.some.injEq] at ht₁
    exact ⟨t₁, ht₁, hrest⟩

/-! ### Dropping a connection -/

theorem Represents.removeQueue (hkey : key ∈ t.queues) :
    ∃ t', t.removeQueue key = some t' ∧ t'.Represents (Function.update m key []) ∧
      t'.queues = t.queues.erase key ∧ t'.blocked = t.blocked ∧ t'.resumable = t.resumable := by
  obtain ⟨q, hq⟩ := Option.isSome_iff_exists.mp (AList.lookup_isSome.mpr hkey)
  have hweigh := weigh_erase (w := Queue.bytes) hq
  rw [← h.total_eq] at hweigh
  have hsub := checkedSub_of_le (show q.bytes ≤ t.total by omega)
  simp only [TxQueues.removeQueue, hq, hsub, Option.bind_eq_bind, Option.bind_some]
  refine ⟨_, rfl, ⟨fun k q' hk => ?_, fun k hk => ?_, ?_, fun k => ?_, ?_⟩, rfl, rfl, rfl⟩
  · have hne : k ≠ key := by
      rintro rfl
      rw [AList.lookup_erase] at hk
      cases hk
    rw [AList.lookup_erase_ne hne] at hk
    rw [Function.update_of_ne hne]
    exact h.holds k q' hk
  · by_cases hne : k = key
    · rw [hne, Function.update_self]
    · rw [AList.lookup_erase_ne hne] at hk
      rw [Function.update_of_ne hne]
      exact h.absent k hk
  · show t.total - q.bytes = weigh Queue.bytes (t.queues.erase key)
    omega
  · by_cases hne : k = key
    · rw [hne, Function.update_self]
      exact Nat.zero_le _
    · rw [Function.update_of_ne hne]
      exact h.size_le k
  · exact (Nat.sub_le _ _).trans h.total_le

omit h

theorem Represents.removeQueues {ks : List TxKey} (hks : ks.Nodup) (h : t.Represents m) (hmem : ∀ k ∈ ks, k ∈ t.queues) :
    ∃ t', ks.foldlM TxQueues.removeQueue t = some t' ∧ t'.Represents (fun k => if k ∈ ks then [] else m k) ∧
      t'.blocked = t.blocked ∧ t'.resumable = t.resumable := by
  induction ks generalizing t m with
  | nil => exact ⟨t, rfl, by simpa using h, rfl, rfl⟩
  | cons k ks ih =>
    obtain ⟨hk, hks⟩ := List.nodup_cons.mp hks
    obtain ⟨t₁, hremove, h₁, hq₁, hblocked₁, hresumable₁⟩ := h.removeQueue (hmem k List.mem_cons_self)
    obtain ⟨t₂, hfold, h₂, hblocked₂, hresumable₂⟩ := ih hks h₁ fun k' hk' => by
      rw [hq₁, AList.mem_erase]
      exact ⟨fun hkk => hk (hkk ▸ hk'), hmem k' (List.mem_cons_of_mem _ hk')⟩
    refine ⟨t₂, by rw [List.foldlM_cons, hremove]; exact hfold, ?_, hblocked₂.trans hblocked₁,
      hresumable₂.trans hresumable₁⟩
    convert h₂ using 2 with k'
    by_cases hkk : k' = k
    · subst hkk
      simp
    · simp [hkk]

/-- The lists after the drop of a connection. -/
def afterDrop (m : TxKey → List Packet) (conn : ConnId) : TxKey → List Packet :=
  fun k => if k.1 = some conn then [] else m k

include h

/-- **`drop_conn` removes the packets of a connection** and forgets it, and then looks
who may send again. -/
theorem Represents.dropConn (conn : ConnId) :
    ∃ t₁ : TxQueues, t.dropConn conn = some (t₁.resumptionPass none) ∧ t₁.Represents (afterDrop m conn) ∧
      t₁.blocked = t.blocked.erase conn ∧ t₁.resumable = t.resumable.filter (· ≠ conn) := by
  obtain ⟨t₁, hfold, h₁, hblocked, hresumable⟩ :=
    h.removeQueues (t.queues.keys_nodup.filter fun k => k.1 = some conn) fun k hk => (List.mem_filter.mp hk).1
  simp only [TxQueues.dropConn, hfold, Option.bind_eq_bind, Option.bind_some]
  refine ⟨_, rfl, ?_, by simp only [hblocked], by simp only [hresumable]⟩
  refine Represents.of_eq (t := t₁) ?_ rfl rfl
  convert h₁ using 1
  funext k
  simp only [afterDrop, List.mem_filter, decide_eq_true_eq]
  by_cases hc : k.1 = some conn
  · by_cases hk : k ∈ t.queues.keys
    · rw [if_pos hc, if_pos ⟨hk, hc⟩]
    · rw [if_pos hc, if_neg fun h => hk h.1, h.absent k (AList.lookup_eq_none.mpr hk)]
  · rw [if_neg hc, if_neg fun h => hc h.2]

theorem Represents.of_dropConn {conn : ConnId} (hdrop : t.dropConn conn = some t') :
    ∃ t₁ : TxQueues, t' = t₁.resumptionPass none ∧ t₁.Represents (afterDrop m conn) ∧
      t₁.blocked = t.blocked.erase conn ∧ t₁.resumable = t.resumable.filter (· ≠ conn) := by
  obtain ⟨t₁, ht₁, hrest⟩ := h.dropConn conn
  rw [hdrop, Option.some.injEq] at ht₁
  exact ⟨t₁, ht₁, hrest⟩

/-! ### Peek and keys -/

theorem Represents.peek (key : TxKey) :
    t.peek key = some ((m key).head?.map fun first =>
      ⟨first.dst, first.bytes.length, joined ((m key).take (burst (m key)))⟩) := by
  rw [TxQueues.peek]
  cases hq : t.queues.lookup key with
  | none => rw [h.absent key hq, List.head?_nil, Option.map_none]
  | some q => exact (h.holds key q hq).peek

/-- **`keys` lists the keys that have bytes**, each once. -/
theorem Represents.keys : t.keys.Nodup ∧ ∀ key, key ∈ t.keys ↔ 0 < size (m key) := by
  refine ⟨(List.filter_sublist.map _).nodup t.queues.keys_nodup, fun key => ?_⟩
  simp only [TxQueues.keys, List.mem_map, List.mem_filter, decide_eq_true_eq]
  rw [← h.weighAt_eq]
  constructor
  · rintro ⟨⟨k, q⟩, ⟨he, hb⟩, rfl⟩
    rw [weighAt_of_lookup (AList.mem_lookup_iff.mpr he)]
    exact hb
  · intro hpos
    cases hq : t.queues.lookup key with
    | none =>
      rw [weighAt_of_absent hq] at hpos
      exact absurd hpos (Nat.lt_irrefl 0)
    | some q =>
      rw [weighAt_of_lookup hq] at hpos
      exact ⟨⟨key, q⟩, ⟨AList.mem_lookup_iff.mp hq, hpos⟩, rfl⟩

end TxQueues

end MqProxy.Transport
