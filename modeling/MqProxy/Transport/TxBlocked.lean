import MqProxy.Library.Runs
import MqProxy.Transport.Inner

/-!
# Blocked connections are woken

A connection whose packet is refused is recorded as blocked with the reason, and xquic
sends nothing for it until it is resumed. A connection may hold several reasons and is
resumed when one of them is gone: a queue of its own is low again (`QUEUE_LOW`), or the
total is below its limit (`TOTAL_HIGH`). Only `done` and `drop_conn` look for this, so a
reason must not go away in any other way, nor without the look.

`blocked_is_woken` says that it does not, along every run of the transport's bookkeeping
whose packets are not too long: a recorded reason stays justified, so that there are bytes
whose sending will wake the connection; the call that takes the reason away wakes it; and
a connection that was dropped is not resumed.
-/

namespace MqProxy.Transport

open MqProxy.Library MqProxy.Runtime

/-- The bytes queued at a key. -/
def TxQueues.bytesAt (t : TxQueues) (key : TxKey) : ℕ := weighAt Queue.bytes t.queues key

/-- The packets are short enough that a queue which refuses one is not low. -/
def Short (_ : Inner) : Act → Prop
  | .write _ _ _ _ pkt => pkt.length ≤ QUEUE_QUOTA - QUEUE_LOW
  | _ => True

/-- The action takes away a reason `b` has, and leaves the transmit queues `t`: a queue that
`b` waits on is low, or `b` waits on the total and that is below the limit. -/
def Crosses (i : Inner) (a : Act) (t : TxQueues) (b : Blocked) : Prop :=
  (∃ key n, a = .transmitDone key n ∧ n ≠ 0 ∧
      (key ∈ b.quotaKeys ∧ t.bytesAt key < QUEUE_LOW ∨ b.total = true ∧ t.total < TOTAL_HIGH)) ∨
    (∃ conn, Drops i a conn) ∧ b.total = true ∧ t.total < TOTAL_HIGH

variable {grow : ℕ → ℕ → ℕ} {i i' : Inner} {a : Act}

/-! ### Recorded reasons stay justified -/

/-- **A recorded entry is justified**: it has a reason, each queue that it waits on is one
of the connection's own and not low, and there are bytes in the total that it waits on. -/
structure Justified (t : TxQueues) (c : ConnId) (b : Blocked) : Prop where
  reason : b.quotaKeys ≠ [] ∨ b.total = true
  own : ∀ k ∈ b.quotaKeys, k.1 = some c
  not_low : ∀ k ∈ b.quotaKeys, QUEUE_LOW ≤ t.bytesAt k
  total_pos : b.total = true → 0 < t.total

/-- What holds of the transmit queues along every run. -/
structure Waiting (t : TxQueues) : Prop where
  represents : ∃ m, t.Represents m
  justified : ∀ c b, t.blocked.lookup c = some b → Justified t c b
  nodup : t.resumable.Nodup

theorem waiting_default : Waiting .default :=
  ⟨⟨_, TxQueues.represents_default⟩, fun _ _ h => (nomatch h), .nil⟩

variable {t t' : TxQueues} {m m' : TxKey → List Packet} {c : ConnId} {b : Blocked}

theorem bytesAt_eq (h : t.Represents m) (k : TxKey) : t.bytesAt k = size (m k) := h.weighAt_eq k

@[simp] theorem bytesAt_resumptionPass (t : TxQueues) (key : Option TxKey) (k : TxKey) :
    (t.resumptionPass key).bytesAt k = t.bytesAt k := by
  rw [TxQueues.bytesAt, TxQueues.resumptionPass_queues, TxQueues.bytesAt]

/-- A justified entry has bytes to wait for. -/
theorem Justified.exists_bytes (h : Justified t c b) (hrep : t.Represents m) : ∃ k, 0 < t.bytesAt k := by
  rcases h.reason with hkeys | htotal
  · obtain ⟨k, hk⟩ := List.exists_mem_of_ne_nil _ hkeys
    exact ⟨k, Nat.lt_of_lt_of_le (by decide) (h.not_low k hk)⟩
  · have hpos := h.total_pos htotal
    rw [hrep.total_eq] at hpos
    exact exists_weighAt_pos hpos

/-- More bytes justify as much. -/
theorem Justified.mono (h : Justified t c b) (hbytes : ∀ k, t.bytesAt k ≤ t'.bytesAt k) (htotal : t.total ≤ t'.total) :
    Justified t' c b :=
  ⟨h.reason, h.own, fun k hk => (h.not_low k hk).trans (hbytes k), fun hb => (h.total_pos hb).trans_le htotal⟩

/-- An entry that the resumption pass leaves is justified, when only the queue it looked at
may have become low. -/
theorem Justified.resumptionPass (h : Justified t c b) (hrep : t'.Represents m') {key : Option TxKey}
    (hbytes : ∀ k ∈ b.quotaKeys, key = some k ∨ t.bytesAt k ≤ t'.bytesAt k) (hready : t'.ready key b = false) :
    Justified (t'.resumptionPass key) c b := by
  rw [← Bool.not_eq_true, hrep.ready_iff] at hready
  simp only [not_or, not_exists, not_and, Nat.not_lt] at hready
  refine ⟨h.reason, h.own, fun k hk => ?_, fun hb => ?_⟩
  · rw [bytesAt_resumptionPass]
    rcases hbytes k hk with hkey | hle
    · rw [bytesAt_eq hrep]
      exact hready.1 k hkey hk
    · exact (h.not_low k hk).trans hle
  · rw [TxQueues.resumptionPass_total]
    exact Nat.lt_of_lt_of_le (by decide) (hready.2 hb)

/-- A push only adds bytes. -/
theorem push_mono {key : TxKey} {p : Packet} {r : Except Refusal Unit} (h : t.Represents m)
    (hpush : t.push grow key p.dst p.bytes = some (r, t')) :
    (∃ m', t'.Represents m') ∧ (∀ k, t.bytesAt k ≤ t'.bytesAt k) ∧ t.total ≤ t'.total ∧
      r = TxQueues.verdict (t.bytesAt key) t.total p.bytes.length ∧
        t'.blocked = t.blocked ∧ t'.resumable = t.resumable := by
  obtain ⟨t'', hpush', hrep, hblocked, hresumable, htotal⟩ := h.push grow key p
  rw [hpush, Option.some.injEq, Prod.mk.injEq] at hpush'
  obtain ⟨hr, rfl⟩ := hpush'
  rw [← hr] at hrep
  have hbytes : ∀ k, t.bytesAt k ≤ t'.bytesAt k := by
    intro k
    rw [bytesAt_eq h, bytesAt_eq hrep]
    cases r with
    | error why => exact Nat.le_refl _
    | ok u =>
      by_cases hk : k = key
      · simp [TxQueues.afterPush, hk]
      · simp [TxQueues.afterPush, hk]
  exact ⟨⟨_, hrep⟩, hbytes, htotal, by rw [hr, bytesAt_eq h], hblocked, hresumable⟩

/-- A refused packet leaves enough bytes to justify its record. -/
theorem Justified.add {key : TxKey} {why : Refusal} {len : ℕ} (hb : b = .default ∨ Justified t c b)
    (hkey : key.1 = some c) (hlen : len ≤ QUEUE_QUOTA - QUEUE_LOW)
    (hwhy : .error why = TxQueues.verdict (t.bytesAt key) t.total len) : Justified t c (b.add key why) := by
  have hown : ∀ k ∈ b.quotaKeys, k.1 = some c ∧ QUEUE_LOW ≤ t.bytesAt k := by
    rcases hb with rfl | hb
    · exact fun k hk => (nomatch hk)
    · exact fun k hk => ⟨hb.own k hk, hb.not_low k hk⟩
  have htotal : b.total = true → 0 < t.total := by
    rcases hb with rfl | hb
    · exact fun h => (nomatch h)
    · exact hb.total_pos
  have hconst : QUEUE_QUOTA - QUEUE_LOW < TOTAL_HIGH ∧ QUEUE_LOW ≤ QUEUE_QUOTA := by decide
  rw [TxQueues.verdict] at hwhy
  split at hwhy
  · next hquota =>
    cases hwhy
    have hlow : QUEUE_LOW ≤ t.bytesAt key := by omega
    simp only [Blocked.add]
    split
    · next hmem =>
      exact ⟨.inl (List.ne_nil_of_mem hmem), fun k hk => (hown k hk).1, fun k hk => (hown k hk).2, htotal⟩
    · refine ⟨.inl (by simp), fun k hk => ?_, fun k hk => ?_, htotal⟩
      · rcases List.mem_append.mp hk with hk | hk
        · exact (hown k hk).1
        · rwa [List.mem_singleton.mp hk]
      · rcases List.mem_append.mp hk with hk | hk
        · exact (hown k hk).2
        · rwa [List.mem_singleton.mp hk]
  · split at hwhy
    · next hhigh =>
      cases hwhy
      exact ⟨.inr rfl, fun k hk => (hown k hk).1, fun k hk => (hown k hk).2, fun _ => by omega⟩
    · cases hwhy

/-- **What one action does to a blocked connection.** It stays blocked, with its reasons, and
none of them is taken away; or one is, and it is woken; or it is dropped. -/
inductive Fate (i : Inner) (a : Act) (t : TxQueues) (c : ConnId) (b : Blocked) : Prop
  | stays {b' : Blocked} (lookup : t.blocked.lookup c = some b') (quotaKeys : b.quotaKeys ⊆ b'.quotaKeys)
      (total : b.total = true → b'.total = true) (not_crosses : ¬Crosses i a t b)
  | woken (lookup : t.blocked.lookup c = none) (mem : c ∈ t.resumable) (crosses : Crosses i a t b)
  | dropped (drops : Drops i a c)

/-- What the resumption pass makes of an entry. -/
theorem fate_resumptionPass {key : Option TxKey} (hb : t.blocked.lookup c = some b)
    (hcrosses : Crosses i a (t.resumptionPass key) b ↔ t.ready key b = true) :
    Fate i a (t.resumptionPass key) c b := by
  cases hready : t.ready key b with
  | true =>
    refine .woken ?_ (TxQueues.mem_resumptionPass.mpr (.inr ⟨b, hb, hready⟩)) (hcrosses.mpr hready)
    rw [Option.eq_none_iff_forall_ne_some]
    intro b' hb'
    obtain ⟨hb'', hready'⟩ := TxQueues.lookup_resumptionPass.mp hb'
    obtain rfl : b = b' := Option.some.inj (hb.symm.trans hb'')
    rw [hready] at hready'
    cases hready'
  | false =>
    refine .stays (TxQueues.lookup_resumptionPass.mpr ⟨hb, hready⟩) (fun _ h => h) id ?_
    rw [hcrosses, hready]
    exact Bool.false_ne_true

theorem not_crosses (hdone : ∀ key n, a = .transmitDone key n → n = 0) (hdrops : ∀ conn, ¬Drops i a conn) :
    ¬Crosses i a t b := by
  rintro (⟨key, n, ha, hn, -⟩ | ⟨⟨conn, hd⟩, -⟩)
  · exact hn (hdone key n ha)
  · exact hdrops conn hd

/-- A write takes no reason away. -/
theorem not_crosses_write {ud : SlotId} {path : PathId} {strict : Bool} {dst : Option SocketAddr} {pkt : List UInt8} :
    ¬Crosses i (.write ud path strict dst pkt) t b :=
  not_crosses (by simp) (by simp [Drops])

/-- A `done` takes a reason away when the pass it makes finds so. -/
theorem crosses_done {key : TxKey} {n : ℕ} (hn : n ≠ 0) (h : t.Represents m) :
    Crosses i (.transmitDone key n) (t.resumptionPass (some key)) b ↔ t.ready (some key) b = true := by
  rw [h.ready_iff, Crosses]
  simp only [TxQueues.resumptionPass_total, bytesAt_resumptionPass, bytesAt_eq h, Option.some.injEq]
  constructor
  · rintro (⟨key', n', ha, -, hcross⟩ | ⟨⟨conn, hd, -⟩, -⟩)
    · cases ha
      exact hcross.imp_left fun hk => ⟨key, rfl, hk⟩
    · rcases hd with hd | ⟨_, hd⟩ <;> cases hd
  · rintro (⟨k, rfl, hk⟩ | htotal)
    · exact .inl ⟨key, n, rfl, hn, .inl hk⟩
    · exact .inl ⟨key, n, rfl, hn, .inr htotal⟩

theorem crosses_drop {conn : ConnId} (hdrops : Drops i a conn) (h : t.Represents m) :
    Crosses i a (t.resumptionPass none) b ↔ t.ready none b = true := by
  rw [h.ready_iff, Crosses]
  simp only [TxQueues.resumptionPass_total, reduceCtorEq, false_and, exists_false, false_or]
  constructor
  · rintro (⟨key, n, rfl, -⟩ | ⟨-, htotal⟩)
    · rcases hdrops.1 with hd | ⟨_, hd⟩ <;> cases hd
    · exact htotal
  · exact fun htotal => .inr ⟨⟨conn, hdrops⟩, htotal⟩

theorem subset_quotaKeys_add (b : Blocked) (key : TxKey) (why : Refusal) :
    b.quotaKeys ⊆ (b.add key why).quotaKeys ∧ (b.total = true → (b.add key why).total = true) := by
  cases why with
  | quota =>
    simp only [Blocked.add]
    split
    · exact ⟨fun _ h => h, id⟩
    · exact ⟨List.subset_append_left _ _, id⟩
  | total => exact ⟨fun _ h => h, fun _ => rfl⟩

/-- **One action, for a blocked connection.** -/
theorem Waiting.fate (h : Waiting i.txq) (hs : TxStep grow i a t) (hb : i.txq.blocked.lookup c = some b) :
    Fate i a t c b := by
  obtain ⟨m, hrep⟩ := h.represents
  cases hs with
  | same hdone hdrops => exact .stays hb (fun _ h => h) id (not_crosses hdone hdrops)
  | @pushed ud path strict dst pkt key r t hpush =>
    obtain ⟨-, -, -, -, hblocked, -⟩ := push_mono (p := ⟨dst, pkt⟩) hrep hpush
    exact .stays (hblocked ▸ hb) (fun _ h => h) id not_crosses_write
  | @refused conn path strict dst pkt why t hlive hpush =>
    obtain ⟨-, -, -, -, hblocked, -⟩ := push_mono (p := ⟨dst, pkt⟩) hrep hpush
    rw [← hblocked] at hb
    by_cases hc : c = conn
    · subst hc
      obtain ⟨hkeys, htotal⟩ := subset_quotaKeys_add b (some c, path) why
      refine .stays ?_ hkeys htotal not_crosses_write
      simp only [TxQueues.recordBlocked, hb, Option.getD_some, AList.lookup_insert]
    · have hb' : (t.recordBlocked conn (some conn, path) why).blocked.lookup c = some b := by
        rw [TxQueues.recordBlocked, AList.lookup_insert_ne hc]
        exact hb
      exact .stays hb' (fun _ h => h) id not_crosses_write
  | done hn hdone =>
    obtain ⟨t₁, rfl, hrep₁, hblocked, -⟩ := hrep.of_done hdone
    exact fate_resumptionPass (hblocked ▸ hb) (crosses_done hn hrep₁)
  | @dropped a conn t hdrops hdrop =>
    obtain ⟨t₁, rfl, hrep₁, hblocked, -⟩ := hrep.of_dropConn hdrop
    by_cases hc : c = conn
    · exact .dropped (hc ▸ hdrops)
    · refine fate_resumptionPass ?_ (crosses_drop hdrops hrep₁)
      rw [hblocked, AList.lookup_erase_ne hc]
      exact hb
  | resumed => exact .stays hb (fun _ h => h) id (not_crosses (by simp) (by simp [Drops]))

/-- **One action keeps the reasons justified.** -/
theorem Waiting.step (h : Waiting i.txq) (hs : TxStep grow i a t) (hshort : Short i a) : Waiting t := by
  obtain ⟨m, hrep⟩ := h.represents
  cases hs with
  | same => exact h
  | @pushed ud path strict dst pkt key r t hpush =>
    obtain ⟨hrep', hbytes, htotal, -, hblocked, hresumable⟩ := push_mono (p := ⟨dst, pkt⟩) hrep hpush
    exact ⟨hrep', fun c b hb => (h.justified c b (hblocked ▸ hb)).mono hbytes htotal, hresumable ▸ h.nodup⟩
  | @refused conn path strict dst pkt why t hlive hpush =>
    obtain ⟨⟨m', hrep'⟩, hbytes, htotal, hwhy, hblocked, hresumable⟩ := push_mono (p := ⟨dst, pkt⟩) hrep hpush
    refine ⟨⟨m', hrep'.of_eq rfl rfl⟩, fun c b hb => ?_, hresumable ▸ h.nodup⟩
    refine Justified.mono (t := i.txq) ?_ hbytes htotal
    rw [TxQueues.recordBlocked, hblocked] at hb
    by_cases hc : c = conn
    · subst hc
      rw [AList.lookup_insert, Option.some.injEq] at hb
      subst hb
      refine Justified.add ?_ rfl hshort hwhy
      cases hold : i.txq.blocked.lookup c with
      | none => exact .inl rfl
      | some b => exact .inr (h.justified c b hold)
    · rw [AList.lookup_insert_ne hc] at hb
      exact h.justified c b hb
  | @done key n t hn hdone =>
    obtain ⟨t₁, rfl, hrep₁, hblocked, hresumable⟩ := hrep.of_done hdone
    refine ⟨⟨_, hrep₁.resumptionPass _⟩, fun c b hb => ?_, TxQueues.nodup_resumptionPass _ (hresumable ▸ h.nodup)⟩
    obtain ⟨hb, hready⟩ := TxQueues.lookup_resumptionPass.mp hb
    refine (h.justified c b (hblocked ▸ hb)).resumptionPass hrep₁ (fun k _ => ?_) hready
    by_cases hk : k = key
    · exact .inl (congrArg some hk.symm)
    · refine .inr (Nat.le_of_eq ?_)
      rw [bytesAt_eq hrep, bytesAt_eq hrep₁, Function.update_of_ne hk]
  | @dropped a conn t hdrops hdrop =>
    obtain ⟨t₁, rfl, hrep₁, hblocked, hresumable⟩ := hrep.of_dropConn hdrop
    refine ⟨⟨_, hrep₁.resumptionPass _⟩, fun c b hb => ?_,
      TxQueues.nodup_resumptionPass _ (hresumable ▸ h.nodup.filter _)⟩
    obtain ⟨hb, hready⟩ := TxQueues.lookup_resumptionPass.mp hb
    rw [hblocked] at hb
    have hc : c ≠ conn := by
      rintro rfl
      rw [AList.lookup_erase] at hb
      cases hb
    rw [AList.lookup_erase_ne hc] at hb
    have hj := h.justified c b hb
    refine hj.resumptionPass hrep₁ (fun k hk => .inr (Nat.le_of_eq ?_)) hready
    -- the queues that it waits on are its own
    have hne : k.1 ≠ some conn := by
      rw [hj.own k hk]
      exact fun h => hc (Option.some.inj h)
    rw [bytesAt_eq hrep, bytesAt_eq hrep₁, TxQueues.afterDrop, if_neg hne]
  | resumed =>
    exact ⟨⟨m, hrep.of_eq rfl rfl⟩, fun c b hb => (h.justified c b hb).mono (fun _ => Nat.le_refl _) (Nat.le_refl _),
      .nil⟩

/-! ### A dropped connection is forgotten -/

/-- The transmit queues know nothing of a connection's being blocked. -/
def Forgotten (t : TxQueues) (c : ConnId) : Prop := t.blocked.lookup c = none ∧ c ∉ t.resumable

theorem Forgotten.resumptionPass {key : Option TxKey} (h : Forgotten t c) : Forgotten (t.resumptionPass key) c := by
  refine ⟨?_, fun hmem => ?_⟩
  · rw [Option.eq_none_iff_forall_ne_some]
    intro b hb
    have hb := (TxQueues.lookup_resumptionPass.mp hb).1
    rw [h.1] at hb
    cases hb
  · rcases TxQueues.mem_resumptionPass.mp hmem with hmem | ⟨b, hb, -⟩
    · exact h.2 hmem
    · rw [h.1] at hb
      cases hb

/-- A connection that is not live is not recorded. -/
theorem Forgotten.step (h : Forgotten i.txq c) (hrep : i.txq.Represents m) (hlive : i.conns.isLive c.slot = false)
    (hs : TxStep grow i a t) : Forgotten t c := by
  cases hs with
  | same => exact h
  | @pushed ud path strict dst pkt key r t hpush =>
    obtain ⟨-, -, -, -, hblocked, hresumable⟩ := push_mono (p := ⟨dst, pkt⟩) hrep hpush
    exact ⟨hblocked ▸ h.1, hresumable ▸ h.2⟩
  | @refused conn path strict dst pkt why t hlive' hpush =>
    obtain ⟨-, -, -, -, hblocked, hresumable⟩ := push_mono (p := ⟨dst, pkt⟩) hrep hpush
    have hc : c ≠ conn := by
      rintro rfl
      rw [hlive] at hlive'
      cases hlive'
    refine ⟨?_, hresumable ▸ h.2⟩
    rw [TxQueues.recordBlocked, AList.lookup_insert_ne hc, hblocked]
    exact h.1
  | done hn hdone =>
    obtain ⟨t₁, rfl, -, hblocked, hresumable⟩ := hrep.of_done hdone
    exact Forgotten.resumptionPass ⟨hblocked ▸ h.1, hresumable ▸ h.2⟩
  | @dropped a conn t hdrops hdrop =>
    obtain ⟨t₁, rfl, -, hblocked, hresumable⟩ := hrep.of_dropConn hdrop
    refine Forgotten.resumptionPass ⟨?_, ?_⟩
    · rw [hblocked]
      by_cases hc : c = conn
      · rw [hc, AList.lookup_erase]
      · rw [AList.lookup_erase_ne hc]
        exact h.1
    · rw [hresumable, List.mem_filter]
      exact fun hmem => h.2 hmem.1
  | resumed => exact ⟨h.1, List.not_mem_nil⟩

/-- The drop itself forgets the connection. -/
theorem forgotten_of_drops (hrep : i.txq.Represents m) (hdrops : Drops i a c) (hs : TxStep grow i a t) :
    Forgotten t c := by
  have hidle : ∀ {a}, Drops i a c → ∀ ud path strict dst pkt, a ≠ .write ud path strict dst pkt := by
    rintro a ⟨rfl | ⟨_, rfl⟩, -⟩ <;> simp
  cases hs with
  | same _ hnot => exact absurd hdrops (hnot c)
  | pushed hpush => exact absurd rfl (hidle hdrops _ _ _ _ _)
  | refused hlive hpush => exact absurd rfl (hidle hdrops _ _ _ _ _)
  | done hn hdone => rcases hdrops.1 with h | ⟨_, h⟩ <;> cases h
  | @dropped a conn t hdrops' hdrop =>
    obtain rfl : c = conn := by
      rcases hdrops.1 with h | ⟨r, h⟩ <;> rcases hdrops'.1 with h' | ⟨r', h'⟩ <;> rw [h] at h' <;>
        simp only [Act.refuse.injEq, Act.close.injEq, reduceCtorEq] at h'
      · exact ConnId.slot_injective h'
      · exact ConnId.slot_injective h'.1
    obtain ⟨t₁, rfl, -, hblocked, hresumable⟩ := hrep.of_dropConn hdrop
    exact Forgotten.resumptionPass ⟨by rw [hblocked, AList.lookup_erase], by simp [hresumable]⟩
  | resumed => rcases hdrops.1 with h | ⟨_, h⟩ <;> cases h

/-! ### Whole runs -/

/-- What the entry waits for has been sent: one of its queues is low, or nothing is left. -/
def Drained (t : TxQueues) (b : Blocked) : Prop :=
  (∃ k ∈ b.quotaKeys, t.bytesAt k < QUEUE_LOW) ∨ b.total = true ∧ t.total = 0

/-- A justified entry is not drained, whatever reasons it has gained. -/
theorem Justified.not_drained {b' : Blocked} (h : Justified t c b') (hkeys : b.quotaKeys ⊆ b'.quotaKeys)
    (htotal : b.total = true → b'.total = true) : ¬Drained t b := by
  rintro (⟨k, hk, hlow⟩ | ⟨hb, hzero⟩)
  · exact absurd hlow (Nat.not_lt.mpr (h.not_low k (hkeys hk)))
  · exact (h.total_pos (htotal hb)).ne' hzero

theorem waiting_of_run {as : List Act} (hrun : Run (Inner.act grow) Short i as i') (h : Waiting i.txq) :
    Waiting i'.txq :=
  hrun.invariant (I := fun i => Waiting i.txq) (fun _ _ _ h hshort hact => h.step (txStep_of_act hact) hshort) h

/-- While what a connection waits for is sent, an action wakes it or drops it. -/
theorem exists_wake {as : List Act} (hrun : Run (Inner.act grow) Short i as i') (h : Waiting i.txq)
    (hb : i.txq.blocked.lookup c = some b) (hdrained : Drained i'.txq b) :
    ∃ pre a post i₁ i₂ b₁, as = pre ++ a :: post ∧ Run (Inner.act grow) Short i pre i₁ ∧
      i₁.act grow a = some i₂ ∧ Run (Inner.act grow) Short i₂ post i' ∧ i₁.txq.blocked.lookup c = some b₁ ∧
        (Drops i₁ a c ∨ Crosses i₁ a i₂.txq b₁ ∧ c ∈ i₂.txq.resumable ∧ i₂.txq.blocked.lookup c = none) := by
  let P : Inner → Prop := fun j => ∃ b', j.txq.blocked.lookup c = some b' ∧ b.quotaKeys ⊆ b'.quotaKeys ∧
    (b.total = true → b'.total = true)
  have hend : ¬P i' := by
    rintro ⟨b', hb', hkeys, htotal⟩
    exact ((waiting_of_run hrun h).justified c b' hb').not_drained hkeys htotal hdrained
  obtain ⟨pre, a, post, i₁, i₂, has, hpre, -, hact, hpost, ⟨b₁, hb₁, hkeys, htotal⟩, hlost⟩ :=
    hrun.exists_loss (P := P) ⟨b, hb, fun _ h => h, id⟩ hend
  refine ⟨pre, a, post, i₁, i₂, b₁, has, hpre, hact, hpost, hb₁, ?_⟩
  cases (waiting_of_run hpre h).fate (txStep_of_act hact) hb₁ with
  | stays hb₂ hkeys₂ htotal₂ => exact absurd ⟨_, hb₂, List.Subset.trans hkeys hkeys₂, htotal₂ ∘ htotal⟩ hlost
  | woken hnone hmem hcrosses => exact .inr ⟨hcrosses, hmem, hnone⟩
  | dropped hdrops => exact .inl hdrops

/-- **A blocked connection never loses its wakeup.** In every state that the bookkeeping
reaches with packets of at most `QUEUE_QUOTA - QUEUE_LOW` bytes, for each blocked
connection: its recorded reasons are justified, so that some queue is not empty; the action
that takes one of them away moves it to `resumable`, unless it drops the connection itself;
and in any run from there in which what it waits for is sent, there is such an action. The
list of resumable connections has no duplicates, and a connection that was dropped is not in
it, nor blocked, as long as its id is not live again. -/
theorem blocked_is_woken (grow : ℕ → ℕ → ℕ) {maxConns : ℕ} {as : List Act} {i : Inner}
    (hrun : Run (Inner.act grow) Short (.new maxConns) as i) :
    (∀ c b, i.txq.blocked.lookup c = some b →
      Justified i.txq c b ∧ (∃ key, 0 < i.txq.bytesAt key) ∧
      (∀ a i', i.act grow a = some i' → Crosses i a i'.txq b →
        Drops i a c ∨ c ∈ i'.txq.resumable ∧ i'.txq.blocked.lookup c = none) ∧
      ∀ as' i', Run (Inner.act grow) Short i as' i' → Drained i'.txq b →
        ∃ pre a post i₁ i₂ b₁, as' = pre ++ a :: post ∧ Run (Inner.act grow) Short i pre i₁ ∧
          i₁.act grow a = some i₂ ∧ Run (Inner.act grow) Short i₂ post i' ∧ i₁.txq.blocked.lookup c = some b₁ ∧
            (Drops i₁ a c ∨ Crosses i₁ a i₂.txq b₁ ∧ c ∈ i₂.txq.resumable ∧ i₂.txq.blocked.lookup c = none)) ∧
      i.txq.resumable.Nodup ∧
      ∀ c a i₁, Drops i a c → i.act grow a = some i₁ →
        ∀ as' i₂, Run (Inner.act grow) (fun j x => Short j x ∧ j.conns.isLive c.slot = false) i₁ as' i₂ →
          c ∉ i₂.txq.resumable ∧ i₂.txq.blocked.lookup c = none := by
  have h : Waiting i.txq := waiting_of_run hrun waiting_default
  obtain ⟨m, hrep⟩ := h.represents
  refine ⟨fun c b hb => ⟨h.justified c b hb, (h.justified c b hb).exists_bytes hrep, fun a i' hact hcrosses => ?_,
    fun as' i' hrun' hdrained => exists_wake hrun' h hb hdrained⟩, h.nodup, fun c a i₁ hdrops hact as' i₂ hrun' => ?_⟩
  · cases h.fate (txStep_of_act hact) hb with
    | stays _ _ _ hnot => exact absurd hcrosses hnot
    | woken hnone hmem _ => exact .inr ⟨hmem, hnone⟩
    | dropped hdrops => exact .inl hdrops
  · have hshort : Short i a := by
      rcases hdrops.1 with rfl | ⟨_, rfl⟩ <;> trivial
    have hstart : Waiting i₁.txq ∧ Forgotten i₁.txq c :=
      ⟨h.step (txStep_of_act hact) hshort, forgotten_of_drops hrep hdrops (txStep_of_act hact)⟩
    have hend := hrun'.invariant (I := fun j => Waiting j.txq ∧ Forgotten j.txq c)
      (fun j x j' hj hallowed hact => ?_) hstart
    · exact ⟨hend.2.2, hend.2.1⟩
    · obtain ⟨m', hrep'⟩ := hj.1.represents
      exact ⟨hj.1.step (txStep_of_act hact) hallowed.1, hj.2.step hrep' hallowed.2 (txStep_of_act hact)⟩

/-- A packet of a live connection is taken. -/
theorem act_write_ok {conn : ConnId} {path : PathId} {dst : SocketAddr} {pkt : List UInt8}
    (hlive : i.conns.isLive conn.slot = true) (hpush : i.txq.push grow (some conn, path) dst pkt = some (.ok (), t)) :
    i.act grow (.write conn.slot path true (some dst) pkt) = some { i with txq := t } := by
  simp only [Inner.act, Inner.onWrite, hlive, Bool.and_self, if_true, ConnId.fromSlot_slot, Option.bind_eq_bind,
    Option.bind_some, hpush]
  rfl

/-- A packet of a live connection is refused. -/
theorem act_write_error {conn : ConnId} {path : PathId} {dst : SocketAddr} {pkt : List UInt8} {why : Refusal}
    (hlive : i.conns.isLive conn.slot = true)
    (hpush : i.txq.push grow (some conn, path) dst pkt = some (.error why, t)) :
    i.act grow (.write conn.slot path true (some dst) pkt) =
      some { i with txq := t.recordBlocked conn (some conn, path) why } := by
  simp only [Inner.act, Inner.onWrite, hlive, Bool.and_self, if_true, ConnId.fromSlot_slot, Option.bind_eq_bind,
    Option.bind_some, hpush]
  rfl

/-- A push when only one key has packets. -/
theorem push_single (grow : ℕ → ℕ → ℕ) {key : TxKey} {l : List Packet} {used : ℕ} {r : Except Refusal Unit}
    (h : t.Represents (Function.update (fun _ => []) key l)) (hsize : size l = used) (p : Packet)
    (hr : TxQueues.verdict used used p.bytes.length = r) :
    ∃ t', t.push grow key p.dst p.bytes = some (r, t') ∧
      (r = .ok () → t'.Represents (Function.update (fun _ => []) key (l ++ [p]))) := by
  have htotal : t.total = used := by
    rw [h.total_eq_finsum, finsum_eq_single _ key fun k hk => by rw [Function.update_of_ne hk, size_nil],
      Function.update_self, hsize]
  obtain ⟨t', hpush, hrep, -⟩ := h.push grow key p
  rw [Function.update_self, htotal, hsize, hr] at hpush hrep
  refine ⟨t', hpush, fun hok => ?_⟩
  rw [hok, TxQueues.afterPush, Function.update_self, Function.update_idem] at hrep
  exact hrep

/-- Two packets fill the queue of a connection, a third is refused, and the connection waits
for a queue that is not low. -/
theorem blocked_is_woken_full :
    ∃ as i b, Run (Inner.act fun _ n => n) Short (.new 0) as i ∧
      i.txq.blocked.lookup ⟨0, 1, Nat.one_ne_zero⟩ = some b ∧ Justified i.txq ⟨0, 1, Nat.one_ne_zero⟩ b := by
  let conn : ConnId := ⟨0, 1, Nat.one_ne_zero⟩
  let dst : SocketAddr := .v4 ⟨[10, 0, 0, 1], rfl⟩ 4433
  let half : Packet := ⟨dst, List.replicate QUEUE_LOW 0⟩
  have hhalf : half.bytes.length = QUEUE_LOW := List.length_replicate
  have h₀ : TxQueues.default.Represents (Function.update (fun _ => []) (some conn, (0 : PathId)) []) := by
    rw [Function.update_eq_self_iff.mpr rfl]
    exact TxQueues.represents_default
  obtain ⟨t₁, hpush₁, h₁⟩ := push_single (fun _ n => n) h₀ size_nil half (r := .ok ()) (by rw [hhalf]; decide)
  obtain ⟨t₂, hpush₂, h₂⟩ := push_single (fun _ n => n) (h₁ rfl) (by simpa using hhalf) half (r := .ok ())
    (by rw [hhalf]; decide)
  have hfull : size ([] ++ [half] ++ [half]) = QUEUE_QUOTA := by
    simp only [size_append, size_cons, size_nil, hhalf]
    decide
  obtain ⟨t₃, hpush₃, -⟩ := push_single (fun _ n => n) (h₂ rfl) hfull ⟨dst, [7]⟩ (r := .error .quota) (by decide)
  have hshort : half.bytes.length ≤ QUEUE_QUOTA - QUEUE_LOW := by rw [hhalf]; decide
  let i₀ : Inner := Inner.connect (.new 0)
  have hlive : i₀.conns.isLive conn.slot = true := rfl
  have hrun : Run (Inner.act fun _ n => n) Short (.new 0) [.connect, .write conn.slot 0 true (some dst) half.bytes,
      .write conn.slot 0 true (some dst) half.bytes, .write conn.slot 0 true (some dst) [7]]
      { i₀ with txq := t₃.recordBlocked conn (some conn, 0) .quota } :=
    .cons trivial rfl <| .cons hshort (act_write_ok (i := i₀) hlive hpush₁) <|
      .cons hshort (act_write_ok (i := { i₀ with txq := t₁ }) hlive hpush₂) <|
        .cons (show 1 ≤ QUEUE_QUOTA - QUEUE_LOW by decide)
          (act_write_error (i := { i₀ with txq := t₂ }) hlive hpush₃) <| .nil _
  have hlookup : (t₃.recordBlocked conn (some conn, 0) .quota).blocked.lookup conn =
      some (((t₃.blocked.lookup conn).getD .default).add (some conn, 0) .quota) := AList.lookup_insert _
  exact ⟨_, _, _, hrun, hlookup, ((blocked_is_woken _ hrun).1 conn _ hlookup).1⟩

end MqProxy.Transport
