import MqProxy.Udp.Defrag
import Mathlib.Algebra.Order.BigOperators.Group.List

/-!
# The defragmenter under hostile input

Whatever is fed, the table stays well formed (`Table`) and a packet that comes out of
several fragments is made of fragments of that packet. To say the second, the
defragmenter is followed by a record of the feeds since each slot was opened
(`Tracked`); what a slot holds is, for each index, the first such feed that carries the
slot's packet id, its count and the index (`Coupled`).
-/

namespace MqProxy.Udp

open MqProxy.Library

/-! ### The table -/

/-- The length of what a slot holds. -/
def Slot.held (s : Slot) : ℕ := (s.frags.map fun f => (f.getD []).length).sum

/-- A slot that waits for fragments. -/
structure Slot.Ok (s : Slot) : Prop where
  two_le : 2 ≤ s.frags.length
  le : s.frags.length ≤ 255
  received : s.received = s.frags.countP Option.isSome
  lt : s.received < s.frags.length
  total : s.totalLen = s.held
  total_le : s.totalLen ≤ MAX_TOTAL

/-- **The invariant of the table**, after `seq` feeds. -/
structure Table (seq : ℕ) (slots : List Slot) : Prop where
  /-- At most four slots. -/
  length_le : slots.length ≤ SLOTS
  /-- One slot for each packet. -/
  ids : (slots.map Slot.packetId).Nodup
  /-- One stamp for each slot. -/
  stamps : (slots.map Slot.seq).Nodup
  /-- Stamped by a feed. -/
  le_seq : ∀ s ∈ slots, s.seq ≤ seq
  /-- Each slot is well formed. -/
  ok : ∀ s ∈ slots, s.Ok

theorem Table.perm {seq : ℕ} {l l' : List Slot} (h : Table seq l) (hp : l.Perm l') : Table seq l' where
  length_le := hp.length_eq ▸ h.length_le
  ids := (hp.map _).nodup_iff.mp h.ids
  stamps := (hp.map _).nodup_iff.mp h.stamps
  le_seq := fun s hs => h.le_seq s (hp.mem_iff.mpr hs)
  ok := fun s hs => h.ok s (hp.mem_iff.mpr hs)

variable {seq : ℕ} {s : Slot} {o : List Slot}

/-- The table without a slot. -/
theorem Table.tail (h : Table seq (s :: o)) : Table seq o where
  length_le := Nat.le_of_succ_le h.length_le
  ids := (List.nodup_cons.mp h.ids).2
  stamps := (List.nodup_cons.mp h.stamps).2
  le_seq := fun x hx => h.le_seq x (List.mem_cons_of_mem _ hx)
  ok := fun x hx => h.ok x (List.mem_cons_of_mem _ hx)

variable {l : List Slot}

theorem Table.later (h : Table seq l) : Table (seq + 1) l :=
  { h with le_seq := fun s hs => Nat.le_succ_of_le (h.le_seq s hs) }

/-- The table with a slot that the last feed touched. -/
theorem Table.cons (h : Table seq o) (hlen : o.length < SLOTS)
    (hid : ∀ x ∈ o, x.packetId ≠ s.packetId) (hseq : s.seq = seq + 1) (hs : s.Ok) : Table (seq + 1) (s :: o) where
  length_le := hlen
  ids := by
    refine List.nodup_cons.mpr ⟨fun hmem => ?_, h.ids⟩
    obtain ⟨x, hx, hxs⟩ := List.mem_map.mp hmem
    exact hid x hx hxs
  stamps := by
    refine List.nodup_cons.mpr ⟨fun hmem => ?_, h.stamps⟩
    obtain ⟨x, hx, hxs⟩ := List.mem_map.mp hmem
    have := h.le_seq x hx
    omega
  le_seq := by
    rintro x (_ | ⟨_, hx⟩)
    · exact hseq.le
    · exact Nat.le_succ_of_le (h.le_seq x hx)
  ok := by
    rintro x (_ | ⟨_, hx⟩)
    · exact hs
    · exact h.ok x hx

variable {h : UdpMsgHdr}

theorem Slot.ok_fresh (hm : Multi h) (seq : ℕ) : (Slot.fresh h seq).Ok where
  two_le := by simpa [Slot.fresh] using hm.two_le
  le := by
    have := h.fragCount.toNat_lt
    simp only [Slot.fresh, List.length_replicate]
    omega
  received := by simp [Slot.fresh, List.countP_replicate]
  lt := by
    have := hm.two_le
    simp only [Slot.fresh, List.length_replicate]
    omega
  total := by simp [Slot.fresh, Slot.held]
  total_le := Nat.zero_le _

/-- What the focus of a feed is in a well-formed table. -/
structure Focused (d : Defrag) (h : UdpMsgHdr) (s : Slot) (o : List Slot) : Prop where
  table : Table d.seq o
  room : o.length < SLOTS
  others : ∀ x ∈ o, x.packetId ≠ h.packetId
  mem : ∀ x ∈ o, x ∈ d.slots
  packetId : s.packetId = h.packetId
  seq : s.seq = d.seq + 1
  ok : s.Ok

theorem others_ne (ht : Table seq (s :: o)) : ∀ x ∈ o, x.packetId ≠ s.packetId :=
  fun x hx he => (List.nodup_cons.mp ht.ids).1 (List.mem_map.mpr ⟨x, hx, he⟩)

theorem Focus.focused {d : Defrag} {h : UdpMsgHdr} {s : Slot} {o : List Slot} (hf : Focus d h s o) (hm : Multi h)
    (ht : Table d.seq d.slots) : Focused d h s o := by
  cases hf with
  | @old s₀ _ hp hid hlen =>
    have ht' := ht.perm hp
    have hok := ht'.ok s₀ List.mem_cons_self
    exact ⟨ht'.tail, ht'.length_le, hid ▸ others_ne ht', fun x hx => hp.mem_iff.mpr (List.mem_cons_of_mem _ hx), hid, rfl,
      ⟨hok.two_le, hok.le, hok.received, hok.lt, hok.total, hok.total_le⟩⟩
  | room hid hroom => exact ⟨ht, hroom, hid, fun x hx => hx, rfl, rfl, Slot.ok_fresh hm _⟩
  | evict hp hid hfull hlru =>
    have ht' := ht.perm hp
    have hmem : ∀ x ∈ o, x ∈ d.slots := fun x hx => hp.mem_iff.mpr (List.mem_cons_of_mem _ hx)
    exact ⟨ht'.tail, ht'.length_le, fun x hx => hid x (hmem x hx), hmem, rfl, rfl, Slot.ok_fresh hm _⟩

variable {i : ℕ}

/-- A fragment that was missing, stored. -/
theorem put_perm (hi : s.frags[i]? = some none) (bytes : List UInt8) :
    ∃ e, s.frags.Perm (none :: e) ∧ (s.put i bytes).frags.Perm (some bytes :: e) :=
  ⟨s.frags.eraseIdx i, perm_cons_eraseIdx hi,
    List.set_perm_cons_eraseIdx (List.getElem?_eq_some_iff.mp hi).1 (some bytes)⟩

theorem countP_put (hi : s.frags[i]? = some none) (bytes : List UInt8) :
    (s.put i bytes).frags.countP Option.isSome = s.frags.countP Option.isSome + 1 := by
  obtain ⟨e, hold, hnew⟩ := put_perm hi bytes
  rw [hold.countP_eq, hnew.countP_eq]
  simp

theorem held_put (hi : s.frags[i]? = some none) (bytes : List UInt8) :
    (s.put i bytes).held = s.held + bytes.length := by
  obtain ⟨e, hold, hnew⟩ := put_perm hi bytes
  rw [Slot.held, Slot.held, (hnew.map _).sum_eq, (hold.map _).sum_eq]
  simp only [List.map_cons, Option.getD_none, Option.getD_some, List.length_nil, List.sum_cons]
  omega

variable {bytes : List UInt8}

theorem Slot.Ok.put (hs : s.Ok) (hi : s.frags[i]? = some none)
    (htotal : s.totalLen + bytes.length ≤ MAX_TOTAL) (hmissing : s.received + 1 < s.frags.length) :
    (s.put i bytes).Ok := by
  have hlen : (s.put i bytes).frags.length = s.frags.length := by simp [Slot.put]
  refine ⟨hlen ▸ hs.two_le, hlen ▸ hs.le, ?_, hlen ▸ hmissing, ?_, htotal⟩
  · rw [countP_put hi, ← hs.received]
    rfl
  · rw [held_put hi, ← hs.total]
    rfl

/-- **A feed keeps the table well formed.** -/
theorem Fed.table {d : Defrag} {r : Feed}
    (hfed : Fed d h bytes r l) (hm : Multi h) (ht : Table d.seq d.slots) : Table (d.seq + 1) l := by
  cases hfed with
  | mismatch hp hid hlen => exact (ht.perm hp).tail.later
  | duplicate hf hi =>
    have hfo := hf.focused hm ht
    exact hfo.table.cons hfo.room (hfo.packetId ▸ hfo.others) hfo.seq hfo.ok
  | oversize hf hi htotal => exact (hf.focused hm ht).table.later
  | stored hf hi htotal hmissing =>
    have hfo := hf.focused hm ht
    exact hfo.table.cons hfo.room (hfo.packetId ▸ hfo.others) hfo.seq (hfo.ok.put hi htotal hmissing)
  | complete hf hi htotal hall => exact (hf.focused hm ht).table.later

/-! ### What the slots hold -/

/-- There is a slot for the packet. -/
def Defrag.Holds (d : Defrag) (packetId : UInt16) : Prop := ∃ s ∈ d.slots, s.packetId = packetId

instance (d : Defrag) (packetId : UInt16) : Decidable (d.Holds packetId) :=
  inferInstanceAs (Decidable (∃ s ∈ d.slots, s.packetId = packetId))

/-- The defragmenter with, for each packet that has a slot, the feeds since the slot was
opened, the opening one first. -/
structure Tracked where
  /-- The defragmenter. -/
  d : Defrag
  /-- The feeds since the slot of a packet was opened. -/
  since : UInt16 → List Datagram

/-- At the start there are no slots. -/
def Tracked.new : Tracked := ⟨Defrag.new, fun _ => []⟩

/-- The feed `f`, which led to `d`, recorded for the slots that are there after it. -/
def Tracked.record (t : Tracked) (f : Datagram) (d : Defrag) : Tracked :=
  ⟨d, fun pid => if d.Holds pid then t.since pid ++ [f] else []⟩

/-- A feed, recorded. -/
def Tracked.feed (t : Tracked) (f : Datagram) : Option (Feed × Tracked) :=
  (t.d.feed f.1 f.2).map fun (r, d) => (r, t.record f d)

/-- The state after the feeds `fs`. -/
def Tracked.run (fs : List Datagram) : Option Tracked :=
  fs.foldlM (fun t f => (Tracked.feed t f).map (·.2)) Tracked.new

/-- The fragment `f` is the `i`-th of `count` of the packet. -/
def IsFrag (packetId : UInt16) (count i : ℕ) (f : Datagram) : Prop :=
  f.1.packetId = packetId ∧ f.1.fragCount.toNat = count ∧ f.1.fragId.toNat = i

instance (packetId : UInt16) (count i : ℕ) : DecidablePred (IsFrag packetId count i) :=
  fun f => inferInstanceAs (Decidable (f.1.packetId = packetId ∧ f.1.fragCount.toNat = count ∧ f.1.fragId.toNat = i))

/-- The first of the feeds that is the `i`-th fragment of `count` of the packet. -/
def firstFrag (fs : List Datagram) (packetId : UInt16) (count i : ℕ) : Option (List UInt8) :=
  (fs.find? fun f => IsFrag packetId count i f).map (·.2)

/-- The first fragment is not replaced. -/
theorem firstFrag_snoc (fs : List Datagram) (f : Datagram) (packetId : UInt16) (count i : ℕ) :
    firstFrag (fs ++ [f]) packetId count i =
      (firstFrag fs packetId count i).or (if IsFrag packetId count i f then some f.2 else none) := by
  unfold firstFrag
  rw [List.find?_append]
  cases hfind : fs.find? fun f => IsFrag packetId count i f with
  | some g => rfl
  | none =>
    simp only [Option.none_or, Option.map_none, List.find?_singleton]
    split_ifs <;> simp_all

variable {f : Datagram}

theorem firstFrag_snoc_of_not {fs : List Datagram} {packetId : UInt16} {count : ℕ}
    (h : ¬IsFrag packetId count i f) :
    firstFrag (fs ++ [f]) packetId count i = firstFrag fs packetId count i := by
  rw [firstFrag_snoc, if_neg h, Option.or_none]

/-- What a slot of `count` fragments holds after the feeds `fs`. -/
def HoldsFirst (fs : List Datagram) (packetId : UInt16) (s : Slot) : Prop :=
  ∀ i, i < s.frags.length → s.frags[i]? = some (firstFrag fs packetId s.frags.length i)

/-- **What the slots hold**: the first fragment fed for each index since the slot was opened. -/
structure Coupled (t : Tracked) : Prop where
  held : ∀ s ∈ t.d.slots, HoldsFirst (t.since s.packetId) s.packetId s
  empty : ∀ pid, ¬t.d.Holds pid → t.since pid = []

variable {t : Tracked}

/-- The record fits when each slot holds the first fragments fed, this feed included. -/
theorem Coupled.record {d : Defrag}
    (h : ∀ s ∈ d.slots, HoldsFirst (t.since s.packetId ++ [f]) s.packetId s) : Coupled (t.record f d) where
  held := by
    intro s hs
    have hholds : d.Holds s.packetId := ⟨s, hs, rfl⟩
    simp only [Tracked.record, if_pos hholds]
    exact h s hs
  empty := fun pid hpid => if_neg hpid

/-- A feed for another packet leaves what a slot holds. -/
theorem HoldsFirst.other {fs : List Datagram} {packetId : UInt16} (h : HoldsFirst fs packetId s)
    (hf : ∀ i, i < s.frags.length → ¬IsFrag packetId s.frags.length i f) :
    HoldsFirst (fs ++ [f]) packetId s :=
  fun i hi => by rw [firstFrag_snoc_of_not (hf i hi)]; exact h i hi

/-- The slot a feed is for holds the fragments fed before. -/
theorem Focus.holdsFirst (hf : Focus t.d h s o)
    (hc : Coupled t) : HoldsFirst (t.since h.packetId) h.packetId s := by
  -- without a slot before, nothing is recorded and the new slot is empty
  have hfresh : (∀ s ∈ t.d.slots, s.packetId ≠ h.packetId) → ∀ seq,
      HoldsFirst (t.since h.packetId) h.packetId (Slot.fresh h seq) := by
    intro hid seq i hi
    rw [hc.empty h.packetId fun ⟨s, hs, he⟩ => hid s hs he]
    simp only [Slot.fresh, List.length_replicate] at hi ⊢
    rw [List.getElem?_replicate, if_pos hi]
    rfl
  cases hf with
  | @old s₀ _ hp hid hlen => exact hid ▸ hc.held s₀ (hp.mem_iff.mpr List.mem_cons_self)
  | room hid hroom => exact hfresh hid _
  | evict hp hid hfull hlru => exact hfresh hid _

section Fragment

variable {fs : List Datagram} {h : UdpMsgHdr} (bytes : List UInt8) {s : Slot}

/-- The fragment fed is the one of its own index. -/
theorem isFrag_iff (hlen : s.frags.length = h.fragCount.toNat) (i : ℕ) :
    IsFrag h.packetId s.frags.length i (h, bytes) ↔ i = h.fragId.toNat := by
  rw [hlen]
  exact ⟨fun hf => hf.2.2.symm, fun hi => ⟨rfl, rfl, hi.symm⟩⟩

theorem HoldsFirst.duplicate (hh : HoldsFirst fs h.packetId s) (hlen : s.frags.length = h.fragCount.toNat)
    {b : List UInt8} (hi : s.frags[h.fragId.toNat]? = some (some b)) :
    HoldsFirst (fs ++ [(h, bytes)]) h.packetId s := by
  intro i hlt
  rw [hh i hlt, firstFrag_snoc]
  by_cases he : i = h.fragId.toNat
  · subst he
    have := hh _ hlt
    rw [hi, Option.some.injEq] at this
    rw [← this, Option.some_or]
  · rw [if_neg (fun hf => he ((isFrag_iff bytes hlen i).mp hf)), Option.or_none]

theorem HoldsFirst.put (hh : HoldsFirst fs h.packetId s) (hlen : s.frags.length = h.fragCount.toNat)
    (hi : s.frags[h.fragId.toNat]? = some none) :
    HoldsFirst (fs ++ [(h, bytes)]) h.packetId (s.put h.fragId.toNat bytes) := by
  have hput : (s.put h.fragId.toNat bytes).frags.length = s.frags.length := by simp [Slot.put]
  intro i hlt
  rw [hput] at hlt ⊢
  rw [firstFrag_snoc]
  by_cases he : i = h.fragId.toNat
  · subst he
    have := hh _ hlt
    rw [hi, Option.some.injEq] at this
    rw [← this, if_pos ((isFrag_iff bytes hlen _).mpr rfl), Option.none_or]
    simp [Slot.put, hlt]
  · rw [if_neg (fun hf => he ((isFrag_iff bytes hlen i).mp hf)), Option.or_none, ← hh i hlt]
    simp only [Slot.put]
    rw [List.getElem?_set_ne (Ne.symm he)]

/-- A slot with all of its fragments is their concatenation. -/
theorem HoldsFirst.assembled {packetId : UInt16} (hh : HoldsFirst fs packetId s)
    (hall : s.frags.countP Option.isSome = s.frags.length) :
    ∃ pieces : List (List UInt8), pieces.length = s.frags.length ∧
      (∀ i, i < s.frags.length → pieces[i]? = firstFrag fs packetId s.frags.length i) ∧
      s.assembled = pieces.flatten := by
  refine ⟨s.frags.map (·.getD []), by simp, fun i hi => ?_, rfl⟩
  have hsome : (s.frags[i]).isSome = true := (List.countP_eq_length.mp hall) _ (List.getElem_mem hi)
  have := hh i hi
  rw [List.getElem?_eq_getElem hi, Option.some.injEq] at this
  rw [List.getElem?_map, List.getElem?_eq_getElem hi, ← this]
  obtain ⟨b, hb⟩ := Option.isSome_iff_exists.mp hsome
  simp [hb]

end Fragment

/-- What a `Complete` is made of. -/
def MadeOf (fs : List Datagram) (h : UdpMsgHdr) (packet : List UInt8) : Prop :=
  ∃ pieces : List (List UInt8), pieces.length = h.fragCount.toNat ∧
    (∀ i, i < h.fragCount.toNat → pieces[i]? = firstFrag fs h.packetId h.fragCount.toNat i) ∧ packet = pieces.flatten

/-- The last fragment completes what the slot holds. -/
theorem Fed.madeOf {packet : List UInt8}
    (hfed : Fed t.d h bytes (.complete packet) l) (hm : Multi h) (ht : Table t.d.seq t.d.slots) (hc : Coupled t) :
    MadeOf (t.since h.packetId ++ [(h, bytes)]) h packet := by
  cases hfed with
  | @complete s _ hf hi htotal hall =>
    have hok := (hf.focused hm ht).ok
    have hput : (s.put h.fragId.toNat bytes).frags.length = h.fragCount.toNat := by simp [Slot.put, hf.length]
    have hcount : (s.put h.fragId.toNat bytes).frags.countP Option.isSome =
        (s.put h.fragId.toNat bytes).frags.length := by
      have := hok.lt
      rw [countP_put hi, ← hok.received, hput, ← hf.length]
      omega
    have := ((hf.holdsFirst hc).put bytes hf.length hi).assembled hcount
    rwa [hput] at this

/-- A feed leaves in each slot the first fragments fed. -/
theorem Fed.holdsFirst {r : Feed}
    (hfed : Fed t.d h bytes r l) (hm : Multi h) (ht : Table t.d.seq t.d.slots) (hc : Coupled t) :
    ∀ s ∈ l, HoldsFirst (t.since s.packetId ++ [(h, bytes)]) s.packetId s := by
  have hother : ∀ x ∈ t.d.slots, x.packetId ≠ h.packetId →
      HoldsFirst (t.since x.packetId ++ [(h, bytes)]) x.packetId x :=
    fun x hx hne => (hc.held x hx).other fun i _ hf => hne hf.1.symm
  have hothers : ∀ {s o}, Focus t.d h s o → ∀ x ∈ o, HoldsFirst (t.since x.packetId ++ [(h, bytes)]) x.packetId x :=
    fun hf x hx => hother x ((hf.focused hm ht).mem x hx) ((hf.focused hm ht).others x hx)
  cases hfed with
  | mismatch hp hid hlen =>
    exact fun x hx => hother x (hp.mem_iff.mpr (List.mem_cons_of_mem _ hx)) (hid ▸ others_ne (ht.perm hp) x hx)
  | duplicate hf hi =>
    rintro x (_ | ⟨_, hx⟩)
    · rw [(hf.focused hm ht).packetId]
      exact (hf.holdsFirst hc).duplicate bytes hf.length hi
    · exact hothers hf x hx
  | oversize hf hi htotal => exact hothers hf
  | @stored s _ hf hi htotal hmissing =>
    rintro x (_ | ⟨_, hx⟩)
    · rw [show (s.put h.fragId.toNat bytes).packetId = h.packetId from (hf.focused hm ht).packetId]
      exact (hf.holdsFirst hc).put bytes hf.length hi
    · exact hothers hf x hx
  | complete hf hi htotal hall => exact hothers hf

/-! ### Runs -/

/-- **A feed of the tracked defragmenter** has a result, keeps the table well formed and the
slots holding the first fragments, and a packet of several fragments that it completes is
made of them. -/
theorem Tracked.feed_spec (ht : Table t.d.seq t.d.slots) (hc : Coupled t) (f : Datagram) :
    ∃ r t', t.feed f = some (r, t') ∧ Table t'.d.seq t'.d.slots ∧ Coupled t' ∧
      ∀ packet, r = .complete packet → 1 < f.1.fragCount.toNat → MadeOf (t.since f.1.packetId ++ [f]) f.1 packet := by
  obtain ⟨h, bytes⟩ := f
  rcases Udp.feed_spec t.d h bytes with ⟨hm, r, hr, hone⟩ | ⟨hm, r, l, l', hr, hfed, hp⟩
  · -- no trace: the feed is of no slot
    have hfeed : t.feed (h, bytes) = some (r, t.record (h, bytes) t.d) := by rw [Tracked.feed, hr]; rfl
    refine ⟨r, _, hfeed, ht, .record fun s hs => ?_, ?_⟩
    · refine (hc.held s hs).other fun i hi hf => hm ⟨?_, ?_⟩
      · exact hf.2.1 ▸ (ht.ok s hs).two_le
      · exact hf.2.1 ▸ hf.2.2 ▸ hi
    · intro packet hpacket hcount
      rw [(hone packet hpacket).1] at hcount
      simp at hcount
  · have hfeed : t.feed (h, bytes) = some (r, t.record (h, bytes) ⟨l', t.d.seq + 1⟩) := by rw [Tracked.feed, hr]; rfl
    refine ⟨r, _, hfeed, (hfed.table hm ht).perm hp.symm,
      .record fun s hs => hfed.holdsFirst hm ht hc s (hp.mem_iff.mp hs), ?_⟩
    rintro packet rfl -
    exact hfed.madeOf hm ht hc

theorem Tracked.run_spec (fs : List Datagram) :
    ∃ t, Tracked.run fs = some t ∧ Table t.d.seq t.d.slots ∧ Coupled t := by
  induction fs using List.reverseRecOn with
  | nil =>
    refine ⟨Tracked.new, rfl, ?_, ?_⟩
    · exact ⟨Nat.zero_le _, List.nodup_nil, List.nodup_nil, by simp [Tracked.new, Defrag.new],
        by simp [Tracked.new, Defrag.new]⟩
    · exact ⟨by simp [Tracked.new, Defrag.new], fun _ _ => rfl⟩
  | append_singleton fs f ih =>
    obtain ⟨t, hrun, ht, hc⟩ := ih
    obtain ⟨r, t', hfeed, ht', hc', -⟩ := Tracked.feed_spec ht hc f
    refine ⟨t', ?_, ht', hc'⟩
    rw [Tracked.run] at hrun ⊢
    rw [List.foldlM_append, hrun]
    simp [hfeed]

/-- **The defragmenter is safe and never mixes packets.** After any feeds `fs` the table has
at most four slots, with distinct packet ids and distinct stamps, each with two to 255
fragments of which some are missing, its counters true and its length at most
`MAX_TOTAL`. Any further feed has a result, no index being out of range; and if it
completes a packet of several fragments, the packet is the concatenation in order of one
fragment for each index, the first fed with that packet id, count and index since the slot
was opened. -/
theorem defrag_safe (fs : List Datagram) :
    ∃ t, Tracked.run fs = some t ∧ Table t.d.seq t.d.slots ∧ ∀ h bytes, ∃ r t', t.feed (h, bytes) = some (r, t') ∧
      ∀ packet, r = .complete packet → 1 < h.fragCount.toNat → MadeOf (t.since h.packetId ++ [(h, bytes)]) h packet := by
  obtain ⟨t, hrun, ht, hc⟩ := Tracked.run_spec fs
  refine ⟨t, hrun, ht, fun h bytes => ?_⟩
  obtain ⟨r, t', hfeed, -, -, hmade⟩ := Tracked.feed_spec ht hc (h, bytes)
  exact ⟨r, t', hfeed, hmade⟩

end MqProxy.Udp
