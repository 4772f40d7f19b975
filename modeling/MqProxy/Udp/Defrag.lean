import MqProxy.Udp.Msg
import Mathlib.Data.List.MinMax
import Mathlib.Algebra.BigOperators.Group.List.Basic

/-!
# The defragmenter

`Defrag` of `mq-proxy/src/udp/defrag.rs`: four slots for packets of which fragments have
arrived, the least recently used one giving way to a new packet. Indexing a slot or a
fragment is a lookup that may fail, so that a result of `feed` says that no index was out
of range. The sequence counter, a `u64` that counts the feeds, is a natural number.

`feed_spec` says once what a feed can do, up to the order of the slots (`Fed`); the rest
of the development about the defragmenter is proved from it.
-/

namespace MqProxy.Udp

open MqProxy.Library

/-- `SLOTS`. -/
def SLOTS : ℕ := 4

/-- `MAX_TOTAL`: the largest reassembled packet. -/
def MAX_TOTAL : ℕ := 65535

/-- `Feed`. -/
inductive Feed where
  /-- A whole packet. -/
  | complete (packet : List UInt8)
  /-- Fragments are missing. -/
  | pending
  /-- The fragment is dropped, perhaps with its packet. -/
  | rejected
  deriving DecidableEq

/-- `Slot`. -/
structure Slot where
  /-- The packet. -/
  packetId : UInt16
  /-- One entry for each expected fragment. -/
  frags : List (Option (List UInt8))
  /-- How many have arrived. -/
  received : ℕ
  /-- Their length. -/
  totalLen : ℕ
  /-- The feed that last touched the slot. -/
  seq : ℕ
  deriving DecidableEq

/-- `Defrag`. -/
structure Defrag where
  /-- The slots. -/
  slots : List Slot
  /-- The number of feeds. -/
  seq : ℕ
  deriving DecidableEq

/-- `Defrag::new`. -/
def Defrag.new : Defrag := ⟨[], 0⟩

/-- A slot for the packet of `h`, with nothing in it. -/
def Slot.fresh (h : UdpMsgHdr) (seq : ℕ) : Slot where
  packetId := h.packetId
  frags := List.replicate h.fragCount.toNat none
  received := 0
  totalLen := 0
  seq := seq

/-- The slot with one more fragment. -/
def Slot.put (s : Slot) (i : ℕ) (bytes : List UInt8) : Slot :=
  { s with frags := s.frags.set i (some bytes), received := s.received + 1, totalLen := s.totalLen + bytes.length }

/-- The fragments that are there, in order. -/
def Slot.assembled (s : Slot) : List UInt8 := (s.frags.map (·.getD [])).flatten

/-- The index of the least recently used slot. -/
def lru (slots : List Slot) : Option ℕ := (List.range SLOTS).argmin fun i => (slots[i]?).elim 0 Slot.seq

/-- The part of `feed` that stores a fragment in the `i`-th slot. -/
def Defrag.store (d : Defrag) (i : ℕ) (h : UdpMsgHdr) (bytes : List UInt8) : Option (Feed × Defrag) := do
  let s ← d.slots[i]?
  let f ← s.frags[h.fragId.toNat]?
  -- before the length check: a repeated fragment near the cap must not destroy a valid assembly
  if f.isSome then return (.pending, d)
  if MAX_TOTAL < s.totalLen + bytes.length then return (.rejected, { d with slots := swapRemove d.slots i })
  let s := s.put h.fragId.toNat bytes
  if s.received < s.frags.length then return (.pending, { d with slots := d.slots.set i s })
  return (.complete s.assembled, { d with slots := swapRemove d.slots i })

/-- `Defrag::feed`. -/
def Defrag.feed (d : Defrag) (h : UdpMsgHdr) (bytes : List UInt8) : Option (Feed × Defrag) :=
  if h.fragCount = 0 ∨ h.fragCount ≤ h.fragId then some (.rejected, d)
  else if h.fragCount = 1 then some (.complete bytes, d)
  else
    let seq := d.seq + 1
    match d.slots.findIdx? fun s => s.packetId = h.packetId with
    | some i => do
      let s ← d.slots[i]?
      if s.frags.length ≠ h.fragCount.toNat then return (.rejected, { slots := swapRemove d.slots i, seq })
      Defrag.store { slots := d.slots.set i { s with seq }, seq } i h bytes
    | none =>
      let s := Slot.fresh h seq
      if d.slots.length < SLOTS then Defrag.store { slots := d.slots ++ [s], seq } d.slots.length h bytes
      else do
        let i ← lru d.slots
        Defrag.store { slots := d.slots.set i s, seq } i h bytes

/-! ### What a feed can do -/

/-- `Focus d h s o`: the fragment of `h` is for the slot `s`, and `o` are the others. -/
inductive Focus (d : Defrag) (h : UdpMsgHdr) : Slot → List Slot → Prop where
  /-- The packet has a slot, which is stamped. -/
  | old {s : Slot} {o : List Slot} (hp : d.slots.Perm (s :: o)) (hid : s.packetId = h.packetId)
      (hlen : s.frags.length = h.fragCount.toNat) : Focus d h { s with seq := d.seq + 1 } o
  /-- A new packet, and there is room. -/
  | room (hid : ∀ s ∈ d.slots, s.packetId ≠ h.packetId) (hroom : d.slots.length < SLOTS) :
      Focus d h (Slot.fresh h (d.seq + 1)) d.slots
  /-- A new packet in place of the least recently used one. -/
  | evict {v : Slot} {o : List Slot} (hp : d.slots.Perm (v :: o)) (hid : ∀ s ∈ d.slots, s.packetId ≠ h.packetId)
      (hfull : SLOTS ≤ d.slots.length) (hlru : d.slots.length = SLOTS → ∀ s ∈ d.slots, v.seq ≤ s.seq) :
      Focus d h (Slot.fresh h (d.seq + 1)) o

/-- `Fed d h bytes r l`: the feed of a fragment of several gives `r` and leaves the slots `l`. -/
inductive Fed (d : Defrag) (h : UdpMsgHdr) (bytes : List UInt8) : Feed → List Slot → Prop where
  /-- The packet was announced with another count: it is dropped. -/
  | mismatch {s : Slot} {o : List Slot} (hp : d.slots.Perm (s :: o)) (hid : s.packetId = h.packetId)
      (hlen : s.frags.length ≠ h.fragCount.toNat) : Fed d h bytes .rejected o
  /-- The fragment is there. -/
  | duplicate {s : Slot} {o : List Slot} {b : List UInt8} (hf : Focus d h s o)
      (hi : s.frags[h.fragId.toNat]? = some (some b)) : Fed d h bytes .pending (s :: o)
  /-- The packet would be too large: it is dropped. -/
  | oversize {s : Slot} {o : List Slot} (hf : Focus d h s o) (hi : s.frags[h.fragId.toNat]? = some none)
      (htotal : MAX_TOTAL < s.totalLen + bytes.length) : Fed d h bytes .rejected o
  /-- The fragment is stored. -/
  | stored {s : Slot} {o : List Slot} (hf : Focus d h s o) (hi : s.frags[h.fragId.toNat]? = some none)
      (htotal : s.totalLen + bytes.length ≤ MAX_TOTAL) (hmissing : s.received + 1 < s.frags.length) :
      Fed d h bytes .pending (s.put h.fragId.toNat bytes :: o)
  /-- The last fragment: the packet is complete. -/
  | complete {s : Slot} {o : List Slot} (hf : Focus d h s o) (hi : s.frags[h.fragId.toNat]? = some none)
      (htotal : s.totalLen + bytes.length ≤ MAX_TOTAL) (hall : s.frags.length ≤ s.received + 1) :
      Fed d h bytes (.complete (s.put h.fragId.toNat bytes).assembled) o

theorem Focus.length {d : Defrag} {h : UdpMsgHdr} {s : Slot} {o : List Slot} (hf : Focus d h s o) :
    s.frags.length = h.fragCount.toNat := by
  cases hf with
  | old _ _ hlen => exact hlen
  | room => simp [Slot.fresh]
  | evict => simp [Slot.fresh]

/-- A fragment of several: its index is below its count. -/
structure Multi (h : UdpMsgHdr) : Prop where
  /-- There are several. -/
  two_le : 2 ≤ h.fragCount.toNat
  /-- The index is one of them. -/
  lt : h.fragId.toNat < h.fragCount.toNat

/-- What `store` does with the slot it is given. -/
theorem store_spec {d d₀ : Defrag} {h : UdpMsgHdr} {bytes : List UInt8} {i : ℕ} {s : Slot} {o : List Slot}
    (hm : Multi h) (hi : i < d.slots.length) (hs : d.slots[i]? = some s) (ho : (d.slots.eraseIdx i).Perm o)
    (hf : Focus d₀ h s o) :
    ∃ r l l', d.store i h bytes = some (r, ⟨l', d.seq⟩) ∧ Fed d₀ h bytes r l ∧ l'.Perm l := by
  have hlt : h.fragId.toNat < s.frags.length := by
    rw [hf.length]
    exact hm.lt
  have hrem : (swapRemove d.slots i).Perm o := (swapRemove_perm hi).trans ho
  cases hfi : s.frags[h.fragId.toNat]? with
  | none =>
    rw [List.getElem?_eq_none_iff] at hfi
    omega
  | some f =>
    simp only [Defrag.store, hs, hfi, Option.bind_eq_bind, Option.bind_some]
    cases f with
    | some b => exact ⟨_, _, _, rfl, .duplicate hf hfi, (perm_cons_eraseIdx hs).trans (ho.cons s)⟩
    | none =>
      simp only [Option.isSome_none, Bool.false_eq_true, if_false]
      split_ifs with htotal hmissing
      · exact ⟨_, _, _, rfl, .oversize hf hfi htotal, hrem⟩
      · refine ⟨_, _, _, rfl, .stored hf hfi (by omega) (by simpa [Slot.put] using hmissing), ?_⟩
        exact (List.set_perm_cons_eraseIdx hi _).trans (ho.cons _)
      · exact ⟨_, _, _, rfl, .complete hf hfi (by omega) (by simpa [Slot.put] using hmissing), hrem⟩

theorem lru_spec {slots : List Slot} (h : SLOTS ≤ slots.length) :
    ∃ i v, lru slots = some i ∧ slots[i]? = some v ∧ (slots.length = SLOTS → ∀ s ∈ slots, v.seq ≤ s.seq) := by
  cases hi : lru slots with
  | none => simp [lru, SLOTS] at hi
  | some i =>
    have hmem : i ∈ lru slots := hi
    have hlt : i < SLOTS := List.mem_range.mp (List.argmin_mem hmem)
    obtain ⟨v, hv⟩ : ∃ v, slots[i]? = some v := ⟨_, List.getElem?_eq_getElem (by omega)⟩
    refine ⟨i, v, rfl, hv, fun hlen s hs => ?_⟩
    obtain ⟨j, hj⟩ := List.mem_iff_getElem?.mp hs
    have hjlt : j < SLOTS := by
      have := (List.getElem?_eq_some_iff.mp hj).1
      omega
    have := List.le_of_mem_argmin (List.mem_range.mpr hjlt) hmem
    simpa [hv, hj] using this

/-- **What a feed does**: a bad header is rejected and a packet of one fragment passes, both
without a trace; any other fragment does what `Fed` lists. There is always a result: no
index is out of range. -/
theorem feed_spec (d : Defrag) (h : UdpMsgHdr) (bytes : List UInt8) :
    (¬Multi h ∧ ∃ r, d.feed h bytes = some (r, d) ∧ (∀ p, r = .complete p → h.fragCount = 1 ∧ p = bytes)) ∨
    (Multi h ∧ ∃ r l l', d.feed h bytes = some (r, ⟨l', d.seq + 1⟩) ∧ Fed d h bytes r l ∧ l'.Perm l) := by
  unfold Defrag.feed
  by_cases hbad : h.fragCount = 0 ∨ h.fragCount ≤ h.fragId
  · simp only [if_pos hbad]
    refine .inl ⟨fun hm => ?_, _, rfl, fun p hp => by cases hp⟩
    have := hm.lt
    rcases hbad with h0 | hle
    · rw [h0] at this
      simp at this
    · rw [UInt8.le_iff_toNat_le] at hle
      omega
  simp only [if_neg hbad]
  by_cases hone : h.fragCount = 1
  · simp only [if_pos hone]
    refine .inl ⟨fun hm => ?_, _, rfl, fun p hp => by cases hp; exact ⟨hone, rfl⟩⟩
    have := hm.two_le
    rw [hone] at this
    simp at this
  · simp only [if_neg hone]
    have hm : Multi h := by
      rw [not_or, UInt8.le_iff_toNat_le] at hbad
      have h0 : h.fragCount.toNat ≠ 0 := fun h0 => hbad.1 (UInt8.toNat_inj.mp h0)
      have h1 : h.fragCount.toNat ≠ 1 := fun h1 => hone (UInt8.toNat_inj.mp h1)
      exact ⟨by omega, by omega⟩
    refine .inr ⟨hm, ?_⟩
    cases hfind : d.slots.findIdx? fun s => s.packetId = h.packetId with
    | some i =>
      obtain ⟨hi, hid, -⟩ := List.findIdx?_eq_some_iff_getElem.mp hfind
      have hs : d.slots[i]? = some d.slots[i] := List.getElem?_eq_getElem hi
      have hid : (d.slots[i]).packetId = h.packetId := by simpa using hid
      have hp := perm_cons_eraseIdx hs
      simp only [hs, Option.bind_eq_bind, Option.bind_some]
      split_ifs with hlen
      · exact ⟨_, _, _, rfl, .mismatch hp hid hlen, swapRemove_perm hi⟩
      · refine store_spec hm (by simpa using hi) (by simp [hi]) ?_ (.old hp hid (not_not.mp hlen))
        rw [List.eraseIdx_set_eq]
    | none =>
      have hid : ∀ s ∈ d.slots, s.packetId ≠ h.packetId := by simpa using List.findIdx?_eq_none_iff.mp hfind
      dsimp only
      split_ifs with hroom
      · refine store_spec hm (by simp) (by simp) ?_ (.room hid hroom)
        simp [List.eraseIdx_append_of_length_le]
      · obtain ⟨i, v, hlru, hv, hmin⟩ := lru_spec (not_lt.mp hroom)
        have hi := (List.getElem?_eq_some_iff.mp hv).1
        simp only [hlru, Option.bind_eq_bind, Option.bind_some]
        refine store_spec hm (by simpa using hi) (by simp [hi]) ?_
          (.evict (perm_cons_eraseIdx hv) hid (not_lt.mp hroom) hmin)
        rw [List.eraseIdx_set_eq]

end MqProxy.Udp
