import MqProxy.Udp.DefragSafety
import Mathlib.Data.Finset.Card
import Mathlib.Data.List.Dedup

/-!
# Fragments come together again

The fragments that `split` emits, fed to a defragmenter in any order, repeated and mixed
with fragments of other packets, give the payload back at the feed that supplies the last
missing one. What carries the proof is that the packet's slot, once it is opened, stays
(`Mine`): it holds the pieces fed so far, and every slot that was touched after it
belongs to one of the other packets fed since it was opened. There are four slots, so the slot
could only be the least recently used one when four other packets were fed; with at most
three it is never the victim.
-/

namespace MqProxy.Udp

open MqProxy.Library

/-! ### Feeding a list -/

/-- The results of feeding a list of datagrams, and the state after it. -/
def Defrag.feedAll (d : Defrag) : List Datagram → Option (List Feed × Defrag)
  | [] => some ([], d)
  | f :: fs => do
    let (r, d) ← d.feed f.1 f.2
    let (rs, d) ← d.feedAll fs
    return (r :: rs, d)

variable {d d' : Defrag} {fs : List Datagram} {rs : List Feed}

theorem feedAll_cons {d'' : Defrag} {f : Datagram} {r : Feed}
    (hf : d.feed f.1 f.2 = some (r, d')) (hfs : d'.feedAll fs = some (rs, d'')) :
    d.feedAll (f :: fs) = some (r :: rs, d'') := by
  simp [Defrag.feedAll, hf, hfs]

theorem feedAll_append {d'' : Defrag} {gs : List Datagram} {rs' : List Feed}
    (hfs : d.feedAll fs = some (rs, d')) (hgs : d'.feedAll gs = some (rs', d'')) :
    d.feedAll (fs ++ gs) = some (rs ++ rs', d'') := by
  induction fs generalizing d rs with
  | nil =>
    simp only [Defrag.feedAll, Option.some.injEq, Prod.mk.injEq] at hfs
    obtain ⟨rfl, rfl⟩ := hfs
    exact hgs
  | cons f fs ih =>
    simp only [Defrag.feedAll, Option.bind_eq_bind, Option.bind_eq_some_iff] at hfs
    obtain ⟨⟨r, d₁⟩, hf, ⟨rs₁, d₂⟩, hrest, heq⟩ := hfs
    simp only [pure, Option.some.injEq, Prod.mk.injEq] at heq
    obtain ⟨rfl, rfl⟩ := heq
    exact feedAll_cons hf (ih hrest)

/-- A feed keeps the table well formed, and has a result. -/
theorem feed_table (d : Defrag) (ht : Table d.seq d.slots) (f : Datagram) :
    ∃ r d', d.feed f.1 f.2 = some (r, d') ∧ Table d'.seq d'.slots := by
  rcases feed_spec d f.1 f.2 with ⟨-, r, hr, -⟩ | ⟨hm, r, l, l', hr, hfed, hp⟩
  · exact ⟨r, d, hr, ht⟩
  · exact ⟨r, _, hr, (hfed.table hm ht).perm hp.symm⟩

theorem feedAll_table (ht : Table d.seq d.slots) (fs : List Datagram) :
    ∃ rs d', d.feedAll fs = some (rs, d') ∧ rs.length = fs.length ∧ Table d'.seq d'.slots := by
  induction fs generalizing d with
  | nil => exact ⟨[], d, rfl, rfl, ht⟩
  | cons f fs ih =>
    obtain ⟨r, d', hf, ht'⟩ := feed_table d ht f
    obtain ⟨rs, d'', hfs, hlen, ht''⟩ := ih ht'
    exact ⟨r :: rs, d'', feedAll_cons hf hfs, by simp [hlen], ht''⟩

/-- A feed opens no slot but one of its own packet. -/
theorem Fed.packetId {h : UdpMsgHdr} {bytes : List UInt8} {r : Feed} {l : List Slot}
    (hfed : Fed d h bytes r l) (hm : Multi h) (ht : Table d.seq d.slots) :
    ∀ s ∈ l, s ∈ d.slots ∨ s.packetId = h.packetId := by
  have hrest : ∀ {s o}, Focus d h s o → ∀ x ∈ o, x ∈ d.slots ∨ x.packetId = h.packetId :=
    fun hf x hx => .inl ((hf.focused hm ht).mem x hx)
  cases hfed with
  | mismatch hp hid hlen => exact fun x hx => .inl (hp.mem_iff.mpr (List.mem_cons_of_mem _ hx))
  | duplicate hf hi => exact List.forall_mem_cons.mpr ⟨.inr (hf.focused hm ht).packetId, hrest hf⟩
  | oversize hf hi htotal => exact hrest hf
  | stored hf hi htotal hmissing => exact List.forall_mem_cons.mpr ⟨.inr (hf.focused hm ht).packetId, hrest hf⟩
  | complete hf hi htotal hall => exact hrest hf

variable {packetId : UInt16}

/-- Feeds of other packets open no slot of this one. -/
theorem not_holds_of_others (hfs : ∀ f ∈ fs, f.1.packetId ≠ packetId)
    (ht : Table d.seq d.slots) (hd : ¬d.Holds packetId)
    (hrun : d.feedAll fs = some (rs, d')) : ¬d'.Holds packetId := by
  induction fs generalizing d rs with
  | nil =>
    simp only [Defrag.feedAll, Option.some.injEq, Prod.mk.injEq] at hrun
    exact hrun.2 ▸ hd
  | cons f fs ih =>
    simp only [Defrag.feedAll, Option.bind_eq_bind, Option.bind_eq_some_iff] at hrun
    obtain ⟨⟨r, d₁⟩, hf, ⟨rs₁, d₂⟩, hrest, heq⟩ := hrun
    simp only [pure, Option.some.injEq, Prod.mk.injEq] at heq
    obtain ⟨-, rfl⟩ := heq
    have hfirst : Table d₁.seq d₁.slots ∧ ¬d₁.Holds packetId := by
      rcases feed_spec d f.1 f.2 with ⟨-, r', hr, -⟩ | ⟨hm, r', l, l', hr, hfed, hp⟩ <;> rw [hf] at hr <;> cases hr
      · exact ⟨ht, hd⟩
      · refine ⟨(hfed.table hm ht).perm hp.symm, fun ⟨s, hs, hid⟩ => ?_⟩
        rcases hfed.packetId hm ht s (hp.mem_iff.mp hs) with hs | hs
        · exact hd ⟨s, hs, hid⟩
        · exact hfs f List.mem_cons_self (hs.symm.trans hid)
    exact ih (fun g hg => hfs g (List.mem_cons_of_mem _ hg)) hfirst.1 hfirst.2 hrest

/-- A packet of one fragment passes. -/
theorem feed_single (d : Defrag) {h : UdpMsgHdr} (hc : h.fragCount = 1) (hi : h.fragId = 0) (bytes : List UInt8) :
    d.feed h bytes = some (.complete bytes, d) := by
  rw [Defrag.feed, if_neg (by rw [hc, hi]; decide), if_pos hc]

/-- How many of the feeds of a packet completed it. -/
def completes (packetId : UInt16) (fs : List Datagram) (rs : List Feed) : ℕ :=
  (fs.zip rs).countP fun (f, r) => f.1.packetId = packetId && (match r with | .complete _ => true | _ => false)

theorem completes_append {gs : List Datagram} {rs' : List Feed} (h : fs.length = rs.length) :
    completes packetId (fs ++ gs) (rs ++ rs') = completes packetId fs rs + completes packetId gs rs' := by
  rw [completes, List.zip_append h, List.countP_append]
  rfl

/-- Feeds of other packets complete nothing of this one. -/
theorem completes_of_others (h : ∀ f ∈ fs, f.1.packetId ≠ packetId)
    (rs : List Feed) : completes packetId fs rs = 0 := by
  rw [completes, List.countP_eq_zero]
  rintro ⟨f, r⟩ hmem
  simp [h f (List.of_mem_zip hmem).1]

/-! ### The packet's slot -/

section Packet

variable (pid : UInt16) (cs : List (List UInt8))

/-- The packet's fragment `i` is among the feeds. -/
def got (seg : List Datagram) (i : ℕ) : Bool := seg.any fun f => f.1.packetId = pid && f.1.fragId.toNat = i

/-- The pieces that are among the feeds. -/
def gathered (seg : List Datagram) : List (Option (List UInt8)) :=
  cs.mapIdx fun i c => if got pid seg i then some c else none

/-- The other packets among the feeds. -/
def others (seg : List Datagram) : Finset UInt16 := (seg.map (·.1.packetId)).toFinset.erase pid

/-- **The packet's slot stays**: it holds the pieces fed so far, and what was touched after it
belongs to packets fed since. -/
structure Mine (slots : List Slot) (seg : List Datagram) : Prop where
  holds : ∃ s ∈ slots, s.packetId = pid
  frags : ∀ s ∈ slots, s.packetId = pid → s.frags = gathered pid cs seg
  recent : ∀ s ∈ slots, s.packetId = pid → ∀ x ∈ slots, s.seq < x.seq → x.packetId ∈ seg.map (·.1.packetId)

variable {pid cs}

theorem got_snoc (seg : List Datagram) (f : Datagram) (i : ℕ) :
    got pid (seg ++ [f]) i = (got pid seg i || (f.1.packetId = pid && f.1.fragId.toNat = i)) := by
  simp [got]

variable {f : Datagram}

variable {seg : List Datagram}

theorem got_snoc_other (hf : f.1.packetId ≠ pid) (i : ℕ) : got pid (seg ++ [f]) i = got pid seg i := by
  rw [got_snoc]
  simp [hf]

theorem gathered_snoc_other (hf : f.1.packetId ≠ pid) : gathered pid cs (seg ++ [f]) = gathered pid cs seg := by
  simp only [gathered, got_snoc_other hf]

@[simp] theorem length_gathered (seg : List Datagram) : (gathered pid cs seg).length = cs.length := by
  simp [gathered]

theorem gathered_getElem? (seg : List Datagram) (i : ℕ) :
    (gathered pid cs seg)[i]? = (cs[i]?).map fun c => if got pid seg i then some c else none := by
  simp [gathered, List.getElem?_mapIdx]

variable {s : Slot}

/-- A slot that holds the pieces holds no more than the payload. -/
theorem held_le (h : s.frags = gathered pid cs seg) : s.held ≤ cs.flatten.length := by
  rw [Slot.held, h, gathered, List.length_flatten]
  refine List.Forall₂.sum_le_sum ?_
  rw [List.forall₂_iff_get]
  refine ⟨by simp, fun i hi hi' => ?_⟩
  simp only [List.get_eq_getElem, List.getElem_map, List.getElem_mapIdx]
  split <;> simp

/-- Not all the pieces are there while one is missing. -/
theorem countP_gathered_lt {i : ℕ} (hi : i < cs.length) (hmiss : got pid seg i = false) :
    (gathered pid cs seg).countP Option.isSome < cs.length := by
  have hlen : (gathered pid cs seg).length = cs.length := length_gathered seg
  rw [← hlen] at hi ⊢
  refine lt_of_le_of_ne List.countP_le_length fun hall => ?_
  have := (List.countP_eq_length.mp hall) _ (List.getElem_mem hi)
  simp [gathered, hmiss] at this

/-- All the pieces together. -/
theorem gathered_all (hall : ∀ i < cs.length, got pid seg i = true) : gathered pid cs seg = cs.map some := by
  apply List.ext_getElem?
  intro i
  rw [gathered_getElem?, List.getElem?_map]
  cases hc : cs[i]? with
  | none => rfl
  | some c =>
    have hi := (List.getElem?_eq_some_iff.mp hc).1
    simp [hall i hi]

theorem Mine.perm {slots slots' : List Slot} (h : Mine pid cs slots seg)
    (hp : slots'.Perm slots) : Mine pid cs slots' seg where
  holds := h.holds.imp fun _ hs => ⟨hp.mem_iff.mpr hs.1, hs.2⟩
  frags := fun s hs => h.frags s (hp.mem_iff.mp hs)
  recent := fun s hs hid x hx => h.recent s (hp.mem_iff.mp hs) hid x (hp.mem_iff.mp hx)

/-! ### A feed of another packet -/

variable {d : Defrag} {o : List Slot}

/-- The least recently used slot is not the packet's: else the three slots touched after it,
and the new one, would be of four other packets. -/
theorem victim_ne {v : Slot}
    (hmine : Mine pid cs d.slots seg) (ht : Table d.seq d.slots) (hp : d.slots.Perm (v :: o))
    (hid : ∀ s ∈ d.slots, s.packetId ≠ f.1.packetId) (hfull : SLOTS ≤ d.slots.length)
    (hlru : d.slots.length = SLOTS → ∀ s ∈ d.slots, v.seq ≤ s.seq) (hne : f.1.packetId ≠ pid)
    (hfew : (others pid (seg ++ [f])).card ≤ 3) : v.packetId ≠ pid := by
  intro hv
  have hmem : ∀ x ∈ v :: o, x ∈ d.slots := fun x hx => hp.mem_iff.mpr hx
  have ht' := ht.perm hp
  have hlen : d.slots.length = SLOTS := le_antisymm ht.length_le hfull
  have ho : o.length = 3 := by
    have := hp.length_eq
    rw [hlen, List.length_cons, SLOTS] at this
    omega
  -- the slots after the victim are of packets fed since the slot was opened
  have hafter : ∀ x ∈ o, x.packetId ∈ seg.map (·.1.packetId) := by
    intro x hx
    refine hmine.recent v (hmem v List.mem_cons_self) hv x (hmem x (List.mem_cons_of_mem _ hx)) ?_
    refine lt_of_le_of_ne (hlru hlen x (hmem x (List.mem_cons_of_mem _ hx))) fun heq => ?_
    exact (List.nodup_cons.mp ht'.stamps).1 (List.mem_map.mpr ⟨x, hx, heq.symm⟩)
  have hnodup : (f.1.packetId :: o.map Slot.packetId).Nodup := by
    refine List.nodup_cons.mpr ⟨fun hmem' => ?_, (List.nodup_cons.mp ht'.ids).2⟩
    obtain ⟨x, hx, hxf⟩ := List.mem_map.mp hmem'
    exact hid x (hmem x (List.mem_cons_of_mem _ hx)) hxf
  have hsub : (f.1.packetId :: o.map Slot.packetId).toFinset ⊆ others pid (seg ++ [f]) := by
    intro q hq
    rw [List.mem_toFinset, List.mem_cons] at hq
    simp only [others, List.map_append, List.map_cons, List.map_nil, Finset.mem_erase, List.mem_toFinset,
      List.mem_append, List.mem_singleton]
    rcases hq with rfl | hq
    · exact ⟨hne, .inr rfl⟩
    · obtain ⟨x, hx, rfl⟩ := List.mem_map.mp hq
      exact ⟨hv ▸ others_ne ht' x hx, .inl (hafter x hx)⟩
  have := Finset.card_le_card hsub
  rw [List.toFinset_card_of_nodup hnodup, List.length_cons, List.length_map, ho] at this
  omega

/-- The packet's slot is not touched by a feed of another packet. -/
theorem Mine.kept (hmine : Mine pid cs d.slots seg) (ht : Table d.seq d.slots) (hne : f.1.packetId ≠ pid)
    (hfew : (others pid (seg ++ [f])).card ≤ 3) (hf : Focus d f.1 s o) :
    ∀ x ∈ d.slots, x.packetId = pid → x ∈ o := by
  intro x hx hxp
  have hmem : ∀ {v : Slot} {o : List Slot}, d.slots.Perm (v :: o) → v.packetId ≠ pid → x ∈ o := by
    intro v o hp hv
    rcases List.mem_cons.mp (hp.mem_iff.mp hx) with rfl | hxo
    · exact absurd hxp hv
    · exact hxo
  cases hf with
  | old hp hid hlen => exact hmem hp (hid ▸ hne)
  | room hid hroom => exact hx
  | evict hp hid hfull hlru => exact hmem hp (victim_ne hmine ht hp hid hfull hlru hne hfew)

/-- The slots that a feed of another packet leaves, but for its own. -/
theorem Mine.rest (hmine : Mine pid cs d.slots seg)
    (hne : f.1.packetId ≠ pid) (hsub : ∀ x ∈ o, x ∈ d.slots) (hkept : ∀ x ∈ d.slots, x.packetId = pid → x ∈ o) :
    Mine pid cs o (seg ++ [f]) where
  holds := by
    obtain ⟨s, hs, hid⟩ := hmine.holds
    exact ⟨s, hkept s hs hid, hid⟩
  frags := fun s hs hid => by rw [gathered_snoc_other hne]; exact hmine.frags s (hsub s hs) hid
  recent := by
    intro s hs hid x hx hlt
    rw [List.map_append]
    exact List.mem_append_left _ (hmine.recent s (hsub s hs) hid x (hsub x hx) hlt)

/-- The slot of another packet beside them. -/
theorem Mine.cons (hmine : Mine pid cs o seg)
    (hne : s.packetId ≠ pid) (hfed : s.packetId ∈ seg.map (·.1.packetId)) : Mine pid cs (s :: o) seg where
  holds := hmine.holds.imp fun _ hs => ⟨List.mem_cons_of_mem _ hs.1, hs.2⟩
  frags := by
    rintro x (_ | ⟨_, hx⟩) hid
    · exact absurd hid hne
    · exact hmine.frags x hx hid
  recent := by
    rintro x (_ | ⟨_, hx⟩) hid y (_ | ⟨_, hy⟩) hlt
    · exact absurd hid hne
    · exact absurd hid hne
    · exact hfed
    · exact hmine.recent x hx hid y hy hlt

/-- **A feed of another packet** leaves the packet's slot. -/
theorem Mine.other (hmine : Mine pid cs d.slots seg)
    (ht : Table d.seq d.slots) (hne : f.1.packetId ≠ pid) (hfew : (others pid (seg ++ [f])).card ≤ 3) :
    ∃ r d', d.feed f.1 f.2 = some (r, d') ∧ Table d'.seq d'.slots ∧ Mine pid cs d'.slots (seg ++ [f]) := by
  have hin : f.1.packetId ∈ (seg ++ [f]).map (·.1.packetId) := by simp
  rcases feed_spec d f.1 f.2 with ⟨-, r, hr, -⟩ | ⟨hm, r, l, l', hr, hfed, hp⟩
  · exact ⟨r, d, hr, ht, hmine.rest hne (fun x hx => hx) fun x hx _ => hx⟩
  · refine ⟨r, _, hr, (hfed.table hm ht).perm hp.symm, Mine.perm ?_ hp⟩
    have hrest : ∀ {s o}, Focus d f.1 s o → Mine pid cs o (seg ++ [f]) :=
      fun hf => hmine.rest hne (hf.focused hm ht).mem (hmine.kept ht hne hfew hf)
    cases hfed with
    | @mismatch s o hp hid hlen =>
      refine hmine.rest hne (fun x hx => hp.mem_iff.mpr (List.mem_cons_of_mem _ hx)) fun x hx hxp => ?_
      rcases List.mem_cons.mp (hp.mem_iff.mp hx) with rfl | hxo
      · exact absurd (hid.symm.trans hxp) hne
      · exact hxo
    | duplicate hf hi =>
      have hid := (hf.focused hm ht).packetId
      exact (hrest hf).cons (hid ▸ hne) (hid ▸ hin)
    | oversize hf hi htotal => exact hrest hf
    | stored hf hi htotal hmissing =>
      have hid := (hf.focused hm ht).packetId
      exact (hrest hf).cons (show _ ≠ pid from hid ▸ hne) (show _ ∈ _ from hid ▸ hin)
    | complete hf hi htotal hall => exact hrest hf

/-! ### A feed of the packet -/

/-- A fragment of the packet: it carries the piece of its index. -/
structure Piece (pid : UInt16) (cs : List (List UInt8)) (f : Datagram) : Prop where
  packetId : f.1.packetId = pid
  count : f.1.fragCount.toNat = cs.length
  bytes : cs[f.1.fragId.toNat]? = some f.2

theorem Piece.multi (hf : Piece pid cs f) (htwo : 2 ≤ cs.length) : Multi f.1 :=
  ⟨hf.count ▸ htwo, hf.count ▸ (List.getElem?_eq_some_iff.mp hf.bytes).1⟩

theorem got_snoc_piece (hf : Piece pid cs f) (i : ℕ) :
    got pid (seg ++ [f]) i = (got pid seg i || decide (f.1.fragId.toNat = i)) := by
  rw [got_snoc, hf.packetId]
  simp

/-- What is there before a feed of the packet: its slot with the pieces so far, or none. -/
structure Ready (pid : UInt16) (cs : List (List UInt8)) (d : Defrag) (seg : List Datagram) : Prop where
  frags : ∀ s ∈ d.slots, s.packetId = pid → s.frags = gathered pid cs seg
  absent : (∀ s ∈ d.slots, s.packetId ≠ pid) → ∀ i, got pid seg i = false

theorem Mine.ready (h : Mine pid cs d.slots seg) : Ready pid cs d seg where
  frags := h.frags
  absent := fun hnone => by
    obtain ⟨s, hs, hid⟩ := h.holds
    exact absurd hid (hnone s hs)

/-- The slot the feed is for holds the pieces so far. -/
theorem Focus.gathered
    (hr : Ready pid cs d seg) (hp : Piece pid cs f) (hf : Focus d f.1 s o) : s.frags = gathered pid cs seg := by
  have hfresh : (∀ s ∈ d.slots, s.packetId ≠ f.1.packetId) → ∀ seq, (Slot.fresh f.1 seq).frags = Udp.gathered pid cs seg := by
    intro hid seq
    have hnone := hr.absent (hp.packetId ▸ hid)
    simp only [Slot.fresh, Udp.gathered, hnone, hp.count, Bool.false_eq_true, if_false]
    exact (List.eq_replicate_iff.mpr ⟨by simp, by simp⟩).symm
  cases hf with
  | @old s₀ _ hperm hid hlen => exact hr.frags s₀ (hperm.mem_iff.mpr List.mem_cons_self) (hid.trans hp.packetId)
  | room hid hroom => exact hfresh hid _
  | evict hperm hid hfull hlru => exact hfresh hid _

/-- A missing piece is stored in its place. -/
theorem put_gathered (hp : Piece pid cs f) (hs : s.frags = gathered pid cs seg) :
    (s.put f.1.fragId.toNat f.2).frags = gathered pid cs (seg ++ [f]) := by
  apply List.ext_getElem?
  intro i
  have hlt := (List.getElem?_eq_some_iff.mp hp.bytes).1
  simp only [Slot.put, hs]
  rw [gathered_getElem?, got_snoc_piece hp]
  by_cases he : f.1.fragId.toNat = i
  · subst he
    rw [List.getElem?_set_self (by rw [length_gathered]; exact hlt), hp.bytes]
    simp
  · rw [List.getElem?_set_ne he, gathered_getElem?]
    simp [he]

/-- After a feed of the packet its slot is the last one touched. -/
theorem Mine.touched {h : UdpMsgHdr} {s' : Slot}
    (hfo : Focused d h s o) (hid : h.packetId = pid) (hid' : s'.packetId = s.packetId) (hseq' : s'.seq = s.seq)
    (hs' : s'.frags = gathered pid cs seg) : Mine pid cs (s' :: o) seg where
  holds := ⟨s', List.mem_cons_self, by rw [hid', hfo.packetId, hid]⟩
  frags := by
    rintro x (_ | ⟨_, hx⟩) hxid
    · exact hs'
    · exact absurd (hxid.trans hid.symm) (hfo.others x hx)
  recent := by
    rintro x (_ | ⟨_, hx⟩) hxid y (_ | ⟨_, hy⟩) hlt
    · exact absurd hlt (lt_irrefl _)
    · have := hfo.table.le_seq y hy
      rw [hseq', hfo.seq] at hlt
      omega
    · exact absurd (hxid.trans hid.symm) (hfo.others x hx)
    · exact absurd (hxid.trans hid.symm) (hfo.others x hx)

/-- **A feed of the packet** is pending while a piece is missing, and gives the payload when
it brings the last one. -/
theorem Ready.feed (hr : Ready pid cs d seg)
    (ht : Table d.seq d.slots) (hp : Piece pid cs f) (htwo : 2 ≤ cs.length) (hmax : cs.flatten.length ≤ MAX_TOTAL) :
    ∃ r d', d.feed f.1 f.2 = some (r, d') ∧ Table d'.seq d'.slots ∧
      ((∃ i < cs.length, got pid (seg ++ [f]) i = false) → r = .pending ∧ Mine pid cs d'.slots (seg ++ [f])) ∧
      ((∀ i < cs.length, got pid (seg ++ [f]) i = true) → got pid seg f.1.fragId.toNat = false →
        r = .complete cs.flatten) := by
  have hm := hp.multi htwo
  rcases feed_spec d f.1 f.2 with ⟨hm', -⟩ | ⟨-, r, l, l', hfeed, hfed, hperm⟩
  · exact absurd hm hm'
  refine ⟨r, _, hfeed, (hfed.table hm ht).perm hperm.symm, ?_⟩
  -- what the slot of the feed holds, and how many pieces it has then
  have hmissing : ∀ {s o}, Focus d f.1 s o → s.frags[f.1.fragId.toNat]? = some none →
      (s.put f.1.fragId.toNat f.2).frags = gathered pid cs (seg ++ [f]) ∧
      s.received + 1 = (gathered pid cs (seg ++ [f])).countP Option.isSome ∧
      s.totalLen + f.2.length ≤ MAX_TOTAL ∧ s.frags.length = cs.length := by
    intro s o hf hi
    have hs := hf.gathered hr hp
    have hok := (hf.focused hm ht).ok
    have hput := put_gathered hp hs
    refine ⟨hput, ?_, ?_, by rw [hs, length_gathered]⟩
    · rw [← hput, countP_put hi, hok.received]
    · rw [hok.total, ← held_put hi]
      exact (held_le hput).trans hmax
  cases hfed with
  | mismatch hperm' hid hlen =>
    refine absurd ?_ hlen
    rw [hr.frags _ (hperm'.mem_iff.mpr List.mem_cons_self) (hid.trans hp.packetId), length_gathered, hp.count]
  | @duplicate s _ b hf hi =>
    have hs := hf.gathered hr hp
    have hgot : got pid seg f.1.fragId.toNat = true := by
      rw [hs, gathered_getElem?, hp.bytes] at hi
      exact (show got pid seg f.1.fragId.toNat = true ∧ f.2 = b by simpa using hi).1
    have hsame : gathered pid cs (seg ++ [f]) = gathered pid cs seg := by
      simp only [Udp.gathered, got_snoc_piece hp]
      congr 1
      funext i c
      by_cases he : f.1.fragId.toNat = i
      · simp [← he, hgot]
      · simp [he]
    exact ⟨fun _ => ⟨rfl, (Mine.touched (hf.focused hm ht) hp.packetId rfl rfl (hs.trans hsame.symm)).perm hperm⟩,
      fun _ hno => by rw [hgot] at hno; cases hno⟩
  | oversize hf hi htotal =>
    have := (hmissing hf hi).2.2.1
    omega
  | @stored s o hf hi htotal hless =>
    obtain ⟨hput, hcount, -, hlen⟩ := hmissing hf hi
    have hmine : Mine pid cs (s.put f.1.fragId.toNat f.2 :: o) (seg ++ [f]) :=
      Mine.touched (hf.focused hm ht) hp.packetId rfl rfl hput
    refine ⟨fun _ => ⟨rfl, hmine.perm hperm⟩, fun hall _ => ?_⟩
    have hfull : (cs.map some).countP Option.isSome = (cs.map some).length := List.countP_eq_length.mpr (by simp)
    rw [gathered_all hall, hfull, List.length_map] at hcount
    omega
  | complete hf hi htotal hall =>
    obtain ⟨hput, hcount, -, hlen⟩ := hmissing hf hi
    refine ⟨fun ⟨i, hi, hmiss⟩ => ?_, fun hgot _ => ?_⟩
    · have := countP_gathered_lt hi hmiss
      omega
    · rw [Slot.assembled, hput, gathered_all hgot]
      simp

/-! ### From the first fragment to the last missing one -/

theorem others_mono (seg : List Datagram) (f : Datagram) : others pid seg ⊆ others pid (seg ++ [f]) := by
  refine Finset.erase_subset_erase _ fun q hq => ?_
  rw [List.mem_toFinset] at hq ⊢
  rw [List.map_append]
  exact List.mem_append_left _ hq

/-- While a piece is missing, the feeds from the packet's first on complete nothing of it and
keep its slot. -/
theorem feedAll_segment (ht : Table d.seq d.slots) (hfresh : ∀ s ∈ d.slots, s.packetId ≠ pid)
    (htwo : 2 ≤ cs.length) (hmax : cs.flatten.length ≤ MAX_TOTAL) {k : ℕ} (hk : k < cs.length) (seg : List Datagram)
    (hfirst : ∀ f ∈ seg.head?, f.1.packetId = pid) (hown : ∀ f ∈ seg, f.1.packetId = pid → Piece pid cs f)
    (hfew : (others pid seg).card ≤ 3) (hmiss : got pid seg k = false) :
    ∃ rs d', d.feedAll seg = some (rs, d') ∧ rs.length = seg.length ∧ completes pid seg rs = 0 ∧
      Table d'.seq d'.slots ∧ Ready pid cs d' seg ∧ (seg ≠ [] → Mine pid cs d'.slots seg) := by
  induction seg using List.reverseRecOn with
  | nil =>
    refine ⟨[], d, rfl, rfl, rfl, ht, ⟨fun s hs hid => absurd hid (hfresh s hs), fun _ _ => rfl⟩, fun h => absurd rfl h⟩
  | append_singleton seg f ih =>
    have hmiss' : got pid seg k = false := by
      rw [got_snoc, Bool.or_eq_false_iff] at hmiss
      exact hmiss.1
    obtain ⟨rs, d', hrun, hlen, hzero, ht', hready, hmine⟩ := ih
      (fun g hg => hfirst g (by rw [List.head?_append, hg]; rfl))
      (fun g hg => hown g (List.mem_append_left _ hg)) ((Finset.card_le_card (others_mono seg f)).trans hfew) hmiss'
    have hstep : ∃ r d'', d'.feed f.1 f.2 = some (r, d'') ∧ Table d''.seq d''.slots ∧
        Mine pid cs d''.slots (seg ++ [f]) ∧ completes pid [f] [r] = 0 := by
      by_cases hid : f.1.packetId = pid
      · have hp := hown f (by simp) hid
        obtain ⟨r, d'', hfeed, ht'', hpend, -⟩ := hready.feed ht' hp htwo hmax
        obtain ⟨rfl, hmine'⟩ := hpend ⟨k, hk, hmiss⟩
        exact ⟨_, d'', hfeed, ht'', hmine', by simp [completes]⟩
      · -- the feeds begin with the packet's own
        have hne : seg ≠ [] := by
          rintro rfl
          exact hid (hfirst f rfl)
        obtain ⟨r, d'', hfeed, ht'', hmine'⟩ := (hmine hne).other ht' hid hfew
        exact ⟨r, d'', hfeed, ht'', hmine', completes_of_others (by simpa using hid) _⟩
    obtain ⟨r, d'', hfeed, ht'', hmine', hz⟩ := hstep
    refine ⟨rs ++ [r], d'', feedAll_append hrun (feedAll_cons hfeed rfl), by simp [hlen], ?_, ht'', hmine'.ready,
      fun _ => hmine'⟩
    rw [completes_append hlen.symm, hzero, hz]

end Packet

/-- How the fragments of a packet reach a defragmenter: `seg` from the first of them on,
mixed with fragments of other packets, then `last`, the last one missing, then `tail`. -/
structure Delivery (pid : UInt16) (frags seg : List Datagram) (last : Datagram) (tail : List Datagram) : Prop where
  /-- `seg` begins with a fragment of the packet. -/
  first : ∀ f ∈ seg.head?, f ∈ frags
  /-- What carries the packet's id is a fragment of it, in any order and any number of times. -/
  own : ∀ f ∈ seg, f.1.packetId = pid → f ∈ frags
  /-- At most three other packet ids occur. -/
  few : (others pid seg).card ≤ 3
  /-- `last` is a fragment of the packet. -/
  last_mem : last ∈ frags
  /-- It was missing. -/
  missing : ∀ f ∈ seg, f.1.packetId = pid → f.1.fragId ≠ last.1.fragId
  /-- No other one is. -/
  all : ∀ f ∈ frags, f ∈ seg ++ [last]
  /-- None of the packet's fragments is fed afterwards. -/
  after : ∀ f ∈ tail, f.1.packetId ≠ pid

section Split

variable {sid : UInt32} {pid : UInt16} {payload : List UInt8} {mss : ℕ}

/-- The fragments of a packet are its pieces. -/
theorem mem_split (hmss : 0 < mss) (hn : nfrags payload mss ≤ 255) {f : Datagram} :
    f ∈ (split sid pid payload mss).1 ↔
      ∃ i c, (pieces payload mss)[i]? = some c ∧ f = (fragHdr sid pid (nfrags payload mss) i, c) := by
  rw [split_eq hmss hn, List.mem_mapIdx]
  constructor
  · rintro ⟨i, hi, rfl⟩
    exact ⟨i, _, List.getElem?_eq_getElem hi, rfl⟩
  · rintro ⟨i, c, hc, rfl⟩
    obtain ⟨hi, rfl⟩ := List.getElem?_eq_some_iff.mp hc
    exact ⟨i, hi, rfl⟩

theorem piece_of_mem (hmss : 0 < mss) (hn : nfrags payload mss ≤ 255) {f : Datagram}
    (hf : f ∈ (split sid pid payload mss).1) : Piece pid (pieces payload mss) f := by
  obtain ⟨i, c, hc, rfl⟩ := (mem_split hmss hn).mp hf
  have hi := (List.getElem?_eq_some_iff.mp hc).1
  rw [length_pieces hmss] at hi
  have hcount : (UInt8.ofNat (nfrags payload mss)).toNat = nfrags payload mss :=
    UInt8.toNat_ofNat_of_lt' (show nfrags payload mss < 256 by omega)
  have hid : (UInt8.ofNat i).toNat = i := UInt8.toNat_ofNat_of_lt' (show i < 256 by omega)
  exact ⟨rfl, by rw [length_pieces hmss]; exact hcount, by rw [show (fragHdr sid pid _ i).fragId.toNat = i from hid]; exact hc⟩

/-- Every index is among the feeds once every fragment is. -/
theorem got_of_mem (hmss : 0 < mss) (hn : nfrags payload mss ≤ 255) {seg : List Datagram}
    (hall : ∀ f ∈ (split sid pid payload mss).1, f ∈ seg) {i : ℕ} (hi : i < (pieces payload mss).length) :
    got pid seg i = true := by
  have hmem : (fragHdr sid pid (nfrags payload mss) i, (pieces payload mss)[i]) ∈ (split sid pid payload mss).1 :=
    (mem_split hmss hn).mpr ⟨i, _, List.getElem?_eq_getElem hi, rfl⟩
  rw [length_pieces hmss] at hi
  have hid : (UInt8.ofNat i).toNat = i := UInt8.toNat_ofNat_of_lt' (show i < 256 by omega)
  rw [got, List.any_eq_true]
  exact ⟨_, hall _ hmem, by simp [fragHdr, hid]⟩

/-- The feeds up to the one that brings the last missing fragment. -/
theorem deliver (hmss : 0 < mss) (hn : nfrags payload mss ≤ 255) (hlen : payload.length ≤ MAX_TOTAL) {d : Defrag}
    (ht : Table d.seq d.slots) (hfresh : ∀ s ∈ d.slots, s.packetId ≠ pid) {seg : List Datagram} {last : Datagram}
    {tail : List Datagram} (hd : Delivery pid (split sid pid payload mss).1 seg last tail) :
    ∃ rs d' d'', d.feedAll seg = some (rs, d') ∧ rs.length = seg.length ∧ completes pid seg rs = 0 ∧
      d'.feed last.1 last.2 = some (.complete payload, d'') ∧ Table d''.seq d''.slots := by
  have hpiece : ∀ f ∈ (split sid pid payload mss).1, Piece pid (pieces payload mss) f := fun f hf => piece_of_mem hmss hn hf
  have hlast := hpiece last hd.last_mem
  have hk := (List.getElem?_eq_some_iff.mp hlast.bytes).1
  have hflat := flatten_pieces hmss payload
  have hmiss : got pid seg last.1.fragId.toNat = false := by
    rw [got, List.any_eq_false]
    intro f hf
    by_cases hid : f.1.packetId = pid
    · simpa [hid, UInt8.toNat_inj] using hd.missing f hf hid
    · simp [hid]
  by_cases htwo : 2 ≤ (pieces payload mss).length
  · obtain ⟨rs, d', hrun, hl, hzero, ht', hready, -⟩ := feedAll_segment ht hfresh htwo (by rw [hflat]; exact hlen) hk seg
      (fun f hf => (hpiece f (hd.first f hf)).packetId) (fun f hf hid => hpiece f (hd.own f hf hid)) hd.few hmiss
    obtain ⟨r, d'', hfeed, ht'', -, hdone⟩ := hready.feed ht' hlast htwo (by rw [hflat]; exact hlen)
    have := hdone (fun i hi => got_of_mem hmss hn hd.all hi) hmiss
    rw [hflat] at this
    exact ⟨rs, d', d'', hrun, hl, hzero, this ▸ hfeed, ht''⟩
  · -- a packet of one fragment, which is `last`
    have hone : (pieces payload mss).length = 1 := by omega
    have hzero : last.1.fragId.toNat = 0 := by omega
    have hseg : seg = [] := by
      cases seg with
      | nil => rfl
      | cons f fs =>
        have hf := hpiece f (hd.first f rfl)
        have := (List.getElem?_eq_some_iff.mp hf.bytes).1
        have hid : f.1.fragId.toNat = 0 := by omega
        exact absurd (UInt8.toNat_inj.mp (hid.trans hzero.symm)) (hd.missing f List.mem_cons_self hf.packetId)
    subst hseg
    have hbytes : last.2 = payload := by
      obtain ⟨c, hc⟩ := List.length_eq_one_iff.mp hone
      have hb := hlast.bytes
      rw [hc] at hb hflat
      rw [hzero] at hb
      simp only [List.getElem?_cons_zero, Option.some.injEq] at hb
      rw [← hb, ← hflat]
      simp
    have hcount : last.1.fragCount = 1 := UInt8.toNat_inj.mp (hlast.count.trans hone)
    have hid : last.1.fragId = 0 := UInt8.toNat_inj.mp hzero
    exact ⟨[], d, d, rfl, rfl, rfl, hbytes ▸ feed_single d hcount hid last.2, ht⟩

end Split

/-- **Fragmentation and reassembly.** `split` emits nothing and reports the error when the
fragment size is zero or more than 255 fragments would be needed. Otherwise its fragments,
fed after any feeds `pre` that left no slot of the packet's id (as feeds of other packets
never do, `not_holds_of_others`), in any order and with any
repetitions, mixed with fragments of at most three other packets, give the payload back at
the feed that supplies the last missing one, and complete the packet exactly once. -/
theorem split_reassembles (sid : UInt32) (pid : UInt16) (payload : List UInt8) (mss : ℕ) :
    (mss = 0 → split sid pid payload mss = ([], .error .zeroMss)) ∧
    (0 < mss → 255 < nfrags payload mss → split sid pid payload mss = ([], .error .tooManyFrags)) ∧
    (0 < mss → nfrags payload mss ≤ 255 → payload.length ≤ MAX_TOTAL →
      (split sid pid payload mss).2 = .ok () ∧
      ∀ pre rs₀ d, Defrag.new.feedAll pre = some (rs₀, d) → ¬d.Holds pid →
      ∀ seg last tail, Delivery pid (split sid pid payload mss).1 seg last tail →
        ∃ rs d', d.feedAll (seg ++ last :: tail) = some (rs, d') ∧ rs[seg.length]? = some (.complete payload) ∧
          completes pid (seg ++ last :: tail) rs = 1) := by
  refine ⟨fun h => if_pos h, fun hmss hn => ?_, fun hmss hn hlen => ⟨by rw [split_eq hmss hn], ?_⟩⟩
  · rw [split, if_neg (by omega), if_pos hn]
  · intro pre rs₀ d hpre hfresh seg last tail hd
    have hnew : Table Defrag.new.seq Defrag.new.slots :=
      ⟨Nat.zero_le _, List.nodup_nil, List.nodup_nil, by simp [Defrag.new], by simp [Defrag.new]⟩
    obtain ⟨_, _, hrun₀, -, ht⟩ := feedAll_table hnew pre
    rw [hpre] at hrun₀
    cases hrun₀
    obtain ⟨rs, d', d'', hrun, hl, hzero, hfeed, ht''⟩ :=
      deliver hmss hn hlen ht (fun s hs hid => hfresh ⟨s, hs, hid⟩) hd
    obtain ⟨rs', d₃, htail, -⟩ := feedAll_table ht'' tail
    refine ⟨rs ++ .complete payload :: rs', d₃, feedAll_append hrun (feedAll_cons hfeed htail), ?_, ?_⟩
    · rw [← hl, List.getElem?_append_right le_rfl, Nat.sub_self]
      rfl
    · have hlast := (piece_of_mem hmss hn hd.last_mem).packetId
      rw [completes_append hl.symm, hzero, Nat.zero_add,
        show last :: tail = [last] ++ tail from rfl,
        show Feed.complete payload :: rs' = [Feed.complete payload] ++ rs' from rfl, completes_append rfl,
        completes_of_others hd.after]
      simp [completes, hlast]

/-- Two fragments, the second first, with a fragment of another packet between them. -/
theorem split_reassembles_swapped :
    ∃ rs d', Defrag.new.feedAll
        ([(fragHdr 1 7 2 1, [3]), (fragHdr 1 8 2 0, [9])] ++ (fragHdr 1 7 2 0, [1, 2]) :: []) = some (rs, d') ∧
      rs[2]? = some (.complete [1, 2, 3]) ∧
      completes 7 ([(fragHdr 1 7 2 1, [3]), (fragHdr 1 8 2 0, [9])] ++ (fragHdr 1 7 2 0, [1, 2]) :: []) rs = 1 := by
  have hn : nfrags [1, 2, 3] 2 = 2 := by decide
  have hsplit : (split 1 7 [1, 2, 3] 2).1 = [(fragHdr 1 7 2 0, [1, 2]), (fragHdr 1 7 2 1, [3])] := by
    rw [split_eq (by decide) (by decide), hn]
    simp [pieces, chunks]
  refine ((split_reassembles 1 7 [1, 2, 3] 2).2.2 (by decide) (by decide) (by decide)).2 [] [] Defrag.new rfl ?_ _ _ _ ?_
  · decide
  · rw [hsplit]
    constructor <;> decide

end MqProxy.Udp
