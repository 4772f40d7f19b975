import MqProxy.Udp.Reassembly

/-!
# Nothing is made up

The defragmenter of a session behind a network that loses, repeats and reorders datagrams, of any
number of packets at a time. **`defrag_integrity`**: what it hands on was sent, while no two packets
that are on their way have one id (an id has 16 bits, and comes again).
-/

namespace MqProxy.Udp

open MqProxy.Library

/-- A packet that `split` takes apart. -/
structure Sent where
  id : UInt16
  payload : List UInt8
  mss : ℕ
  room : 0 < mss
  count : nfrags payload mss ≤ 255

/-- What a feed completed: a packet of one fragment, or one that is made of the fragments `fs`. -/
def MadeBy (fs : List Datagram) (f : Datagram) (p : List UInt8) : Prop :=
  f ∈ fs ∧ (f.1.fragCount = 1 ∧ p = f.2 ∨ MadeOf fs f.1 p)

/-- **Fragments of one packet make up its payload.** -/
theorem MadeBy.eq_flatten {cs : List (List UInt8)} {fs : List Datagram} {f : Datagram} {p : List UInt8}
    (h : MadeBy fs f p) (hcs : ∀ g ∈ fs, g.1.packetId = f.1.packetId → Piece f.1.packetId cs g) : p = cs.flatten := by
  obtain ⟨hf, hp⟩ := h
  have hpiece := hcs f hf rfl
  rcases hp with ⟨hone, rfl⟩ | ⟨ps, hlen, hfirst, rfl⟩
  · obtain ⟨c, rfl⟩ := List.length_eq_one_iff.mp (hpiece.count.symm.trans (by rw [hone]; rfl))
    have hbytes := hpiece.bytes
    rw [List.getElem?_singleton] at hbytes
    split at hbytes
    · rw [← Option.some.inj hbytes, List.flatten_singleton]
    · cases hbytes
  · refine congrArg List.flatten (List.ext_getElem? fun i => ?_)
    by_cases hi : i < f.1.fragCount.toNat
    · -- the fragment of this index that the slot holds
      obtain ⟨g, hg, hps⟩ := Option.map_eq_some_iff.mp
        ((hfirst i hi).symm.trans (List.getElem?_eq_getElem (hlen.symm ▸ hi)))
      have hfrag : IsFrag f.1.packetId f.1.fragCount.toNat i g := by simpa using List.find?_some hg
      have hbytes := (hcs g (List.mem_of_find?_eq_some hg) hfrag.1).bytes
      rw [hfrag.2.2] at hbytes
      rw [hbytes, hps]
      exact List.getElem?_eq_getElem (hlen.symm ▸ hi)
    · rw [List.getElem?_eq_none (by omega), List.getElem?_eq_none (by rw [← hpiece.count]; omega)]

/-- **What is completed was fed**, over every list of feeds. -/
theorem feedAll_madeBy {P : Datagram → Prop} {t : Tracked} (ht : Table t.d.seq t.d.slots) (hc : Coupled t)
    (hsince : ∀ pid, ∀ g ∈ t.since pid, P g) {fs : List Datagram} (hfs : ∀ f ∈ fs, P f) :
    ∃ rs d, t.d.feedAll fs = some (rs, d) ∧ ∀ p, .complete p ∈ rs → ∃ gs f, MadeBy gs f p ∧ ∀ g ∈ gs, P g := by
  induction fs generalizing t with
  | nil => exact ⟨[], t.d, rfl, by simp⟩
  | cons f fs ih =>
    obtain ⟨hf, hfs⟩ := List.forall_mem_cons.mp hfs
    have hmore (pid : UInt16) : ∀ g ∈ t.since pid ++ [f], P g :=
      List.forall_mem_append.mpr ⟨hsince pid, List.forall_mem_singleton.mpr hf⟩
    obtain ⟨r, t', hfeed, ht', hc', hmade⟩ := Tracked.feed_spec ht hc f
    obtain ⟨⟨r, d⟩, hd, heq⟩ := Option.map_eq_some_iff.mp hfeed
    cases heq
    obtain ⟨rs, d', hrest, hps⟩ := ih ht' hc' (fun pid g hg => by
      simp only [Tracked.record] at hg
      split at hg
      · exact hmore pid g hg
      · cases hg) hfs
    refine ⟨r :: rs, d', feedAll_cons hd hrest, fun p hp => ?_⟩
    rcases List.mem_cons.mp hp with rfl | hp
    swap
    · exact hps p hp
    refine ⟨t.since f.1.packetId ++ [f], f, ⟨by simp, ?_⟩, hmore _⟩
    rcases feed_spec t.d f.1 f.2 with ⟨-, r, hr, hone⟩ | ⟨hm, -⟩
    · rw [hd] at hr
      cases hr
      exact .inl (hone p rfl)
    · exact .inr (hmade p rfl hm.two_le)

/-- **The defragmenter makes up nothing.** Whatever a network does to the fragments of the packets that
were sent, loss, repetition and any order and mixture of them included, no feed fails and
each packet that is completed is one that was sent, whole. -/
theorem defrag_integrity (sid : UInt32) (qs : List Sent) (hids : (qs.map Sent.id).Nodup) (net : List Datagram)
    (hnet : ∀ f ∈ net, ∃ q ∈ qs, f ∈ (split sid q.id q.payload q.mss).1) :
    ∃ rs d, Defrag.new.feedAll net = some (rs, d) ∧ ∀ p, .complete p ∈ rs → ∃ q ∈ qs, q.payload = p := by
  obtain ⟨t, hrun, ht, hc⟩ := Tracked.run_spec []
  cases hrun
  obtain ⟨rs, d, hfeeds, hmade⟩ := feedAll_madeBy ht hc (fun _ _ hg => absurd hg List.not_mem_nil) hnet
  refine ⟨rs, d, hfeeds, fun p hp => ?_⟩
  obtain ⟨gs, f, hby, hgs⟩ := hmade p hp
  obtain ⟨q, hq, hf⟩ := hgs f hby.1
  have hpiece := piece_of_mem q.room q.count hf
  have hpieces : ∀ g ∈ gs, g.1.packetId = f.1.packetId → Piece f.1.packetId (pieces q.payload q.mss) g := by
    intro g hg hid
    obtain ⟨q', hq', hg⟩ := hgs g hg
    have hpiece' := piece_of_mem q'.room q'.count hg
    -- the id says which packet it is
    obtain rfl : q' = q := List.inj_on_of_nodup_map hids hq' hq (hpiece'.packetId.symm.trans (hid.trans hpiece.packetId))
    rw [hpiece.packetId]
    exact hpiece'
  exact ⟨q, hq, by rw [hby.eq_flatten hpieces, flatten_pieces q.room]⟩

/-- Two fragments of one packet, the second first. -/
theorem defrag_integrity_swapped :
    ∃ rs d, Defrag.new.feedAll [(fragHdr 1 7 2 1, [3]), (fragHdr 1 7 2 0, [1, 2])] = some (rs, d) ∧
      ∀ p, .complete p ∈ rs → ∃ q ∈ [(⟨7, [1, 2, 3], 2, by decide, by decide⟩ : Sent)], q.payload = p := by
  refine defrag_integrity 1 _ (by decide) _ fun f hf => ⟨_, List.mem_singleton_self _, ?_⟩
  show f ∈ (split 1 7 [1, 2, 3] 2).1
  rw [split_eq (by decide) (by decide), show nfrags [1, 2, 3] 2 = 2 by decide]
  simpa [pieces, chunks, or_comm] using hf

end MqProxy.Udp
