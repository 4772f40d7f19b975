import Mathlib.Data.List.Rotate
import MqProxy.Client.ExchangeSpec
import MqProxy.Client.MitmConn

/-!
# The exchanges of the MITM front

A stream of a live connection holds an exchange until that leaves the table, and the table
names the stream as its owner. This is said of one connection at a time (`Bound`): its owners
are its streams, and no two of them have one id. A step of a stream keeps it (`Tracks`), so
does a pass over the streams, and each callback of the front keeps it for every connection
while the exchanges of fetches do not change hands (`Mitm.Keeps`).
-/

namespace MqProxy.Client

open MqProxy.Http
open MqProxy.Runtime (StreamError)

variable {O : Type}

/-! ### One stream -/

/-- **What a part of a step does to the owners**: the stream keeps its exchange, or lets go of it
when it leaves the table. -/
structure Tracks (w w' : Relay O) : Prop where
  id : w'.stream.id = w.stream.id
  spared : ∀ i, w.stream.ex ≠ some i → w'.table.lookup i = w.table.lookup i
  held : w'.stream.ex = w.stream.ex ∧ (∀ i, w'.table.owner i = w.table.owner i) ∨
    w'.stream.ex = none ∧ ∀ h, w.stream.ex = some h → w'.table.owner h = none

namespace Tracks

variable {w w' w'' : Relay O}

/-- The table is as before. -/
theorem still (hid : w'.stream.id = w.stream.id) (hex : w'.stream.ex = w.stream.ex) (htable : w'.table = w.table) :
    Tracks w w' := by
  refine ⟨hid, fun i _ => ?_, Or.inl ⟨hex, fun i => ?_⟩⟩
  · rw [htable]
  · rw [htable]

theorem refl (w : Relay O) : Tracks w w := still rfl rfl rfl

theorem trans (h : Tracks w w') (h' : Tracks w' w'') : Tracks w w'' := by
  have hex (i : ℕ) (hi : w.stream.ex ≠ some i) : w'.stream.ex ≠ some i := by
    rcases h.held with ⟨hex, -⟩ | ⟨hnone, -⟩
    · rw [hex]
      exact hi
    · rw [hnone]
      simp
  refine ⟨h'.id.trans h.id, fun i hi => (h'.spared i (hex i hi)).trans (h.spared i hi), ?_⟩
  rcases h.held with ⟨hsame, howner⟩ | ⟨hnone, hgone⟩
  · rw [← hsame]
    refine h'.held.imp_left fun hkept => ⟨hkept.1, fun i => (hkept.2 i).trans (howner i)⟩
  · have hkeeps (e : ℕ) (he : w.stream.ex = some e) : w''.table.owner e = none := by
      rw [Exchanges.owner, h'.spared e (by rw [hnone]; simp)]
      exact hgone e he
    rcases h'.held with ⟨hsame, -⟩ | ⟨hnone', -⟩
    · exact Or.inr ⟨hsame.trans hnone, hkeeps⟩
    · exact Or.inr ⟨hnone', hkeeps⟩

theorem cancel (w : Relay O) : Tracks w w.cancel := by
  refine ⟨rfl, fun i hi => ?_, Or.inr ⟨rfl, fun h hex => ?_⟩⟩
  · cases hex : w.stream.ex with
    | none => simp only [Relay.cancel, hex, Option.elim_none]
    | some h =>
      simp only [Relay.cancel, hex, Option.elim_some, Exchanges.lookup_fail]
      rw [if_neg]
      rintro rfl
      exact hi hex
  · simp only [Relay.cancel, hex, Option.elim_some, Exchanges.owner_fail, if_true]

variable {id : ℕ}

/-- **A read of the exchange**, after which the stream lets go of one that has ended. -/
theorem settles (hex : w.stream.ex = some id) {β : Type} {ends : β → Bool} {r : Exchanges O × List XCall × β}
    (hr : Exchanges.Settles ends w.table id r) (hspared : ∀ i ≠ id, r.1.lookup i = w.table.lookup i)
    (hid : w'.stream.id = w.stream.id) (hstream : w'.stream.ex = if ends r.2.2 then none else w.stream.ex)
    (htable : w'.table = r.1) : Tracks w w' := by
  refine ⟨hid, fun i hi => ?_, ?_⟩
  · rw [htable, hspared]
    rintro rfl
    exact hi hex
  · rw [htable]
    cases hends : ends r.2.2 with
    | true =>
      rw [hends, if_pos rfl] at hstream
      refine Or.inr ⟨hstream, fun h hh => ?_⟩
      cases hex.symm.trans hh
      simp [hr id, hends]
    | false =>
      rw [hends, if_neg Bool.false_ne_true] at hstream
      exact Or.inl ⟨hstream, fun i => by simp [hr i, hends]⟩

theorem send (hex : w.stream.ex = some id) (carry : List UInt8) (fin moved : Bool) (a : Turn) :
    Tracks w (w.send id carry fin moved a).1 := by
  have howner := Exchanges.owner_sendBody w.table id carry fin a.finished (w.table.reply id carry fin a)
  have hspared (i : ℕ) (hi : w.stream.ex ≠ some i) :
      (w.table.sendBody id carry fin a.finished (w.table.reply id carry fin a)).1.lookup i = w.table.lookup i := by
    apply Exchanges.lookup_sendBody_ne
    rintro rfl
    exact hi hex
  unfold Relay.send
  dsimp only
  split
  · split
    · exact ⟨rfl, hspared, Or.inl ⟨rfl, howner⟩⟩
    · exact ⟨rfl, hspared, Or.inl ⟨rfl, howner⟩⟩
  · exact ⟨rfl, hspared, Or.inl ⟨rfl, howner⟩⟩
  · exact ⟨rfl, hspared, Or.inl ⟨rfl, howner⟩⟩

theorem uploadTurn (w : Relay O) (moved : Bool) (a : UpTurn) : Tracks w (w.uploadTurn moved a).1 := by
  unfold Relay.uploadTurn
  split
  · next id carry hex _ =>
    split
    · split
      · exact refl w
      · exact still rfl rfl rfl
      · exact cancel w
      · exact (still rfl rfl rfl : Tracks w (w.note [.eof])).trans (send (w := w.note [.eof]) hex _ _ _ _)
    · exact send hex _ _ _ _
  · exact refl w

variable {r : Relay O × Bool}

theorem upload {turns : List UpTurn} {moved : Bool} (h : w.upload moved turns = some r) : Tracks w r.1 := by
  induction turns generalizing w moved with
  | nil => cases h
  | cons a turns ih =>
    have hturn := uploadTurn w moved a
    rw [Relay.upload] at h
    split at h
    · next hgo =>
      rw [hgo] at hturn
      exact hturn.trans (ih h)
    · next hgo =>
      rw [hgo] at hturn
      cases h
      exact hturn

/-- A read keeps the stream, and the table is that of `read_body`. -/
theorem readBody_eq (w : Relay O) (id n : ℕ) (recv : Recv) :
    (w.readBody id n recv).1.stream = w.stream ∧
      (w.readBody id n recv).1.table = (w.table.readBody id ((recv n).map fun p => (p.1.length, p.2))).1 ∧
      (w.readBody id n recv).2 = (w.table.readBody id ((recv n).map fun p => (p.1.length, p.2))).2.2 := by
  unfold Relay.readBody
  dsimp only
  split
  · exact ⟨rfl, rfl, rfl⟩
  · exact ⟨rfl, rfl, rfl⟩
  · exact ⟨rfl, rfl, rfl⟩

/-- **What a read does**, followed by a change of the stream that lets go of an exchange that has ended. -/
theorem readBody {n : ℕ} {recv : Recv} {v : Relay O} {out : BodyOut} (hex : w.stream.ex = some id)
    (hread : w.readBody id n recv = (v, out)) (hid : w'.stream.id = v.stream.id) (htable : w'.table = v.table)
    (hstream : w'.stream.ex = if out.ends then none else v.stream.ex) : Tracks w w' := by
  obtain ⟨hv, htable', hout⟩ := readBody_eq w id n recv
  rw [hread] at hv htable' hout
  dsimp only at hv htable' hout
  rw [hv, hout] at hstream
  exact settles hex (Exchanges.settles_readBody w.table id _) (fun i hi => (acts_readBody w.table id _).lookup_ne hi)
    (hid.trans (by rw [hv])) hstream (htable.trans htable')

theorem drain (hex : w.stream.ex = some id) (a : DownTurn) : Tracks w (w.drain id a).1 := by
  unfold Relay.drain
  split
  · exact refl w
  split
  · exact cancel w
  split
  · next hread => exact readBody hex hread rfl rfl rfl
  · next hread => exact readBody hex hread rfl rfl rfl
  · next hread => exact readBody hex hread rfl rfl rfl
  · next hread => exact readBody hex hread rfl rfl rfl

/-- `finish` and `fail` let go of the exchange. -/
theorem finish (w : Relay O) (tail : List UInt8) (sent : Bool) :
    (w.finish tail sent).stream.id = w.stream.id ∧ (w.finish tail sent).table = w.table ∧
      (w.finish tail sent).stream.ex = none := by
  unfold Relay.finish
  dsimp only
  split
  · split
    · exact ⟨rfl, rfl, rfl⟩
    · exact ⟨rfl, rfl, rfl⟩
  · exact ⟨rfl, rfl, rfl⟩

theorem fail (w : Relay O) : w.fail.stream.id = w.stream.id ∧ w.fail.table = w.table ∧ w.fail.stream.ex = none := by
  unfold Relay.fail
  dsimp only
  split
  · exact ⟨rfl, rfl, rfl⟩
  · exact ⟨rfl, rfl, rfl⟩

theorem payloadTurn (hex : w.stream.ex = some id) (cap : ℕ) (a : DownTurn) :
    Tracks w (w.payloadTurn id cap a).1 := by
  unfold Relay.payloadTurn
  dsimp only
  split
  · next v n hread =>
    have hgo : Tracks w v := readBody hex hread rfl rfl rfl
    split
    · exact hgo.trans (still rfl rfl rfl)
    · exact hgo.trans (cancel v)
  · next v n hread =>
    obtain ⟨hid, htable, hnone⟩ := finish v ((recvBytes (a.recv (min cap DL_CHUNK))).take n) a.sent
    exact readBody hex hread hid htable hnone
  · next v hread =>
    obtain ⟨hid, htable, hnone⟩ := fail v
    exact readBody hex hread hid htable hnone
  · next v hread => exact readBody hex hread rfl rfl rfl

variable {room : Bool} {a : DownTurn}

theorem bodyTurn (hex : w.stream.ex = some id) (h : w.bodyTurn id room a = some r) : Tracks w r.1 := by
  unfold Relay.bodyTurn at h
  split at h
  · cases h
    exact refl w
  split at h
  · cases h
  · cases h
    exact refl w
  · cases h
    exact cancel w
  · cases h
    exact payloadTurn hex _ a

theorem body (hex : w.stream.ex = some id) (h : w.body id room a = some r) : Tracks w r.1 := by
  unfold Relay.body at h
  split at h
  · cases h
    exact refl w
  split at h
  · cases h
    exact cancel w
  split at h
  · next v n hread =>
    cases h
    obtain ⟨hid, htable, hnone⟩ := finish v [] a.sent
    exact readBody hex hread hid htable hnone
  · next v hread =>
    cases h
    obtain ⟨hid, htable, hnone⟩ := fail v
    exact readBody hex hread hid htable hnone
  · next v hread =>
    have hv := (readBody_eq w id 0 a.probe).1
    rw [hread] at hv
    have hv : v.stream = w.stream := hv
    exact (readBody hex hread rfl rfl rfl).trans (bodyTurn (hv ▸ hex) h)
  · next v n hread =>
    have hv := (readBody_eq w id 0 a.probe).1
    rw [hread] at hv
    have hv : v.stream = w.stream := hv
    exact (readBody hex hread rfl rfl rfl).trans (bodyTurn (hv ▸ hex) h)

theorem awaitHead (hex : w.stream.ex = some id) (h : w.awaitHead id room a = some r) : Tracks w r.1 := by
  have hsettles := Exchanges.settles_readHead w.table id a.fields a.recvHead
  have hspared (i : ℕ) (hi : i ≠ id) := (acts_readHead w.table id a.fields a.recvHead).lookup_ne hi
  unfold Relay.awaitHead at h
  split at h
  · cases h
    exact refl w
  split at h
  · cases h
    exact cancel w
  dsimp only at h
  split at h
  · next hout =>
    cases h
    exact settles hex hsettles hspared rfl (by rw [hout]; rfl) rfl
  · next reject hout =>
    cases h
    exact settles hex hsettles hspared rfl (by rw [hout]; rfl) rfl
  · next head hout =>
    have hgo {v : Relay O} (hid : v.stream.id = w.stream.id) (hex' : v.stream.ex = w.stream.ex)
        (htable : v.table = (w.table.readHead id a.fields a.recvHead).1) : Tracks w v :=
      settles hex hsettles hspared hid (by rw [hout]; exact hex') htable
    split at h
    · cases h
      refine Tracks.trans ?_ (cancel _)
      exact hgo rfl rfl rfl
    split at h
    · cases h
      refine Tracks.trans ?_ (drain ?_ a)
      · exact hgo rfl rfl rfl
      · exact hex
    · obtain ⟨r', hbody, rfl⟩ := Option.map_eq_some_iff.mp h
      refine Tracks.trans ?_ (body (r := r') ?_ hbody)
      · exact hgo rfl rfl rfl
      · exact hex

theorem download (h : w.download room a = some r) : Tracks w r.1 := by
  unfold Relay.download at h
  split at h
  · cases h
    exact refl w
  next id hex =>
    split at h
    · exact awaitHead hex h
    · exact body hex h
    · cases h
      exact drain hex a
    · cases h
      exact refl w

/-- **A step of a stream.** -/
theorem step {ups : List UpTurn} (h : w.step room ups a = some r) : Tracks w r.1 := by
  obtain ⟨u, hupload, h⟩ := Option.bind_eq_some_iff.mp h
  obtain ⟨d, hdownload, rfl⟩ := Option.map_eq_some_iff.mp h
  have hrest : Tracks w d.1 := (upload hupload).trans (download hdownload)
  exact hrest

end Tracks

/-! ### The streams of a connection -/

/-- **The streams of connection `c` hold its exchanges**, and no two are the same stream. -/
structure Bound (ex : Exchanges Owner) (c : ℕ) (ss : List MStream) : Prop where
  owned : ∀ id k, ex.owner id = some (.mitm c k) ↔ ∃ s ∈ ss, s.id = k ∧ s.ex = some id
  nodup : (ss.map MStream.id).Nodup

/-- Only exchanges of connection `c` change hands, and those of others are as they were. -/
structure Within (c : ℕ) (ex ex' : Exchanges Owner) : Prop where
  owner : ∀ id o, Mitm.ofConn c o = false → (ex'.owner id = some o ↔ ex.owner id = some o)
  lookup : ∀ id o, Mitm.ofConn c o = false → ex.owner id = some o → ex'.lookup id = ex.lookup id

section Streams

variable {ex ex' ex'' : Exchanges Owner} {c : ℕ} {ss ss' : List MStream}

theorem Within.refl (ex : Exchanges Owner) : Within c ex ex := ⟨fun _ _ _ => Iff.rfl, fun _ _ _ _ => rfl⟩

theorem Within.trans (h : Within c ex ex') (h' : Within c ex' ex'') : Within c ex ex'' :=
  ⟨fun id o ho => (h'.owner id o ho).trans (h.owner id o ho),
    fun id o ho hid => (h'.lookup id o ho ((h.owner id o ho).mpr hid)).trans (h.lookup id o ho hid)⟩

/-- Other connections are not concerned. -/
theorem Bound.apart {c' : ℕ} (h : Bound ex c' ss) (hc : c' ≠ c) (hwithin : Within c ex ex') : Bound ex' c' ss :=
  ⟨fun id k => (hwithin.owner id (.mitm c' k) (by simp [Mitm.ofConn, hc])).trans (h.owned id k), h.nodup⟩

/-- Only who holds what matters. -/
theorem Bound.congr (h : Bound ex c ss) (hsame : ss'.map (fun s => (s.id, s.ex)) = ss.map fun s => (s.id, s.ex)) :
    Bound ex c ss' := by
  have hmem (k : ℕ) (o : Option ℕ) : (∃ s ∈ ss', s.id = k ∧ s.ex = o) ↔ ∃ s ∈ ss, s.id = k ∧ s.ex = o := by
    have hpair (ts : List MStream) : (∃ s ∈ ts, s.id = k ∧ s.ex = o) ↔ (k, o) ∈ ts.map fun s => (s.id, s.ex) := by
      simp [Prod.ext_iff]
    rw [hpair, hpair, hsame]
  refine ⟨fun id k => (h.owned id k).trans (hmem k (some id)).symm, ?_⟩
  have hids := congrArg (List.map Prod.fst) hsame
  rw [List.map_map, List.map_map] at hids
  have hids : ss'.map MStream.id = ss.map MStream.id := hids
  rw [hids]
  exact h.nodup

/-- Streams that hold nothing may go, and the order does not matter. -/
theorem Bound.retain (h : Bound ex c ss) (p : MStream → Bool) (hp : ∀ s ∈ ss, p s = false → s.ex = none) (n : ℕ) :
    Bound ex c ((ss.filter p).rotate n) := by
  refine ⟨fun id k => (h.owned id k).trans ⟨?_, ?_⟩, ?_⟩
  · rintro ⟨s, hs, hk, hex⟩
    refine ⟨s, ?_, hk, hex⟩
    rw [List.mem_rotate, List.mem_filter]
    refine ⟨hs, ?_⟩
    by_contra hno
    rw [Bool.not_eq_true] at hno
    exact nomatch (hp s hs hno).symm.trans hex
  · rintro ⟨s, hs, hk, hex⟩
    rw [List.mem_rotate, List.mem_filter] at hs
    exact ⟨s, hs.1, hk, hex⟩
  · rw [List.map_rotate, List.nodup_rotate]
    exact h.nodup.sublist (List.filter_sublist.map _)

/-- **One stream steps.** -/
theorem Bound.step {pre post : List MStream} {s : MStream} {log : List MEvent} {w : Relay Owner}
    (h : Bound ex c (pre ++ s :: post)) (ht : Tracks ⟨s, ex, log⟩ w) :
    Bound w.table c (pre ++ w.stream :: post) ∧ Within c ex w.table := by
  have hid : w.stream.id = s.id := ht.id
  have hnodup : ((pre ++ w.stream :: post).map MStream.id).Nodup := by
    have := h.nodup
    simpa [hid] using this
  have hsplit (t : MStream) (i k : ℕ) : (∃ r ∈ pre ++ t :: post, r.id = k ∧ r.ex = some i) ↔
      (∃ r ∈ pre ++ post, r.id = k ∧ r.ex = some i) ∨ t.id = k ∧ t.ex = some i := by
    simp only [List.mem_append, List.mem_cons, or_and_right, exists_or, exists_eq_left]
    exact or_assoc.symm.trans or_right_comm
  have hmine (i : ℕ) (hs : s.ex = some i) : ex.owner i = some (.mitm c s.id) :=
    (h.owned i s.id).mpr ⟨s, by simp, rfl, hs⟩
  have hspared (i : ℕ) (hs : s.ex ≠ some i) : w.table.lookup i = ex.lookup i := ht.spared i hs
  have howner (i : ℕ) (hs : s.ex ≠ some i) : w.table.owner i = ex.owner i := by
    rw [Exchanges.owner, hspared i hs, Exchanges.owner]
  -- no other stream holds the exchange of this one
  have halone (i k : ℕ) (hs : s.ex = some i) : ¬∃ r ∈ pre ++ post, r.id = k ∧ r.ex = some i := by
    rintro ⟨t, hmem, -, hte⟩
    have htid := (h.owned i t.id).mpr ((hsplit s i t.id).mpr (Or.inl ⟨t, hmem, rfl, hte⟩))
    have hsame : s.id = t.id := by simpa using (hmine i hs).symm.trans htid
    have hdistinct := h.nodup
    rw [List.map_append, List.map_cons, List.nodup_middle, List.nodup_cons, ← List.map_append] at hdistinct
    exact hdistinct.1 (hsame ▸ List.mem_map_of_mem hmem)
  have hother (i : ℕ) (o : Owner) (ho : Mitm.ofConn c o = false) (hi : ex.owner i = some o) : s.ex ≠ some i := by
    intro hs
    cases hi.symm.trans (hmine i hs)
    simp [Mitm.ofConn] at ho
  refine ⟨⟨fun i k => ?_, hnodup⟩, fun i o ho => ?_, fun i o ho hi => hspared i (hother i o ho hi)⟩
  · rw [hsplit, hid]
    by_cases hs : s.ex = some i
    · rcases ht.held with ⟨hsame, hkept⟩ | ⟨hnone, hgone⟩
      · have hsame : w.stream.ex = s.ex := hsame
        rw [hkept i, hsame, ← hsplit]
        exact h.owned i k
      · rw [hgone i hs, hnone]
        refine iff_of_false nofun ?_
        rintro (hr | ⟨-, hr⟩)
        · exact halone i k hs hr
        · cases hr
    · have hne : w.stream.ex ≠ some i := by
        rcases ht.held with ⟨hsame, -⟩ | ⟨hnone, -⟩
        · exact hsame ▸ hs
        · simp [hnone]
      rw [howner i hs, h.owned, hsplit]
      simp [hs, hne]
  · by_cases hs : s.ex = some i
    · have hno : w.table.owner i = some (.mitm c s.id) ∨ w.table.owner i = none := by
        rcases ht.held with ⟨-, hkept⟩ | ⟨-, hgone⟩
        · exact Or.inl ((hkept i).trans (hmine i hs))
        · exact Or.inr (hgone i hs)
      refine ⟨fun hi => ?_, fun hi => absurd hs (hother i o ho hi)⟩
      rcases hno with hno | hno
      · cases hno.symm.trans hi
        simp [Mitm.ofConn] at ho
      · cases hno.symm.trans hi
    · rw [howner i hs]

theorem Bound.stepStreams {room : Bool} {as : List (List UpTurn × DownTurn)} {pre : List MStream}
    {q : Exchanges Owner × List MStream × Bool} (h : Bound ex c (pre ++ ss))
    (hsteps : Mitm.stepStreams room ex ss as = some q) : Bound q.1 c (pre ++ q.2.1) ∧ Within c ex q.1 := by
  induction ss generalizing ex as pre q with
  | nil =>
    cases hsteps
    exact ⟨h, .refl ex⟩
  | cons s ss ih =>
    cases as with
    | nil => cases hsteps
    | cons a as =>
      obtain ⟨r, hstep, hsteps⟩ := Option.bind_eq_some_iff.mp hsteps
      obtain ⟨q', hrest, rfl⟩ := Option.map_eq_some_iff.mp hsteps
      obtain ⟨hbound, hwithin⟩ := h.step (Tracks.step hstep)
      rw [← List.singleton_append, ← List.append_assoc] at hbound
      obtain ⟨hbound', hwithin'⟩ := ih hbound hrest
      rw [List.append_assoc, List.singleton_append] at hbound'
      exact ⟨hbound', hwithin.trans hwithin'⟩

theorem Bound.passStreams {a : PassTurn} {q : Exchanges Owner × List MStream × Bool} (h : Bound ex c ss)
    (hpass : Mitm.passStreams ex ss a = some q) : Bound q.1 c q.2.1 ∧ Within c ex q.1 := by
  obtain ⟨q', hsteps, rfl⟩ := Option.map_eq_some_iff.mp hpass
  have h : Bound ex c ([] ++ ss) := h
  obtain ⟨hbound, hwithin⟩ := h.stepStreams hsteps
  refine ⟨hbound.retain (fun s => !s.isDone) (fun s _ hdone => ?_) 1, hwithin⟩
  simp only [Bool.not_eq_false', MStream.isDone, Bool.and_eq_true, decide_eq_true_eq] at hdone
  exact hdone.1.1

/-- What `open` does to the owners. -/
theorem openStream_owner (http : Server.HttpCrate) (ex : Exchanges Owner) (tunnel : Option ℕ) (stream : ℕ) (o : Owner)
    (parts : Parts) (endStream : Bool) (sni auth : List UInt8) (opened : Option ℕ) (sent : Bool) :
    let r := MStream.openStream http ex tunnel stream o parts endStream sni auth opened sent
    (∃ e, r.2.2 = .error e ∧ r.1 = ex) ∨
      ∃ s id, r.2.2 = .ok s ∧ s.id = stream ∧ s.ex = some id ∧ opened = some id ∧
        (∀ i, r.1.owner i = if i = id then some o else ex.owner i) ∧ ∀ i ≠ id, r.1.lookup i = ex.lookup i := by
  dsimp only
  unfold MStream.openStream
  split
  · exact Or.inl ⟨_, rfl, rfl⟩
  next head hmap =>
    split
    · exact Or.inl ⟨_, rfl, rfl⟩
    next conn =>
      dsimp only
      cases hout : (ex.openReq conn head o opened sent).2.2 with
      | error r => exact Or.inl ⟨_, rfl, Exchanges.openReq_error hout⟩
      | ok id =>
        obtain ⟨hopened, htable⟩ := Exchanges.openReq_ok hout
        refine Or.inr ⟨_, id, rfl, rfl, rfl, hopened, fun i => ?_, fun i hi => ?_⟩
        · rw [htable, Exchanges.owner_insert]
        · rw [htable, AList.lookup_insert_ne hi]

variable {cfg : MitmCfg} {tunnel : Option ℕ}

theorem Bound.accept {sni : List UInt8} {a : AcceptTurn}
    {r : Exchanges Owner × List MStream} (h : Bound ex c ss) (haccept : Mitm.accept cfg tunnel c sni ex ss a = some r) :
    Bound r.1 c r.2 ∧ Within c ex r.1 := by
  unfold Mitm.accept at haccept
  split at haccept
  · cases haccept
    exact ⟨h, .refl ex⟩
  split at haccept
  · cases haccept
  next hnew =>
    simp only [Bool.or_eq_true, Bool.not_eq_true', not_or, Bool.not_eq_false, List.any_eq_true, decide_eq_true_eq,
      not_exists, not_and] at hnew
    obtain ⟨hfresh, hstream⟩ := hnew
    have howner := openStream_owner cfg.http ex tunnel a.stream (.mitm c a.stream) a.parts a.endStream sni cfg.auth
      a.opened a.sent
    dsimp only at haccept howner
    rcases howner with ⟨e, hout, htable⟩ | ⟨s, id, hout, hid, hex, hopened, howner, hspared⟩
    · rw [hout] at haccept
      cases haccept
      rw [htable]
      exact ⟨h, .refl ex⟩
    · rw [hout] at haccept
      cases haccept
      have hnone := Fetch.owner_of_fresh hfresh hopened
      refine ⟨⟨fun i k => ?_, ?_⟩, fun i o ho => ?_, fun i o ho hi => hspared i ?_⟩
      · rw [howner i]
        simp only [List.mem_append, List.mem_singleton, or_and_right, exists_or, exists_eq_left, ← h.owned, hid, hex]
        split
        · next hi =>
          subst hi
          simp [hnone, eq_comm]
        · next hi => simp [Ne.symm hi]
      · rw [List.map_append, List.map_singleton, hid]
        refine h.nodup.append (List.nodup_singleton _) ?_
        rw [List.disjoint_singleton, List.mem_map]
        rintro ⟨t, ht, htid⟩
        exact hstream t ht htid
      · rw [howner i]
        split
        · next hi =>
          subst hi
          rw [hnone]
          constructor
          · rintro ⟨⟩
            simp [Mitm.ofConn] at ho
          · rintro ⟨⟩
        · exact Iff.rfl
      · rintro rfl
        cases hnone.symm.trans hi

theorem Bound.accepts {sni : List UInt8} {as : List AcceptTurn}
    {r : Exchanges Owner × List MStream} (h : Bound ex c ss)
    (haccepts : Mitm.accepts cfg tunnel c sni ex ss as = some r) : Bound r.1 c r.2 ∧ Within c ex r.1 := by
  induction as generalizing ex ss with
  | nil =>
    cases haccepts
    exact ⟨h, .refl ex⟩
  | cons a as ih =>
    obtain ⟨r', haccept, hrest⟩ := Option.bind_eq_some_iff.mp haccepts
    obtain ⟨hbound, hwithin⟩ := h.accept haccept
    obtain ⟨hbound', hwithin'⟩ := ih hbound hrest
    exact ⟨hbound', hwithin.trans hwithin'⟩

/-- The exchanges of a connection are reset. -/
theorem bound_drain (ex : Exchanges Owner) (c : ℕ) :
    Bound (ex.drainOwner ex.keys (Mitm.ofConn c)).1 c [] ∧ Within c ex (ex.drainOwner ex.keys (Mitm.ofConn c)).1 := by
  have horder (id : ℕ) (o : Owner) (ho : ex.owner id = some o) : id ∈ ex.keys := by
    obtain ⟨x, hx, -⟩ := Option.map_eq_some_iff.mp ho
    exact AList.mem_keys.mp (AList.lookup_isSome.mp (by rw [hx]; rfl))
  have howner := Exchanges.owner_drainOwner ex (Mitm.ofConn c) horder
  have hkept (id : ℕ) (o : Owner) (ho : Mitm.ofConn c o = false) :
      (ex.drainOwner ex.keys (Mitm.ofConn c)).1.owner id = some o ↔ ex.owner id = some o := by
    rw [howner id, Option.filter_eq_some_iff]
    simp [ho]
  refine ⟨⟨fun id k => ?_, List.nodup_nil⟩, hkept, fun id o ho hid => ?_⟩
  · rw [howner id, Option.filter_eq_some_iff]
    simp [Mitm.ofConn]
  · refine (Upload.lookup_drainOwner ex ex.keys (Mitm.ofConn c) id).resolve_left fun hnone => ?_
    have hkept := (hkept id o ho).mpr hid
    rw [Exchanges.owner, hnone] at hkept
    cases hkept

/-- The streams of a phase. -/
def Phase.streams : Phase → List MStream
  | .live _ ss => ss
  | _ => []

/-- **A pass over a connection.** -/
theorem Bound.pass {phase : Phase} {a : PassTurn}
    {r : Exchanges Owner × Phase × Except End Bool} (h : Bound ex c phase.streams)
    (hpass : Mitm.pass cfg tunnel c ex phase a = some r) : Bound r.1 c r.2.1.streams ∧ Within c ex r.1 := by
  cases phase with
  | peek =>
    cases hpass
    exact ⟨h, .refl ex⟩
  | closing =>
    cases hpass
    exact ⟨h, .refl ex⟩
  | live sni ss =>
    have h : Bound ex c ss := h
    simp only [Mitm.pass] at hpass
    split at hpass
    · cases hpass
      exact ⟨h, .refl ex⟩
    split at hpass
    · cases hpass
      exact ⟨h, .refl ex⟩
    · obtain ⟨q, hq, rfl⟩ := Option.map_eq_some_iff.mp hpass
      exact h.passStreams hq
    · obtain ⟨r', haccepts, hrest⟩ := Option.bind_eq_some_iff.mp hpass
      obtain ⟨hbound, hwithin⟩ := h.accepts haccepts
      split at hrest
      · cases hrest
        exact ⟨hbound, hwithin⟩
      · obtain ⟨q, hq, rfl⟩ := Option.map_eq_some_iff.mp hrest
        obtain ⟨hbound', hwithin'⟩ := hbound.passStreams hq
        exact ⟨hbound', hwithin.trans hwithin'⟩

end Streams

/-! ### The MITM front -/

namespace Mitm

/-- The streams of a connection. -/
def streams (m : Mitm) (c : ℕ) : List MStream := (m.conns.lookup c).elim [] Phase.streams

/-- Each connection's streams hold its exchanges. -/
def Owned (m : Mitm) : Prop := ∀ c, Bound m.ex c (m.streams c)

/-- The exchanges of fetches do not change hands, and are as they were. -/
structure Spares (m m' : Mitm) : Prop where
  owner : ∀ id tcp, m'.ex.owner id = some (.fetch tcp) ↔ m.ex.owner id = some (.fetch tcp)
  lookup : ∀ id tcp, m.ex.owner id = some (.fetch tcp) → m'.ex.lookup id = m.ex.lookup id

/-- What a function of the front does: it spares the exchanges of fetches. -/
def Keeps (m m' : Mitm) : Prop := m.Owned → m'.Owned ∧ Spares m m'

variable {m m' m'' : Mitm} {tcp : ℕ}

theorem Keeps.refl (m : Mitm) : Keeps m m := fun h => ⟨h, fun _ _ => Iff.rfl, fun _ _ _ => rfl⟩

theorem Keeps.trans (h : Keeps m m') (h' : Keeps m' m'') : Keeps m m'' := by
  intro howned
  obtain ⟨howned', hfetch⟩ := h howned
  obtain ⟨howned'', hfetch'⟩ := h' howned'
  refine ⟨howned'', fun id tcp => (hfetch'.owner id tcp).trans (hfetch.owner id tcp), fun id tcp hid => ?_⟩
  exact (hfetch'.lookup id tcp ((hfetch.owner id tcp).mpr hid)).trans (hfetch.lookup id tcp hid)

theorem streams_insert (m : Mitm) (ex : Exchanges Owner) (phase : Phase) (c : ℕ) :
    streams ⟨ex, m.conns.insert tcp phase⟩ c = if c = tcp then phase.streams else m.streams c := by
  unfold streams
  split
  · next h =>
    subst h
    rw [AList.lookup_insert, Option.elim_some]
  · next h => rw [AList.lookup_insert_ne h]

/-- **A connection moves on**, with exchanges of its own. -/
theorem keeps_insert {ex : Exchanges Owner} {phase : Phase}
    (h : Bound m.ex tcp (m.streams tcp) → Bound ex tcp phase.streams ∧ Within tcp m.ex ex) :
    Keeps m ⟨ex, m.conns.insert tcp phase⟩ := by
  intro howned
  obtain ⟨hbound, hwithin⟩ := h (howned tcp)
  refine ⟨fun c => ?_, fun id t => hwithin.owner id (.fetch t) rfl, fun id t => hwithin.lookup id (.fetch t) rfl⟩
  rw [streams_insert]
  split
  · next hc =>
    subst hc
    exact hbound
  · next hc => exact (howned c).apart hc hwithin

theorem streams_of_lookup {phase : Phase} (h : m.conns.lookup tcp = some phase) : m.streams tcp = phase.streams := by
  rw [streams, h, Option.elim_some]

theorem keeps_endConn (m : Mitm) (tcp : ℕ) : Keeps m (m.endConn tcp) := by
  unfold endConn
  split
  · exact keeps_insert fun _ => bound_drain m.ex tcp
  · exact .refl _

theorem streams_endConn (m : Mitm) (tcp : ℕ) : (m.endConn tcp).streams tcp = [] := by
  unfold endConn
  split
  · rw [streams_insert, if_pos rfl]
    rfl
  · next hlive =>
    cases h : m.conns.lookup tcp with
    | none => rw [streams, h, Option.elim_none]
    | some phase =>
      rw [streams_of_lookup h]
      cases phase with
      | live sni ss => exact absurd h (hlive sni ss)
      | peek => rfl
      | closing => rfl

theorem keeps_remove (h : m.streams tcp = []) : Keeps m (m.remove tcp) := by
  intro howned
  refine ⟨fun c => ?_, fun _ _ => Iff.rfl, fun _ _ _ => rfl⟩
  have hsame : (m.remove tcp).streams c = m.streams c := by
    by_cases hc : c = tcp
    · subst hc
      rw [h, streams, remove, AList.lookup_erase, Option.elim_none]
    · rw [streams, remove, AList.lookup_erase_ne hc]
      rfl
  rw [hsame]
  exact howned c

variable {cfg : MitmCfg} {tunnel : Option ℕ} {turns : List PassTurn}

/-- **The pump.** -/
theorem keeps_pump (h : pump cfg tunnel tcp m turns = some m') : Keeps m m' := by
  induction turns generalizing m with
  | nil =>
    cases h
    exact .refl _
  | cons a turns ih =>
    rw [pump] at h
    split at h
    · cases h
      exact .refl _
    next phase hlookup =>
      split at h
      · cases h
      next ex phase' out hpass =>
        have hkeeps : Keeps m ⟨ex, m.conns.insert tcp phase'⟩ := keeps_insert fun hbound => by
          rw [streams_of_lookup hlookup] at hbound
          exact hbound.pass hpass
        dsimp only at h
        split at h
        · cases h
          exact hkeeps
        · exact hkeeps.trans (ih h)
        · exact (hkeeps.trans (keeps_endConn _ tcp)).trans (ih h)

theorem keeps_onTcpData {got : Peeked} (h : onTcpData cfg m tunnel tcp got turns = some m') : Keeps m m' := by
  unfold onTcpData at h
  split at h
  · cases h
    exact .refl _
  · next hpeek =>
    have hstreams : m.streams tcp = [] := streams_of_lookup hpeek
    unfold peek at h
    split at h
    · cases h
      exact .refl _
    · cases h
      exact keeps_remove hstreams
    · next sni =>
      refine Keeps.trans (keeps_insert fun hbound => ?_) (keeps_pump h)
      rw [hstreams] at hbound
      exact ⟨hbound, .refl _⟩
  · exact keeps_pump h

theorem keeps_onTcpEnd {error : Bool} (h : onTcpEnd cfg m tunnel tcp error turns = some m') : Keeps m m' := by
  unfold onTcpEnd at h
  split at h
  · cases h
    exact .refl _
  next phase hlookup =>
    split at h
    · cases h
      exact (keeps_endConn m tcp).trans (keeps_remove (streams_endConn m tcp))
    · split at h
      · cases h
        exact keeps_remove (streams_of_lookup hlookup)
      · exact keeps_pump h

/-- A stream that is told of readiness holds what it held. -/
theorem holds_onReady (s : MStream) (r : Ready) : ((s.onReady r).id, (s.onReady r).ex) = (s.id, s.ex) := by
  cases r with
  | readable => rfl
  | writable =>
    unfold MStream.onReady
    dsimp only
    split <;> rfl

theorem keeps_onReady {stream : ℕ} {r : Ready}
    (h : onReady cfg m tunnel tcp stream r turns = some m') : Keeps m m' := by
  unfold onReady at h
  dsimp only at h
  split at h
  · next phase hlookup =>
    refine Keeps.trans (keeps_insert fun hbound => ⟨?_, .refl _⟩) (keeps_pump h)
    rw [streams_of_lookup hlookup] at hbound
    refine hbound.congr ?_
    cases phase with
    | peek => rfl
    | closing => rfl
    | live sni ss =>
      simp only [Phase.onReady, Phase.streams]
      split
      · refine List.ext_getElem? fun i => ?_
        rw [List.getElem?_map, List.getElem?_map, List.getElem?_modify]
        split
        · cases ss[i]? with
          | none => rfl
          | some s => simp [holds_onReady]
        · simp
      · rfl
  · exact keeps_pump h

theorem keeps_onTimer {due : Due} (h : onTimer cfg m tunnel tcp due turns = some m') : Keeps m m' := by
  unfold onTimer at h
  split at h
  · cases h
    exact .refl _
  next phase hlookup =>
    split at h
    · exact keeps_pump h
    · split at h
      · cases h
        exact keeps_remove (streams_of_lookup hlookup)
      · cases h
        exact keeps_remove (streams_of_lookup hlookup)
      · split at h
        · exact (keeps_endConn m tcp).trans (keeps_pump h)
        · exact keeps_pump h

theorem keeps_shutdownConn (h : shutdownConn cfg m tcp turns = some m') : Keeps m m' := by
  unfold shutdownConn at h
  split at h
  · next hpeek =>
    cases h
    exact keeps_remove (streams_of_lookup hpeek)
  · exact (keeps_endConn m tcp).trans (keeps_pump h)
  · cases h
    exact .refl _

theorem keeps_onShutdown {turns : ℕ → List PassTurn} (h : onShutdown cfg m turns = some m') : Keeps m m' := by
  have hfold (tcps : List ℕ) (m : Mitm)
      (h : tcps.foldlM (fun m tcp => shutdownConn cfg m tcp (turns tcp)) m = some m') : Keeps m m' := by
    induction tcps generalizing m with
    | nil =>
      cases h
      exact .refl _
    | cons tcp tcps ih =>
      rw [List.foldlM_cons] at h
      obtain ⟨m₁, hone, hrest⟩ := Option.bind_eq_some_iff.mp h
      exact (keeps_shutdownConn hone).trans (ih m₁ hrest)
  exact hfold _ m h

theorem keeps_onAccepted (cfg : MitmCfg) (h : m.conns.lookup tcp = none) : Keeps m (onAccepted cfg m tcp) := by
  unfold onAccepted
  split
  · exact .refl _
  · refine keeps_insert fun hbound => ⟨?_, .refl _⟩
    rw [streams, h, Option.elim_none] at hbound
    exact hbound

end Mitm

end MqProxy.Client
