import MqProxy.Client.FetchOwners

/-!
# What a fetch leaves alone

A callback of the fetch front is about one socket. It may change the entry of that socket, do
something to that socket, and move on the exchange that the entry holds; the entries, the
sockets and the exchanges of others are as they were (`Apart`). As the exchange that an entry
holds is the socket's own (`Mine`), each part of a callback keeps to its socket (`Moves`), and
so does the callback.
-/

namespace MqProxy.Client

open MqProxy.Http

/-- The socket that a call is about. -/
def TcpCall.tcp : TcpCall → ℕ
  | .write tcp _ _ | .reply tcp _ | .close tcp | .abort tcp => tcp

namespace Fetch

/-- The exchange that the entry of a socket holds is the socket's own. -/
def Mine (f : Fetch) (tcp : ℕ) : Prop := ∀ id x, f.h3 tcp = some id → f.ex.lookup id = some x → x.owner = .fetch tcp

/-- **Only what is of one socket changes.** -/
structure Apart (tcp : ℕ) (f f' : Fetch) : Prop where
  reqs : ∀ t ≠ tcp, f'.reqs.lookup t = f.reqs.lookup t
  calls : ∃ cs, f'.calls = f.calls ++ cs ∧ ∀ c ∈ cs, c.tcp = tcp
  ex : ∀ i x, f.ex.lookup i = some x → x.owner ≠ .fetch tcp → f'.ex.lookup i = some x

/-- What a part of a callback for a socket does. -/
def Moves (tcp : ℕ) (f f' : Fetch) : Prop := f.Mine tcp → f'.Mine tcp ∧ Apart tcp f f'

variable {f f' f'' : Fetch} {tcp : ℕ}

theorem Apart.refl (tcp : ℕ) (f : Fetch) : Apart tcp f f :=
  ⟨fun _ _ => rfl, ⟨[], (List.append_nil _).symm, List.forall_mem_nil _⟩, fun _ _ h _ => h⟩

theorem Apart.trans (h : Apart tcp f f') (h' : Apart tcp f' f'') : Apart tcp f f'' := by
  refine ⟨fun t ht => (h'.reqs t ht).trans (h.reqs t ht), ?_, fun i x hi hx => h'.ex i x (h.ex i x hi hx) hx⟩
  obtain ⟨cs, hcs, hall⟩ := h.calls
  obtain ⟨cs', hcs', hall'⟩ := h'.calls
  refine ⟨cs ++ cs', by rw [hcs', hcs, List.append_assoc], fun c hc => ?_⟩
  exact (List.mem_append.mp hc).elim (hall c) (hall' c)

theorem Moves.refl (tcp : ℕ) (f : Fetch) : Moves tcp f f := fun h => ⟨h, .refl tcp f⟩

theorem Moves.trans (h : Moves tcp f f') (h' : Moves tcp f' f'') : Moves tcp f f'' := by
  intro hmine
  obtain ⟨hmine', hapart⟩ := h hmine
  obtain ⟨hmine'', hapart'⟩ := h' hmine'
  exact ⟨hmine'', hapart.trans hapart'⟩

theorem moves_call {cs : List TcpCall} (hcs : ∀ c ∈ cs, c.tcp = tcp) (f : Fetch) : Moves tcp f (f.call cs) :=
  fun h => ⟨h, fun _ _ => rfl, ⟨cs, rfl, hcs⟩, fun _ _ hi _ => hi⟩

/-- The entry of the socket changes, and holds no other exchange. -/
theorem moves_entry {reqs : AList fun _ : ℕ => GwReq} {timers : AList fun _ : ℕ => ℕ}
    (hreqs : ∀ t ≠ tcp, reqs.lookup t = f.reqs.lookup t)
    (hh3 : ∀ id, (reqs.lookup tcp).bind GwReq.h3 = some id → f.h3 tcp = some id) :
    Moves tcp f { f with reqs, timers } :=
  fun h => ⟨fun id x hid hx => h id x (hh3 id hid) hx, hreqs, ⟨[], (List.append_nil _).symm, List.forall_mem_nil _⟩,
    fun _ _ hi _ => hi⟩

theorem moves_erase (f : Fetch) (tcp : ℕ) (timers : AList fun _ : ℕ => ℕ) :
    Moves tcp f { f with reqs := f.reqs.erase tcp, timers } := by
  refine moves_entry (fun t ht => AList.lookup_erase_ne ht) fun id hid => ?_
  rw [AList.lookup_erase] at hid
  cases hid

theorem moves_insert {e : GwReq} (he : e.h3 = none ∨ e.h3 = f.h3 tcp) :
    Moves tcp f { f with reqs := f.reqs.insert tcp e } := by
  refine moves_entry (fun t ht => AList.lookup_insert_ne ht) fun id hid => ?_
  rw [AList.lookup_insert, Option.bind_some] at hid
  rcases he with he | he
  · exact nomatch he.symm.trans hid
  · exact he.symm.trans hid

variable {id : ℕ}

/-- **The exchange that the entry holds moves on, or leaves the table.** -/
theorem moves_ex {ex : Exchanges Owner} (hid : f.h3 tcp = some id)
    (hspared : ∀ i ≠ id, ex.lookup i = f.ex.lookup i) (howner : ex.owner id = f.ex.owner id ∨ ex.owner id = none) :
    Moves tcp f { f with ex } := by
  intro h
  refine ⟨fun i y hi hy => ?_, fun _ _ => rfl, ⟨[], (List.append_nil _).symm, List.forall_mem_nil _⟩, fun i x hi hx => ?_⟩
  · cases hid.symm.trans hi
    have hy : ex.owner id = some y.owner := by rw [Exchanges.owner, hy, Option.map_some]
    rcases howner with howner | hnone
    · obtain ⟨x, hx, hxy⟩ := Option.map_eq_some_iff.mp (howner.symm.trans hy)
      rw [← hxy]
      exact h id x hid hx
    · cases hnone.symm.trans hy
  · refine (hspared i ?_).trans hi
    rintro rfl
    exact hx (h i x hid hi)

/-- A read or an end of the exchange. -/
theorem moves_settles {β : Type} {ends : β → Bool} {r : Exchanges Owner × List XCall × β}
    (hid : f.h3 tcp = some id) (hr : Exchanges.Settles ends f.ex id r)
    (hspared : ∀ i ≠ id, r.1.lookup i = f.ex.lookup i) : Moves tcp f { f with ex := r.1 } := by
  refine moves_ex hid hspared ?_
  rw [hr id]
  split
  · exact .inr rfl
  · exact .inl rfl

theorem moves_remove (f : Fetch) (tcp : ℕ) : Moves tcp f (f.remove tcp) := by
  unfold remove
  dsimp only
  split
  · exact moves_erase f tcp _
  · next id method started chunked pending he =>
    have hid : f.h3 tcp = some id := Opened.h3 ⟨_, _, _, _, he⟩
    have hfail : Moves tcp f { f with ex := (f.ex.fail id).1 } := by
      refine moves_ex hid (fun i hi => ?_) ?_
      · rw [Exchanges.lookup_fail, if_neg hi]
      · rw [Exchanges.owner_fail, if_pos rfl]
        exact .inr rfl
    exact hfail.trans (moves_erase { f with ex := (f.ex.fail id).1 } tcp f.timers)
  · exact moves_erase f tcp f.timers

theorem moves_abort (f : Fetch) (tcp : ℕ) : Moves tcp f (f.abort tcp) :=
  (moves_call (by simp [TcpCall.tcp]) f).trans (moves_remove _ tcp)

theorem moves_replyClose (f : Fetch) (tcp : ℕ) (reply : List UInt8) : Moves tcp f (f.replyClose tcp reply) :=
  moves_call (by simp [TcpCall.tcp]) f

theorem moves_synthReply (f : Fetch) (tcp : ℕ) (r : Reject) : Moves tcp f (f.synthReply tcp r) :=
  (moves_replyClose f tcp _).trans (moves_remove _ tcp)

/-! ### The parts of a callback -/

/-- What a part of a callback for a socket does to the tables, and leaves alone. -/
def Does (x x' : Option ℕ) (tcp : ℕ) (f f' : Fetch) : Prop := Feeds x x' f f' ∧ Moves tcp f f'

variable {x x' x'' : Option ℕ}

theorem Does.refl (x : Option ℕ) (tcp : ℕ) (f : Fetch) : Does x x tcp f f := ⟨.refl x f, .refl tcp f⟩

theorem Does.trans (h : Does x x' tcp f f') (h' : Does x' x'' tcp f' f'') : Does x x'' tcp f f'' :=
  ⟨h.1.trans h'.1, h.2.trans h'.2⟩

theorem does_except (x : Option ℕ) (tcp : ℕ) (f : Fetch) : Does none x tcp f f := ⟨feeds_except x f, .refl tcp f⟩

theorem does_call {cs : List TcpCall} (hcs : ∀ c ∈ cs, c.tcp = tcp) (f : Fetch) : Does x x tcp f (f.call cs) :=
  ⟨feeds_call f cs, moves_call hcs f⟩

theorem does_insert {e e' : GwReq} (he : f.reqs.lookup tcp = some e) (hh3 : e'.h3 = e.h3) (htimer : e'.timer = e.timer) :
    Does x x tcp f { f with reqs := f.reqs.insert tcp e' } := by
  refine ⟨feeds_insert he hh3 htimer, moves_insert (.inr ?_)⟩
  rw [h3, he, Option.bind_some, hh3]

theorem does_abort (f : Fetch) (tcp : ℕ) : Does (some tcp) none tcp f (f.abort tcp) := ⟨feeds_abort f tcp, moves_abort f tcp⟩

theorem does_synthReply (f : Fetch) (tcp : ℕ) (r : Reject) : Does (some tcp) none tcp f (f.synthReply tcp r) :=
  ⟨feeds_synthReply f tcp r, moves_synthReply f tcp r⟩

theorem does_removed (f : Fetch) (tcp : ℕ) : Does none none tcp f (f.remove tcp) :=
  ⟨feeds_removed f tcp, moves_remove f tcp⟩

/-- A read for an entry, or its end. -/
theorem does_settles {β : Type} {ends : β → Bool} {r : Exchanges Owner × List XCall × β}
    (hid : f.h3 tcp = some id) (hr : Exchanges.Settles ends f.ex id r)
    (hspared : ∀ i ≠ id, r.1.lookup i = f.ex.lookup i) :
    if ends r.2.2 then Does none (some tcp) tcp f { f with ex := r.1 } ∧ r.1.owner id = none
    else Does none none tcp f { f with ex := r.1 } := by
  have hfeeds := feeds_settles hid hr
  have hmoves := moves_settles hid hr hspared
  split
  · next hends =>
    rw [if_pos hends] at hfeeds
    exact ⟨⟨hfeeds.1, hmoves⟩, hfeeds.2⟩
  · next hends =>
    rw [if_neg hends] at hfeeds
    exact ⟨hfeeds, hmoves⟩

/-! ### The download -/

variable {pending : List UInt8} {oks : List Bool}

theorem does_writePending {r : Fetch × Bool × List Bool}
    (h : f.writePending tcp pending oks = some r) : Does x x tcp f r.1 ∧ r.1.reqs = f.reqs := by
  unfold writePending at h
  split at h
  · cases h
    exact ⟨.refl x tcp f, rfl⟩
  · split at h
    · cases h
    · cases h
      exact ⟨does_call (by simp [TcpCall.tcp]) f, rfl⟩

/-- A request that is finishing holds nothing, and ends. -/
theorem does_flush {p : List UInt8} {c : Bool} (he : f.reqs.lookup tcp = some (.finishing p c))
    (h : f.flush tcp oks = some f') : Does none none tcp f f' := by
  have hclosed (g : Fetch) (hg : g.reqs = f.reqs) :
      Does none none tcp g ({ g with reqs := g.reqs.erase tcp }.call [.close tcp]) := by
    have hmoves := moves_erase g tcp g.timers
    refine Does.trans ⟨feeds_drop ?_ (fun t => h3_erase g t) fun t => ?_, hmoves⟩ (does_call (by simp [TcpCall.tcp]) _)
    · rw [h3, hg, he]
      rfl
    · rw [timerOf_erase]
      split
      · next ht =>
        rw [ht, timerOf, hg, he]
        rfl
      · rfl
  unfold flush at h
  rw [he] at h
  dsimp only at h
  obtain ⟨⟨g, ok, oks'⟩, hwrite, h⟩ := Option.bind_eq_some_iff.mp h
  obtain ⟨hdoes, hreqs⟩ := does_writePending (x := none) hwrite
  dsimp only at h hdoes hreqs
  split at h
  · cases h
    exact hdoes
  split at h
  · cases h
    exact hdoes.trans (hclosed g hreqs)
  · obtain ⟨⟨g', ok', oks''⟩, hwrite', rfl⟩ := Option.map_eq_some_iff.mp h
    obtain ⟨hdoes', hreqs'⟩ := does_writePending (x := none) hwrite'
    dsimp only at hdoes' hreqs' ⊢
    refine (hdoes.trans hdoes').trans ?_
    split
    · exact hclosed g' (hreqs'.trans hreqs)
    · refine does_insert (e := .finishing p c) ?_ rfl rfl
      rw [hreqs', hreqs]
      exact he

theorem does_frame (f : Fetch) (tcp : ℕ) (chunked : Bool) (bs : List UInt8) (ok : Bool) :
    Does x x tcp f (f.frame tcp chunked bs ok).1 ∧ (f.frame tcp chunked bs ok).1.reqs = f.reqs ∧
      (f.frame tcp chunked bs ok).1.ex = f.ex := by
  unfold frame
  split
  · exact ⟨.refl x tcp f, rfl, rfl⟩
  · exact ⟨does_call (by simp [TcpCall.tcp]) f, rfl, rfl⟩

theorem does_keep {id : ℕ} (method : Method) (chunked : Bool) (pending : List UInt8) (h : f.Opened tcp id) :
    Does none none tcp f (f.keep tcp id method chunked pending) ∧ (f.keep tcp id method chunked pending).Opened tcp id := by
  obtain ⟨m, s, c, p, he⟩ := h
  exact ⟨does_insert he rfl rfl, _, _, _, _, AList.lookup_insert f.reqs⟩

variable {chunked : Bool}

/-- One read: the entry is as it was and the pump goes on, or it was dealt with. -/
theorem does_pumpTurn {a : ReadTurn} {r : Fetch × Option (List UInt8)} (h : f.Opened tcp id)
    (hturn : f.pumpTurn tcp id chunked a = some r) :
    Does none none tcp f r.1 ∧ (r.2.isSome → r.1.Opened tcp id) := by
  unfold pumpTurn at hturn
  have hsettles := does_settles h.h3
    (Exchanges.settles_readBody f.ex id ((a.recv DL_CHUNK).map fun p => (p.1.length, p.2)))
    fun i hi => (acts_readBody f.ex id _).lookup_ne hi
  dsimp only at hturn
  generalize f.ex.readBody id ((a.recv DL_CHUNK).map fun p => (p.1.length, p.2)) = q at hturn hsettles
  split at hturn
  · next hout =>
    cases hturn
    rw [hout] at hsettles
    exact ⟨hsettles, nofun⟩
  · next hout =>
    cases hturn
    rw [hout] at hsettles
    exact ⟨hsettles.1.trans (does_abort _ tcp), nofun⟩
  · next n hout =>
    cases hturn
    rw [hout] at hsettles
    obtain ⟨hframe, hreqs, -⟩ := does_frame (x := none) { f with ex := q.1 } tcp chunked
      (((a.recv DL_CHUNK).toOption.elim [] Prod.fst).take n) a.ok
    refine ⟨hsettles.trans hframe, fun _ => ?_⟩
    unfold Opened
    rw [hreqs]
    exact h
  · next n hout =>
    rw [hout] at hsettles
    obtain ⟨hframe, hreqs, hex⟩ := does_frame (x := some tcp) { f with ex := q.1 } tcp chunked
      (((a.recv DL_CHUNK).toOption.elim [] Prod.fst).take n) a.ok
    generalize frame { f with ex := q.1 } tcp chunked _ a.ok = g at hturn hframe hreqs hex
    obtain ⟨f', hflush, rfl⟩ := Option.map_eq_some_iff.mp hturn
    have hopened : g.1.Opened tcp id := by
      unfold Opened
      rw [hreqs]
      exact h
    have hgone : g.1.ex.owner id = none := by
      rw [hex]
      exact hsettles.2
    have hflushed := does_flush (AList.lookup_insert g.1.reqs) hflush
    refine ⟨((hsettles.1.trans hframe).trans ⟨?_, moves_insert (.inl rfl)⟩).trans hflushed, nofun⟩
    exact feeds_finishing hopened hgone g.2 chunked

theorem does_pump {method : Method} {turns : List ReadTurn}
    (h : f.Opened tcp id) (hpump : f.pump tcp id method chunked pending turns = some f') : Does none none tcp f f' := by
  induction turns generalizing f pending with
  | nil =>
    unfold pump at hpump
    split at hpump
    · cases hpump
      exact (does_keep method chunked pending h).1
    · cases hpump
  | cons a turns ih =>
    obtain ⟨hkeep, hopened⟩ := does_keep method chunked pending h
    unfold pump at hpump
    dsimp only at hpump
    split at hpump
    · cases hpump
      exact hkeep
    split at hpump
    · cases hpump
    · next g hturn =>
      cases hpump
      exact hkeep.trans (does_pumpTurn hopened hturn).1
    · next g pending' hturn =>
      obtain ⟨hdoes, hopened'⟩ := does_pumpTurn hopened hturn
      exact (hkeep.trans hdoes).trans (ih (hopened' rfl) hpump)

variable {a : DlTurn}

theorem does_download (h : f.download tcp a = some f') : Does none none tcp f f' := by
  unfold download at h
  split at h
  · next id method started chunked pending he =>
    have hopened : f.Opened tcp id := ⟨_, _, _, _, he⟩
    split at h
    · exact does_pump hopened h
    · have hsettles := does_settles hopened.h3 (Exchanges.settles_readHead f.ex id a.fields a.recvHead)
        fun i hi => (acts_readHead f.ex id a.fields a.recvHead).lookup_ne hi
      dsimp only at h
      generalize f.ex.readHead id a.fields a.recvHead = q at h hsettles
      split at h
      · next hout =>
        cases h
        rw [hout] at hsettles
        exact hsettles
      · next reject hout =>
        cases h
        rw [hout] at hsettles
        exact hsettles.1.trans (does_synthReply _ tcp reject)
      · next head hout =>
        rw [hout] at hsettles
        have hsettles : Does none none tcp f { f with ex := q.1 } := hsettles
        split at h
        · cases h
          exact (hsettles.trans (does_except (some tcp) tcp _)).trans (does_synthReply _ tcp _)
        · exact (hsettles.trans (does_call (by simp [TcpCall.tcp]) _)).trans (does_pump ⟨_, _, _, _, he⟩ h)
  · cases h
    exact .refl none tcp f

/-! ### The request -/

variable {rx : List UInt8} {turns : List Turn}

theorem lookup_upload_ne {t : Exchanges Owner}
    {r : Exchanges Owner × List XCall × List UInt8 × Uploaded} (h : t.upload id rx turns = some r) {i : ℕ}
    (hi : i ≠ id) : r.1.lookup i = t.lookup i := by
  refine Exchanges.upload_rel (R := fun t t' => t'.lookup i = t.lookup i) (fun _ => rfl) (fun h h' => h'.trans h)
    (fun t data fin finished sent => ?_) h
  exact Exchanges.lookup_sendBody_ne t hi data fin finished sent

theorem does_upload (h : f.upload tcp rx turns a = some f') : Does none none tcp f f' := by
  unfold upload at h
  split at h
  · next id method started chunked pending he =>
    obtain ⟨⟨ex, calls, rest, out⟩, hup, h⟩ := Option.bind_eq_some_iff.mp h
    have hdoes : Does none none tcp f { f with ex } :=
      ⟨feeds_congr (owner_upload hup) (fun _ => rfl) (fun _ => rfl) rfl,
        moves_ex (Opened.h3 ⟨_, _, _, _, he⟩) (fun i hi => lookup_upload_ne hup hi) (.inl (owner_upload hup _))⟩
    dsimp only at h
    split at h
    · cases h
      exact hdoes
    · cases h
      exact hdoes
    · exact hdoes.trans (does_download h)
  · cases h
    exact .refl none tcp f

/-- **The socket gets an exchange**, under an id that the table does not hold. -/
theorem moves_opened {x : Exch Owner} {method : Method} {started : Bool}
    (hid : f.ex.owner id = none) (hx : x.owner = .fetch tcp) :
    Moves tcp f { f with
      ex := f.ex.insert id x, reqs := f.reqs.insert tcp (.opened id method started chunked pending) } := by
  intro h
  refine ⟨fun i y hi hy => ?_, fun t ht => AList.lookup_insert_ne ht,
    ⟨[], (List.append_nil _).symm, List.forall_mem_nil _⟩, fun i y hi hy => ?_⟩
  · rw [h3, AList.lookup_insert, Option.bind_some] at hi
    cases hi
    have hy : (f.ex.insert id x).lookup id = some y := hy
    rw [AList.lookup_insert] at hy
    cases hy
    exact hx
  · refine (AList.lookup_insert_ne ?_).trans hi
    rintro rfl
    rw [Exchanges.owner, hi] at hid
    cases hid

theorem does_headData {parsed : Parsed} {tunnel opened : Option ℕ} {sent : Bool}
    (h : f.headData tcp parsed tunnel opened sent rx turns a = some f') : Does none none tcp f f' := by
  have hremoved := does_removed f tcp
  unfold headData at h
  split at h
  · cases h
    exact .refl none tcp f
  · cases h
    exact hremoved.trans (does_call (by simp [TcpCall.tcp]) _)
  dsimp only at h
  split at h
  · cases h
    exact hremoved.trans (does_call (by simp [TcpCall.tcp]) _)
  next req =>
    split at h
    · cases h
      exact hremoved.trans (does_call (by simp [TcpCall.tcp]) _)
    next conn =>
      split at h
      · cases h
      next hfresh =>
        have hfresh : fresh (f.remove tcp).ex opened = true := by simpa using hfresh
        split at h
        · next r hout =>
          cases h
          rw [Exchanges.openReq_error hout]
          exact hremoved.trans (does_call (by simp [TcpCall.tcp]) _)
        · next id hout =>
          obtain ⟨hopened, htable⟩ := Exchanges.openReq_ok hout
          refine hremoved.trans (Does.trans ?_ (does_upload h))
          have hid := owner_of_fresh hfresh hopened
          rw [htable]
          exact ⟨feeds_opened (lookup_remove f tcp) hid fun i => Exchanges.owner_insert .., moves_opened hid rfl⟩

theorem does_onTcpData {parsed : Parsed} {tunnel opened : Option ℕ} {sent : Bool}
    (h : f.onTcpData tcp parsed tunnel opened sent rx turns a = some f') : Does none none tcp f f' := by
  unfold onTcpData at h
  split at h
  · exact does_headData h
  · exact does_upload h
  · cases h
    exact .refl none tcp f

theorem does_onReady {r : Ready} (h : f.onReady tcp r rx turns a = some f') : Does none none tcp f f' := by
  cases r with
  | readable => exact does_download h
  | writable => exact does_upload h

theorem does_onTcpEnd (f : Fetch) (tcp : ℕ) (error : Bool) (buffered : UInt64) :
    Does none none tcp f (f.onTcpEnd tcp error buffered) := by
  have hremoved := does_removed f tcp
  unfold onTcpEnd
  split
  · exact .refl none tcp f
  · split
    · exact hremoved
    · exact hremoved.trans (does_call (by simp [TcpCall.tcp]) _)
  · next id method started chunked pending he =>
    split
    · exact hremoved
    · have hsettles := does_settles (Opened.h3 ⟨_, _, _, _, he⟩) (Exchanges.settles_uploadEof f.ex id buffered)
        fun i hi => (acts_uploadEof f.ex id buffered).lookup_ne hi
      dsimp only
      generalize f.ex.uploadEof id buffered = q at hsettles ⊢
      cases hout : q.2.2 with
      | truncated =>
        rw [hout] at hsettles
        exact hsettles.1.trans (does_abort _ tcp)
      | complete =>
        rw [hout] at hsettles
        exact hsettles
  · split
    · exact hremoved
    · exact .refl none tcp f

theorem does_onTcpWritable {ok : Bool} (h : f.onTcpWritable tcp ok oks a = some f') : Does none none tcp f f' := by
  unfold onTcpWritable at h
  split at h
  · next id method started chunked pending he =>
    have hcall : Does none none tcp f (f.call [.write tcp pending ok]) := does_call (by simp [TcpCall.tcp]) f
    dsimp only at h
    split at h
    · refine hcall.trans (Does.trans ?_ (does_download h))
      exact does_insert (e := .opened id method started chunked pending) he rfl rfl
    · cases h
      exact hcall
  · next he => exact does_flush he h
  · cases h
    exact .refl none tcp f

end Fetch

end MqProxy.Client
