import MqProxy.Client.ExchangeSpec
import MqProxy.Client.Gateway

/-!
# The exchanges of the fetch front

The entry of a socket that is open holds an exchange, and the table names the socket as its
owner. A callback may break this in between, but only for the socket that it is about:
`Fed x` excepts the socket `x`, which may hold an exchange that has left the table. Each part
of a callback is a step `Feeds x x'` from one exception to another, and a callback as a whole
is a step from none to none, in which the exchanges of the MITM front do not change hands. The steps
that the callbacks are made of are here, the callbacks themselves in `FetchApart`.
-/

namespace MqProxy.Client

open MqProxy.Http

/-! ### Entries and the table -/

/-- The exchange of an entry. -/
def GwReq.h3 : GwReq → Option ℕ
  | .opened h3 _ _ _ _ => some h3
  | _ => none

/-- The timer of an entry. -/
def GwReq.timer : GwReq → Option ℕ
  | .head timer => some timer
  | _ => none

namespace Fetch

/-- The exchange that a socket's entry holds. -/
def h3 (f : Fetch) (tcp : ℕ) : Option ℕ := (f.reqs.lookup tcp).bind GwReq.h3

/-- The timer that a socket's entry holds. -/
def timerOf (f : Fetch) (tcp : ℕ) : Option ℕ := (f.reqs.lookup tcp).bind GwReq.timer

/-- **The entries hold the exchanges of fetches**, where `x` may hold one that has left the table; and
the timers are those of the entries that await a head. -/
structure Fed (x : Option ℕ) (f : Fetch) : Prop where
  sound : ∀ id tcp, f.ex.owner id = some (.fetch tcp) → f.h3 tcp = some id
  whole : ∀ tcp id, f.h3 tcp = some id → f.ex.owner id = some (.fetch tcp) ∨ x = some tcp ∧ f.ex.owner id = none
  timer : ∀ t tcp, f.timers.lookup t = some tcp ↔ f.timerOf tcp = some t

/-- What a part of a callback does: the exchanges of the MITM front do not change hands. -/
def Feeds (x x' : Option ℕ) (f f' : Fetch) : Prop :=
  Fed x f → Fed x' f' ∧ ∀ id c k, f'.ex.owner id = some (.mitm c k) ↔ f.ex.owner id = some (.mitm c k)

variable {f f' f'' : Fetch} {x x' x'' : Option ℕ} {tcp : ℕ}

theorem Feeds.trans (h : Feeds x x' f f') (h' : Feeds x' x'' f' f'') : Feeds x x'' f f'' := by
  intro hfed
  obtain ⟨hfed', hmitm⟩ := h hfed
  obtain ⟨hfed'', hmitm'⟩ := h' hfed'
  exact ⟨hfed'', fun id c k => (hmitm' id c k).trans (hmitm id c k)⟩

theorem Feeds.refl (x : Option ℕ) (f : Fetch) : Feeds x x f f := fun h => ⟨h, fun _ _ _ => Iff.rfl⟩

/-- Nothing may be excepted that is not. -/
theorem feeds_except (x : Option ℕ) (f : Fetch) : Feeds none x f f := fun h =>
  ⟨⟨h.sound, fun tcp id hid => (h.whole tcp id hid).imp_right fun hx => (nomatch hx.1), h.timer⟩, fun _ _ _ => Iff.rfl⟩

/-- The owners, the entries' exchanges and the timers are all that matters. -/
theorem feeds_congr (howner : ∀ i, f'.ex.owner i = f.ex.owner i) (hh3 : ∀ t, f'.h3 t = f.h3 t)
    (htimerOf : ∀ t, f'.timerOf t = f.timerOf t) (htimers : f'.timers = f.timers) : Feeds x x f f' := by
  intro h
  refine ⟨⟨fun id tcp hid => ?_, fun tcp id hid => ?_, fun t tcp => ?_⟩, fun id c k => by rw [howner]⟩
  · rw [howner] at hid
    rw [hh3]
    exact h.sound id tcp hid
  · rw [hh3] at hid
    rw [howner]
    exact h.whole tcp id hid
  · rw [htimers, htimerOf]
    exact h.timer t tcp

theorem feeds_call (f : Fetch) (cs : List TcpCall) : Feeds x x f (f.call cs) :=
  feeds_congr (fun _ => rfl) (fun _ => rfl) (fun _ => rfl) rfl

theorem h3_insert (f : Fetch) (e : GwReq) (t : ℕ) :
    h3 { f with reqs := f.reqs.insert tcp e } t = if t = tcp then e.h3 else f.h3 t := by
  unfold h3
  split
  · next h => rw [h, AList.lookup_insert, Option.bind_some]
  · next h => rw [AList.lookup_insert_ne h]

theorem timerOf_insert (f : Fetch) (e : GwReq) (t : ℕ) :
    timerOf { f with reqs := f.reqs.insert tcp e } t = if t = tcp then e.timer else f.timerOf t := by
  unfold timerOf
  split
  · next h => rw [h, AList.lookup_insert, Option.bind_some]
  · next h => rw [AList.lookup_insert_ne h]

theorem h3_erase (f : Fetch) (t : ℕ) :
    h3 { f with reqs := f.reqs.erase tcp } t = if t = tcp then none else f.h3 t := by
  unfold h3
  split
  · next h => rw [h, AList.lookup_erase, Option.bind_none]
  · next h => rw [AList.lookup_erase_ne h]

theorem timerOf_erase (f : Fetch) (t : ℕ) :
    timerOf { f with reqs := f.reqs.erase tcp } t = if t = tcp then none else f.timerOf t := by
  unfold timerOf
  split
  · next h => rw [h, AList.lookup_erase, Option.bind_none]
  · next h => rw [AList.lookup_erase_ne h]

/-- An entry is replaced by one that holds the same. -/
theorem feeds_insert {e e' : GwReq} (he : f.reqs.lookup tcp = some e) (hh3 : e'.h3 = e.h3) (htimer : e'.timer = e.timer) :
    Feeds x x f { f with reqs := f.reqs.insert tcp e' } := by
  refine feeds_congr (fun _ => rfl) (fun t => ?_) (fun t => ?_) rfl
  · rw [h3_insert]
    split
    · next h => rw [h, h3, he, Option.bind_some, hh3]
    · rfl
  · rw [timerOf_insert]
    split
    · next h => rw [h, timerOf, he, Option.bind_some, htimer]
    · rfl

/-- **The exchange of an entry leaves the table.** -/
theorem feeds_gone {ex : Exchanges Owner} {id : ℕ} (hid : f.h3 tcp = some id)
    (howner : ∀ i, ex.owner i = if i = id then none else f.ex.owner i) : Feeds (some tcp) (some tcp) f { f with ex } := by
  intro h
  have hcases := h.whole tcp id hid
  refine ⟨⟨fun i t hi => ?_, fun t i hi => ?_, h.timer⟩, fun i c k => ?_⟩
  · have hi : ex.owner i = some (.fetch t) := hi
    rw [howner] at hi
    split at hi
    · cases hi
    · exact h.sound i t hi
  · show ex.owner i = _ ∨ _ ∧ ex.owner i = _
    rw [howner]
    rcases h.whole t i hi with ht | ⟨ht, hnone⟩
    · split
      · next hii =>
        subst hii
        refine Or.inr ⟨?_, rfl⟩
        rcases hcases with hown | ⟨-, hnone⟩
        · cases ht.symm.trans hown
          rfl
        · exact nomatch ht.symm.trans hnone
      · exact Or.inl ht
    · refine Or.inr ⟨ht, ?_⟩
      split
      · rfl
      · exact hnone
  · show ex.owner i = _ ↔ _
    rw [howner]
    split
    · next hii =>
      subst hii
      refine ⟨nofun, fun hi => ?_⟩
      rcases hcases with hown | ⟨-, hnone⟩
      · exact nomatch hown.symm.trans hi
      · exact nomatch hnone.symm.trans hi
    · exact Iff.rfl

/-- An entry without an exchange in the table goes, or holds none from now on. -/
theorem feeds_clear {reqs : AList fun _ : ℕ => GwReq} (hnone : ∀ id, f.ex.owner id ≠ some (.fetch tcp))
    (hh3 : ∀ t, h3 { f with reqs } t = if t = tcp then none else f.h3 t)
    (htimer : ∀ t, timerOf { f with reqs } t = f.timerOf t) : Feeds (some tcp) none f { f with reqs } := by
  intro h
  refine ⟨⟨fun id t hid => ?_, fun t id hid => ?_, fun t t' => ?_⟩, fun _ _ _ => Iff.rfl⟩
  · rw [hh3]
    split
    · next ht =>
      subst ht
      exact absurd hid (hnone id)
    · exact h.sound id t hid
  · rw [hh3] at hid
    split at hid
    · cases hid
    · next ht =>
      refine Or.inl ((h.whole t id hid).resolve_right fun hx => ht ?_)
      exact (Option.some.inj hx.1).symm
  · rw [htimer]
    exact h.timer t t'

/-- An entry without an exchange goes, or is replaced by such a one. -/
theorem feeds_drop {reqs : AList fun _ : ℕ => GwReq} (hnone : f.h3 tcp = none)
    (hh3 : ∀ t, h3 { f with reqs } t = if t = tcp then none else f.h3 t)
    (htimer : ∀ t, timerOf { f with reqs } t = f.timerOf t) : Feeds none none f { f with reqs } := by
  intro h
  refine (feeds_except (some tcp) f).trans (feeds_clear (fun id hid => ?_) hh3 htimer) h
  exact nomatch hnone.symm.trans (h.sound id tcp hid)

/-- The timer of an entry is cancelled with it. -/
theorem feeds_cancel {timer : ℕ} (he : f.reqs.lookup tcp = some (.head timer)) :
    Feeds (some tcp) none f ({ f with reqs := f.reqs.erase tcp }.cancel timer) := by
  intro h
  have hh3 : f.h3 tcp = none := by rw [h3, he]; rfl
  have htimer : f.timerOf tcp = some timer := by rw [timerOf, he]; rfl
  have hlookup := (h.timer timer tcp).mpr htimer
  refine ⟨⟨fun id t hid => ?_, fun t id hid => ?_, fun t t' => ?_⟩, fun _ _ _ => Iff.rfl⟩
  · show h3 { f with reqs := f.reqs.erase tcp } t = some id
    rw [h3_erase]
    split
    · next ht =>
      subst ht
      exact nomatch hh3.symm.trans (h.sound id t hid)
    · exact h.sound id t hid
  · have hid : h3 { f with reqs := f.reqs.erase tcp } t = some id := hid
    rw [h3_erase] at hid
    split at hid
    · cases hid
    · next ht => exact Or.inl ((h.whole t id hid).resolve_right fun hx => ht (Option.some.inj hx.1).symm)
  · show (f.timers.erase timer).lookup t = some t' ↔ timerOf { f with reqs := f.reqs.erase tcp } t' = some t
    rw [timerOf_erase]
    by_cases ht : t = timer
    · rw [ht, AList.lookup_erase]
      split
      · exact ⟨nofun, nofun⟩
      · next ht' =>
        refine ⟨nofun, fun hold => absurd ?_ ht'⟩
        exact Option.some.inj (((h.timer timer t').mpr hold).symm.trans hlookup)
    · rw [AList.lookup_erase_ne ht, h.timer]
      split
      · next ht' =>
        subst ht'
        rw [htimer]
        exact ⟨fun heq => absurd (Option.some.inj heq).symm ht, nofun⟩
      · rfl

/-- **An entry is removed**, with its timer or its exchange. -/
theorem feeds_remove (f : Fetch) (tcp : ℕ) : Feeds (some tcp) none f (f.remove tcp) := by
  have hclear (g : Fetch) (hh3 : ∀ id, g.h3 tcp = some id → g.ex.owner id = none) (htimer : g.timerOf tcp = none) :
      Feeds (some tcp) none g { g with reqs := g.reqs.erase tcp } := by
    intro h
    refine feeds_clear (fun id hid => ?_) (fun t => h3_erase g t) (fun t => ?_) h
    · exact nomatch (hh3 id (h.sound id tcp hid)).symm.trans hid
    · rw [timerOf_erase]
      split
      · next ht => rw [ht, htimer]
      · rfl
  unfold remove
  dsimp only
  split
  · next timer he => exact feeds_cancel he
  · next id method started chunked pending he =>
    have hid : f.h3 tcp = some id := by rw [h3, he]; rfl
    have hgone : Feeds (some tcp) (some tcp) f { f with ex := (f.ex.fail id).1 } :=
      feeds_gone hid fun i => Exchanges.owner_fail f.ex id i
    refine hgone.trans (hclear { f with ex := (f.ex.fail id).1 } (fun i hi => ?_) (by rw [timerOf, he]; rfl))
    have hi : f.h3 tcp = some i := hi
    cases hid.symm.trans hi
    rw [Exchanges.owner_fail, if_pos rfl]
  · next hhead hopened =>
    refine hclear f (fun id hid => ?_) ?_
    · cases he : f.reqs.lookup tcp with
      | none =>
        rw [h3, he] at hid
        cases hid
      | some e =>
        cases e with
        | head timer => exact absurd he (hhead timer)
        | opened i m s c p => exact absurd he (hopened i m s c p)
        | finishing p c =>
          rw [h3, he] at hid
          cases hid
    · cases he : f.reqs.lookup tcp with
      | none => rw [timerOf, he]; rfl
      | some e =>
        cases e with
        | head timer => exact absurd he (hhead timer)
        | opened i m s c p => exact absurd he (hopened i m s c p)
        | finishing p c => rw [timerOf, he]; rfl

theorem feeds_abort (f : Fetch) (tcp : ℕ) : Feeds (some tcp) none f (f.abort tcp) :=
  (feeds_call f _).trans (feeds_remove _ tcp)

theorem feeds_synthReply (f : Fetch) (tcp : ℕ) (r : Reject) : Feeds (some tcp) none f (f.synthReply tcp r) :=
  (feeds_call f _).trans (feeds_remove _ tcp)

/-- A read for an entry: the exchange is as before, or has left the table. -/
theorem feeds_settles {β : Type} {ends : β → Bool} {r : Exchanges Owner × List XCall × β} {id : ℕ}
    (hid : f.h3 tcp = some id) (hr : Exchanges.Settles ends f.ex id r) :
    if ends r.2.2 then Feeds none (some tcp) f { f with ex := r.1 } ∧ r.1.owner id = none
    else Feeds none none f { f with ex := r.1 } := by
  cases hends : ends r.2.2 with
  | true =>
    rw [if_pos rfl]
    refine ⟨(feeds_except (some tcp) f).trans (feeds_gone hid fun i => ?_), ?_⟩
    · rw [hr i]
      simp [hends]
    · rw [hr id]
      simp [hends]
  | false =>
    rw [if_neg Bool.false_ne_true]
    refine feeds_congr (fun i => ?_) (fun _ => rfl) (fun _ => rfl) rfl
    show r.1.owner i = _
    rw [hr i]
    simp [hends]

/-- The entry of a socket is open, with this exchange. -/
def Opened (f : Fetch) (tcp id : ℕ) : Prop :=
  ∃ method started chunked pending, f.reqs.lookup tcp = some (.opened id method started chunked pending)

theorem Opened.h3 {id : ℕ} (h : f.Opened tcp id) : f.h3 tcp = some id := by
  obtain ⟨m, s, c, p, he⟩ := h
  rw [Fetch.h3, he]
  rfl

theorem Opened.timerOf {id : ℕ} (h : f.Opened tcp id) : f.timerOf tcp = none := by
  obtain ⟨m, s, c, p, he⟩ := h
  rw [Fetch.timerOf, he]
  rfl

theorem opened_of_h3 {id : ℕ} (h : f.h3 tcp = some id) : f.Opened tcp id := by
  obtain ⟨e, he, hid⟩ := Option.bind_eq_some_iff.mp h
  cases e with
  | head => cases hid
  | finishing => cases hid
  | opened i m s c p =>
    cases hid
    exact ⟨m, s, c, p, he⟩

/-- An entry whose exchange has left the table is finishing from now on. -/
theorem feeds_finishing {id : ℕ} (h : f.Opened tcp id) (hid : f.ex.owner id = none) (pending : List UInt8) (chunked : Bool) :
    Feeds (some tcp) none f { f with reqs := f.reqs.insert tcp (.finishing pending chunked) } := by
  intro hfed
  refine feeds_clear (fun i hi => ?_) (fun t => h3_insert f _ t) (fun t => ?_) hfed
  · cases h.h3.symm.trans (hfed.sound i tcp hi)
    exact nomatch hid.symm.trans hi
  · refine (timerOf_insert f _ t).trans ?_
    split
    · next ht => rw [ht, h.timerOf]; rfl
    · rfl

theorem owner_upload {t : Exchanges Owner} {id : ℕ} {rx : List UInt8} {turns : List Turn}
    {r : Exchanges Owner × List XCall × List UInt8 × Uploaded} (h : t.upload id rx turns = some r) (i : ℕ) :
    r.1.owner i = t.owner i := by
  refine Exchanges.upload_rel (R := fun t t' => ∀ i, t'.owner i = t.owner i) (fun _ _ => rfl)
    (fun h h' i => (h' i).trans (h i)) (fun t data fin finished sent i => ?_) h i
  exact Exchanges.owner_sendBody t id data fin finished sent i

/-- What holds nothing after `remove`. -/
theorem lookup_remove (f : Fetch) (tcp : ℕ) : (f.remove tcp).reqs.lookup tcp = none := by
  unfold remove
  dsimp only
  split <;> exact AList.lookup_erase tcp f.reqs

theorem feeds_removed (f : Fetch) (tcp : ℕ) : Feeds none none f (f.remove tcp) :=
  (feeds_except (some tcp) f).trans (feeds_remove f tcp)

/-- **A socket without an entry gets an exchange**, under an id that the table does not hold. -/
theorem feeds_opened {ex : Exchanges Owner} {id : ℕ} {method : Method} {started chunked : Bool} {pending : List UInt8}
    (hreqs : f.reqs.lookup tcp = none) (hid : f.ex.owner id = none)
    (howner : ∀ i, ex.owner i = if i = id then some (.fetch tcp) else f.ex.owner i) :
    Feeds none none f { f with ex, reqs := f.reqs.insert tcp (.opened id method started chunked pending) } := by
  intro h
  have hnone : f.h3 tcp = none := by rw [h3, hreqs]; rfl
  have hh3 (t : ℕ) : h3 { f with ex, reqs := f.reqs.insert tcp (.opened id method started chunked pending) } t =
      if t = tcp then some id else f.h3 t :=
    h3_insert { f with ex } _ t
  refine ⟨⟨fun i t hi => ?_, fun t i hi => ?_, fun t t' => ?_⟩, fun i c k => ?_⟩
  · have hi : ex.owner i = some (.fetch t) := hi
    rw [howner] at hi
    rw [hh3]
    split at hi
    · next hii =>
      cases hi
      rw [if_pos rfl, hii]
    · have hold := h.sound i t hi
      rw [if_neg, hold]
      rintro rfl
      exact nomatch hnone.symm.trans hold
  · left
    show ex.owner i = _
    rw [hh3] at hi
    rw [howner]
    split at hi
    · next ht =>
      cases hi
      rw [if_pos rfl, ht]
    · rcases h.whole t i hi with hold | hx
      · rw [if_neg, hold]
        rintro rfl
        exact nomatch hid.symm.trans hold
      · exact nomatch hx.1
  · have htimer : timerOf { f with ex, reqs := f.reqs.insert tcp (.opened id method started chunked pending) } t' =
        if t' = tcp then none else f.timerOf t' := timerOf_insert { f with ex } _ t'
    refine (h.timer t t').trans ?_
    rw [htimer]
    split
    · next ht =>
      rw [ht, timerOf, hreqs]
      exact ⟨nofun, nofun⟩
    · rfl
  · show ex.owner i = _ ↔ _
    rw [howner]
    split
    · next hii =>
      rw [hii, hid]
      exact ⟨nofun, nofun⟩
    · rfl

/-- The timer of a socket that awaits its head. -/
theorem feeds_onTimer {timer : ℕ} (h : f.onTimer timer = some f') : Feeds none none f f' := by
  intro hfed
  obtain ⟨tcp, htimer, rfl⟩ := Option.map_eq_some_iff.mp h
  have hof := (hfed.timer timer tcp).mp htimer
  obtain ⟨e, he, hhead⟩ := Option.bind_eq_some_iff.mp hof
  cases e with
  | opened => cases hhead
  | finishing => cases hhead
  | head t =>
    cases hhead
    dsimp only
    rw [he, Option.isSome_some, if_pos rfl]
    exact (((feeds_except (some tcp) f).trans (feeds_cancel he)).trans (feeds_call _ _)) hfed

theorem feeds_onShutdown (f : Fetch) : Feeds none none f f.onShutdown := by
  have hfold (ks : List ℕ) (g : Fetch) : Feeds none none g (ks.foldl abort g) := by
    induction ks generalizing g with
    | nil => exact .refl none g
    | cons k ks ih => exact ((feeds_except (some k) g).trans (feeds_abort g k)).trans (ih _)
  exact hfold f.reqs.keys f

/-- A socket is new, and so is its timer. -/
theorem feeds_onAccepted {timer : ℕ} (hreqs : f.reqs.lookup tcp = none) (htimers : f.timers.lookup timer = none) :
    Feeds none none f (f.onAccepted tcp timer) := by
  intro h
  have hnone : f.h3 tcp = none := by rw [h3, hreqs]; rfl
  have hh3 (t : ℕ) : (f.onAccepted tcp timer).h3 t = f.h3 t := by
    refine (h3_insert { f with timers := f.timers.insert timer tcp } (.head timer) t).trans ?_
    split
    · next ht => rw [ht, hnone]; rfl
    · rfl
  refine ⟨⟨fun i t hi => (hh3 t).trans (h.sound i t hi), fun t i hi => h.whole t i ((hh3 t).symm.trans hi),
    fun t t' => ?_⟩, fun _ _ _ => Iff.rfl⟩
  have htimer : (f.onAccepted tcp timer).timerOf t' = if t' = tcp then some timer else f.timerOf t' :=
    timerOf_insert { f with timers := f.timers.insert timer tcp } _ t'
  rw [htimer]
  show (f.timers.insert timer tcp).lookup t = some t' ↔ _
  by_cases ht : t = timer
  · rw [ht, AList.lookup_insert]
    split
    · next ht' =>
      rw [ht']
      exact ⟨fun _ => rfl, fun _ => rfl⟩
    · next ht' =>
      refine ⟨fun heq => absurd (Option.some.inj heq).symm ht', fun hold => ?_⟩
      exact nomatch htimers.symm.trans ((h.timer timer t').mpr hold)
  · rw [AList.lookup_insert_ne ht, h.timer]
    split
    · next ht' =>
      rw [ht', timerOf, hreqs]
      exact ⟨nofun, fun heq => absurd (Option.some.inj heq).symm ht⟩
    · rfl

end Fetch

end MqProxy.Client
