import MqProxy.Client.MitmPolicy
import MqProxy.Library.Table
import Mathlib.Data.List.MinMax

/-!
# The cache of forged certificates

`config_for` of `mq-proxy/src/client/mitm/leaf.rs`. A shard keeps a ready TLS configuration for
each of the names it has forged a certificate for, up to 256 of them, and forges a new one when
there is none or its time is over. What the clock reads is part of a call, and so is what forging
comes to if it is done: the certificate and the configuration around it, or an error. Times are
in nanoseconds, before or after the epoch.

**`leaf_cache`** is about any sequence of calls, whatever the clock reads in each of them.
-/

namespace MqProxy.Client

open MqProxy.Library

/-- `LEAF_CAP`. -/
def LEAF_CAP : ℕ := 256

/-- `TTL`. -/
def TTL : ℤ := 24 * 3600 * 1000000000

/-- `BACKDATE`. -/
def BACKDATE : ℤ := 3600 * 1000000000

/-- `REFORGE`. -/
def REFORGE : ℤ := 30 * 1000000000

variable {ε γ : Type}

/-- `Entry`. -/
structure Entry (γ : Type) where
  cfg : γ
  notBefore : ℤ
  notAfter : ℤ
  used : ℕ

/-- `LeafStore`, of configurations in `γ`. -/
structure LeafStore (γ : Type) where
  cache : AList fun _ : Sni => Entry γ
  tick : ℕ
  hit : ℕ
  miss : ℕ

/-- A call of `config_for`: the name, what the clock reads, and what `forge` and `server_config`
come to. -/
structure Call (ε γ : Type) where
  sni : Sni
  now : ℤ
  forged : Except ε γ

namespace LeafStore

/-- `LeafStore::new`. -/
def new : LeafStore γ := ⟨∅, 0, 0, 0⟩

/-- The entry for a name, if it is a hit. -/
def lookup (s : LeafStore γ) (sni : Sni) (now : ℤ) : Option (Entry γ) :=
  (s.cache.lookup sni).filter fun e => e.notBefore ≤ now ∧ now < e.notAfter - REFORGE

/-- `min_by_key(|(_, e)| e.used)`. -/
def lru (cache : AList fun _ : Sni => Entry γ) : Option Sni :=
  (cache.entries.argmin fun e => e.2.used).map Sigma.fst

/-- Room for a new name. -/
def evict (cache : AList fun _ : Sni => Entry γ) (sni : Sni) : AList fun _ : Sni => Entry γ :=
  if LEAF_CAP ≤ cache.keys.length ∧ cache.lookup sni = none then
    match lru cache with
    | some k => cache.erase k
    | none => cache
  else cache

/-- `config_for`. -/
def configFor (s : LeafStore γ) (c : Call ε γ) : Except ε γ × LeafStore γ :=
  let tick := s.tick + 1
  match s.lookup c.sni c.now with
  | some e =>
    (.ok e.cfg, { s with cache := s.cache.insert c.sni { e with used := tick }, tick, hit := s.hit + 1 })
  | none =>
    match c.forged with
    | .error e => (.error e, { s with tick, miss := s.miss + 1 })
    | .ok cfg =>
      let entry : Entry γ := ⟨cfg, c.now - BACKDATE, c.now + TTL, tick⟩
      (.ok cfg, { s with cache := (evict s.cache c.sni).insert c.sni entry, tick, miss := s.miss + 1 })

/-- The store after a sequence of calls. -/
def after (calls : List (Call ε γ)) : LeafStore γ := calls.foldl (fun s c => (s.configFor c).2) new

theorem after_concat (pre : List (Call ε γ)) (c : Call ε γ) : after (pre ++ [c]) = ((after pre).configFor c).2 := by
  rw [after, List.foldl_concat]
  rfl

variable {sni : Sni} {e : Entry γ}

theorem lookup_eq_some {s : LeafStore γ} {now : ℤ} (h : s.lookup sni now = some e) :
    s.cache.lookup sni = some e ∧ e.notBefore ≤ now ∧ now < e.notAfter - REFORGE := by
  obtain ⟨he, hwindow⟩ := Option.filter_eq_some_iff.mp h
  exact ⟨he, of_decide_eq_true hwindow⟩

/-- **What a call can come to**: a hit, a failure, or a new configuration. -/
theorem configFor_cases (s : LeafStore γ) (c : Call ε γ) :
    (∃ e, s.lookup c.sni c.now = some e ∧ s.configFor c = (.ok e.cfg, { s with
      cache := s.cache.insert c.sni { e with used := s.tick + 1 }, tick := s.tick + 1, hit := s.hit + 1 })) ∨
    (s.lookup c.sni c.now = none ∧ ∃ err, c.forged = .error err ∧
      s.configFor c = (.error err, { s with tick := s.tick + 1, miss := s.miss + 1 })) ∨
    (s.lookup c.sni c.now = none ∧ ∃ cfg, c.forged = .ok cfg ∧ s.configFor c = (.ok cfg, { s with
      cache := (evict s.cache c.sni).insert c.sni ⟨cfg, c.now - BACKDATE, c.now + TTL, s.tick + 1⟩,
      tick := s.tick + 1, miss := s.miss + 1 })) := by
  unfold configFor
  dsimp only
  split
  · next e he => exact .inl ⟨e, he, rfl⟩
  · next hmiss =>
    split
    · next err herr => exact .inr (.inl ⟨hmiss, err, herr, rfl⟩)
    · next cfg hcfg => exact .inr (.inr ⟨hmiss, cfg, hcfg, rfl⟩)

/-! ### What a call did -/

/-- The call, after those before it, forged a configuration. -/
def Forged (pre : List (Call ε γ)) (c : Call ε γ) (cfg : γ) : Prop :=
  (after pre).lookup c.sni c.now = none ∧ c.forged = .ok cfg

/-- The call in this place returned a configuration for the name. -/
def ReturnedAt (calls : List (Call ε γ)) (sni : Sni) (i : ℕ) : Prop :=
  ∃ pre c post cfg, calls = pre ++ c :: post ∧ pre.length = i ∧ c.sni = sni ∧ ((after pre).configFor c).1 = .ok cfg

variable {i : ℕ}

theorem ReturnedAt.lt {calls : List (Call ε γ)} (h : ReturnedAt calls sni i) : i < calls.length := by
  obtain ⟨pre, c, post, cfg, rfl, rfl, -⟩ := h
  simp

/-- A call returns for one name. -/
theorem ReturnedAt.sni_inj {calls : List (Call ε γ)} {sni sni' : Sni} {i : ℕ} (h : ReturnedAt calls sni i)
    (h' : ReturnedAt calls sni' i) : sni = sni' := by
  obtain ⟨pre, c, post, cfg, rfl, rfl, rfl, -⟩ := h
  obtain ⟨pre', c', post', cfg', heq, hlength, rfl, -⟩ := h'
  obtain ⟨-, htail⟩ := List.append_inj heq hlength.symm
  rw [(List.cons.inj htail).1]

variable {pre : List (Call ε γ)} {c : Call ε γ}

/-- What one call more returned. -/
theorem returnedAt_concat : ReturnedAt (pre ++ [c]) sni i ↔
      ReturnedAt pre sni i ∨ (i = pre.length ∧ c.sni = sni ∧ ∃ cfg, ((after pre).configFor c).1 = .ok cfg) := by
  constructor
  · rintro ⟨pre', c', post, cfg, heq, rfl, hsni, hok⟩
    rcases List.eq_nil_or_concat post with rfl | ⟨post, c'', rfl⟩
    · obtain ⟨rfl, hc⟩ := List.append_inj' heq rfl
      obtain rfl := (List.cons.inj hc).1
      exact .inr ⟨rfl, hsni, cfg, hok⟩
    · rw [List.concat_eq_append, ← List.cons_append, ← List.append_assoc] at heq
      obtain ⟨rfl, -⟩ := List.append_inj' heq rfl
      exact .inl ⟨pre', c', post, cfg, rfl, rfl, hsni, hok⟩
  · rintro (⟨pre', c', post, cfg, rfl, rfl, hsni, hok⟩ | ⟨rfl, hsni, cfg, hok⟩)
    · exact ⟨pre', c', post ++ [c], cfg, by simp, rfl, hsni, hok⟩
    · exact ⟨pre, c, [], cfg, rfl, rfl, hsni, hok⟩

theorem ReturnedAt.concat (h : ReturnedAt pre sni i) (c : Call ε γ) : ReturnedAt (pre ++ [c]) sni i :=
  returnedAt_concat.mpr (.inl h)

/-! ### What the cache holds -/

/-- Where an entry comes from, and when it was last returned. -/
structure IsFrom (calls : List (Call ε γ)) (sni : Sni) (e : Entry γ) : Prop where
  forged : ∃ pre c post, calls = pre ++ c :: post ∧ c.sni = sni ∧ Forged pre c e.cfg ∧ e.notBefore = c.now - BACKDATE ∧
    e.notAfter = c.now + TTL
  returned : ∃ i, e.used = i + 1 ∧ ReturnedAt calls sni i
  latest : ∀ i, ReturnedAt calls sni i → i < e.used

/-- An entry that stays, with a call for another name or one that fails. -/
theorem IsFrom.concat (h : IsFrom pre sni e)
    (hother : c.sni ≠ sni ∨ ∃ err, ((after pre).configFor c).1 = .error err) : IsFrom (pre ++ [c]) sni e where
  forged := by
    obtain ⟨pre', c', post, rfl, hsni, hforged⟩ := h.forged
    exact ⟨pre', c', post ++ [c], by simp, hsni, hforged⟩
  returned := by
    obtain ⟨i, hused, hi⟩ := h.returned
    exact ⟨i, hused, hi.concat c⟩
  latest := by
    intro i hi
    rcases returnedAt_concat.mp hi with hi | ⟨-, hsni, cfg, hok⟩
    · exact h.latest i hi
    · rcases hother with hne | ⟨err, herr⟩
      · exact absurd hsni hne
      · rw [herr] at hok
        cases hok

/-- The entry of a name that a call returns. -/
theorem isFrom_returned {pre : List (Call ε γ)} {c : Call ε γ} {e : Entry γ}
    (hforged : ∃ pre' c' post, pre ++ [c] = pre' ++ c' :: post ∧ c'.sni = c.sni ∧ Forged pre' c' e.cfg ∧
      e.notBefore = c'.now - BACKDATE ∧ e.notAfter = c'.now + TTL)
    (hok : ((after pre).configFor c).1 = .ok e.cfg) (hused : e.used = pre.length + 1) : IsFrom (pre ++ [c]) c.sni e where
  forged := hforged
  returned := ⟨pre.length, hused, returnedAt_concat.mpr (.inr ⟨rfl, rfl, e.cfg, hok⟩)⟩
  latest := by
    intro i hi
    rw [hused]
    simpa using hi.lt

variable {cache : AList fun _ : Sni => Entry γ} {k : Sni}

/-- What is in the cache once there is room was in it before. -/
theorem lookup_of_evict (h : (evict cache sni).lookup k = some e) : cache.lookup k = some e := by
  unfold evict at h
  split at h
  · split at h
    · exact forall_lookup_erase (P := fun k e => cache.lookup k = some e) (fun _ _ h => h) k e h
    · exact h
  · exact h

/-- The calls are counted, and each entry of the cache comes from one. -/
theorem cache_isFrom (calls : List (Call ε γ)) :
    (after calls).tick = calls.length ∧ ∀ sni e, (after calls).cache.lookup sni = some e → IsFrom calls sni e := by
  induction calls using List.reverseRecOn with
  | nil => exact ⟨rfl, fun sni e h => by cases h⟩
  | append_singleton pre c ih =>
    obtain ⟨htick, ih⟩ := ih
    rw [after_concat, List.length_append, List.length_singleton]
    obtain ⟨e, he, hcall⟩ | ⟨-, err, -, hcall⟩ | ⟨hmiss, cfg, hcfg, hcall⟩ := configFor_cases (after pre) c
    · -- a hit: the entry has a new stamp
      have hok : ((after pre).configFor c).1 = .ok e.cfg := by rw [hcall]
      rw [hcall]
      refine ⟨by rw [htick], fun sni e' he' => ?_⟩
      by_cases hsni : sni = c.sni
      · rw [hsni, AList.lookup_insert, Option.some.injEq] at he'
        rw [hsni, ← he']
        obtain ⟨pre', c', post, rfl, hc', hforged⟩ := (ih _ _ (lookup_eq_some he).1).forged
        exact isFrom_returned ⟨pre', c', post ++ [c], by simp, hc', hforged⟩ hok (by rw [htick])
      · rw [AList.lookup_insert_ne hsni] at he'
        exact (ih _ _ he').concat (.inl fun h => hsni h.symm)
    · -- a failure: nothing changes
      have herror : ((after pre).configFor c).1 = .error err := by rw [hcall]
      rw [hcall]
      exact ⟨by rw [htick], fun sni e' he' => (ih _ _ he').concat (.inr ⟨err, herror⟩)⟩
    · -- a new entry, and perhaps an old one less
      have hok : ((after pre).configFor c).1 = .ok cfg := by rw [hcall]
      rw [hcall]
      refine ⟨by rw [htick], fun sni e' he' => ?_⟩
      by_cases hsni : sni = c.sni
      · rw [hsni, AList.lookup_insert, Option.some.injEq] at he'
        rw [hsni, ← he']
        exact isFrom_returned ⟨pre, c, [], rfl, rfl, ⟨hmiss, hcfg⟩, rfl, rfl⟩ hok (by rw [htick])
      · rw [AList.lookup_insert_ne hsni] at he'
        exact (ih _ _ (lookup_of_evict he')).concat (.inl fun h => hsni h.symm)

/-! ### How many, and which of them goes -/

/-- A cache with something in it has an entry to give up. -/
theorem exists_lru (h : 0 < cache.keys.length) : ∃ k e, lru cache = some k ∧ cache.lookup k = some e := by
  cases hmin : cache.entries.argmin fun e => e.2.used with
  | none =>
    rw [List.argmin_eq_none] at hmin
    rw [AList.keys, hmin] at h
    cases h
  | some x => exact ⟨x.1, x.2, by rw [lru, hmin]; rfl, AList.mem_lookup_iff.mpr (List.argmin_mem hmin)⟩

/-- What is given up has the least stamp. -/
theorem used_le_of_lru {k' : Sni} {e' : Entry γ} (hlru : lru cache = some k)
    (he : cache.lookup k = some e) (he' : cache.lookup k' = some e') : e.used ≤ e'.used := by
  obtain ⟨x, hmin, rfl⟩ := Option.map_eq_some_iff.mp hlru
  have hx : cache.lookup x.1 = some x.2 := AList.mem_lookup_iff.mpr (List.argmin_mem hmin)
  obtain rfl := Option.some.inj (hx.symm.trans he)
  have hmem : (⟨k', e'⟩ : Sigma fun _ : Sni => Entry γ) ∈ cache.entries := AList.mem_lookup_iff.mp he'
  exact List.le_of_mem_argmin (f := fun e : Sigma fun _ : Sni => Entry γ => e.2.used) hmem hmin

theorem length_evict (h : cache.keys.length ≤ LEAF_CAP)
    (hnew : cache.lookup sni = none) : (evict cache sni).keys.length < LEAF_CAP := by
  unfold evict
  split
  · next hfull =>
    obtain ⟨k, e, hlru, hk⟩ := exists_lru (Nat.lt_of_lt_of_le (by decide) hfull.1)
    rw [hlru]
    have := length_keys_erase_of_lookup hk
    dsimp only
    omega
  · next hroom =>
    rw [not_and] at hroom
    exact Nat.lt_of_not_le fun hfull => hroom hfull hnew

/-- **At most 256 entries.** -/
theorem length_cache_le (calls : List (Call ε γ)) : (after calls).cache.keys.length ≤ LEAF_CAP := by
  induction calls using List.reverseRecOn with
  | nil => exact Nat.zero_le _
  | append_singleton pre c ih =>
    rw [after_concat]
    obtain ⟨e, he, hcall⟩ | ⟨-, err, -, hcall⟩ | ⟨-, cfg, -, hcall⟩ := configFor_cases (after pre) c
    · rw [hcall, length_keys_insert_of_lookup (lookup_eq_some he).1]
      exact ih
    · rw [hcall]
      exact ih
    · rw [hcall]
      cases hold : (after pre).cache.lookup c.sni with
      | none =>
        have hnone : (evict (after pre).cache c.sni).lookup c.sni = none := by
          cases h : (evict (after pre).cache c.sni).lookup c.sni with
          | none => rfl
          | some e => rw [lookup_of_evict h] at hold; cases hold
        rw [length_keys_insert_of_absent hnone]
        exact length_evict ih hold
      | some e =>
        rw [evict, if_neg (by rw [hold]; simp), length_keys_insert_of_lookup hold]
        exact ih

/-- What a call puts out of the cache is what the scan finds. -/
theorem lru_of_gone {s : LeafStore γ} (he : s.cache.lookup k = some e)
    (hgone : (s.configFor c).2.cache.lookup k = none) : lru s.cache = some k := by
  obtain ⟨e', he', hcall⟩ | ⟨-, err, -, hcall⟩ | ⟨-, cfg, -, hcall⟩ := configFor_cases s c <;> rw [hcall] at hgone
  · by_cases hk : k = c.sni
    · rw [hk, AList.lookup_insert] at hgone
      cases hgone
    · rw [AList.lookup_insert_ne hk, he] at hgone
      cases hgone
  · rw [he] at hgone
    cases hgone
  · by_cases hk : k = c.sni
    · rw [hk, AList.lookup_insert] at hgone
      cases hgone
    · rw [AList.lookup_insert_ne hk] at hgone
      unfold evict at hgone
      split at hgone
      · split at hgone
        · next k' hlru =>
          by_cases hkk' : k = k'
          · rw [hkk', hlru]
          · rw [AList.lookup_erase_ne hkk', he] at hgone
            cases hgone
        · rw [he] at hgone
          cases hgone
      · rw [he] at hgone
        cases hgone

/-- **The least recently returned goes.** -/
theorem returned_before_of_gone {k' : Sni} {e' : Entry γ}
    (he : (after pre).cache.lookup k = some e) (hgone : (after (pre ++ [c])).cache.lookup k = none)
    (he' : (after pre).cache.lookup k' = some e') (hne : k' ≠ k) :
    ∃ i, ReturnedAt pre k' i ∧ ∀ j, ReturnedAt pre k j → j < i := by
  rw [after_concat] at hgone
  have hle := used_le_of_lru (lru_of_gone he hgone) he he'
  obtain ⟨-, hfrom⟩ := cache_isFrom pre
  obtain ⟨i, hused, hi⟩ := (hfrom k e he).returned
  obtain ⟨i', hused', hi'⟩ := (hfrom k' e' he').returned
  refine ⟨i', hi', fun j hj => ?_⟩
  have hj' := (hfrom k e he).latest j hj
  -- two names are not returned by one call
  have hii : i ≠ i' := by
    rintro rfl
    exact hne (hi'.sni_inj hi)
  omega

/-- **The leaf cache.** A configuration that is returned was forged for that name, in this call or
in an earlier one whose validity still holds with half a minute to go. There are at most 256
entries, for distinct names. An entry that goes was returned less recently than all the others. A
call that fails leaves the cache as it is. -/
theorem leaf_cache (pre : List (Call ε γ)) (c : Call ε γ) :
    (∀ cfg, ((after pre).configFor c).1 = .ok cfg → Forged pre c cfg ∨
      ∃ pre' c' post, pre = pre' ++ c' :: post ∧ c'.sni = c.sni ∧ Forged pre' c' cfg ∧
        c'.now - BACKDATE ≤ c.now ∧ c.now < c'.now + TTL - REFORGE) ∧
    ((after pre).cache.keys.length ≤ LEAF_CAP ∧ (after pre).cache.keys.Nodup) ∧
    (∀ k ∈ (after pre).cache, k ∉ (after (pre ++ [c])).cache → (∃ i, ReturnedAt pre k i) ∧
      ∀ k' ∈ (after pre).cache, k' ≠ k → ∃ i, ReturnedAt pre k' i ∧ ∀ j, ReturnedAt pre k j → j < i) ∧
    ∀ err, ((after pre).configFor c).1 = .error err → (after (pre ++ [c])).cache = (after pre).cache := by
  refine ⟨fun cfg hok => ?_, ⟨length_cache_le pre, (after pre).cache.keys_nodup⟩, fun k hk hgone => ?_, fun err herr => ?_⟩
  · obtain ⟨e, he, hcall⟩ | ⟨-, err, -, hcall⟩ | ⟨hmiss, cfg', hcfg, hcall⟩ := configFor_cases (after pre) c <;>
      rw [hcall] at hok <;> cases hok
    · obtain ⟨hlookup, hbefore, hafter⟩ := lookup_eq_some he
      obtain ⟨pre', c', post, hpre, hsni, hforged, hb, ha⟩ := ((cache_isFrom pre).2 _ _ hlookup).forged
      exact .inr ⟨pre', c', post, hpre, hsni, hforged, hb ▸ hbefore, ha ▸ hafter⟩
    · exact .inl ⟨hmiss, hcfg⟩
  · obtain ⟨e, he⟩ := Option.isSome_iff_exists.mp (AList.lookup_isSome.mpr hk)
    rw [← AList.lookup_eq_none] at hgone
    refine ⟨?_, fun k' hk' hne => ?_⟩
    · obtain ⟨i, -, hi⟩ := ((cache_isFrom pre).2 k e he).returned
      exact ⟨i, hi⟩
    · obtain ⟨e', he'⟩ := Option.isSome_iff_exists.mp (AList.lookup_isSome.mpr hk')
      exact returned_before_of_gone he hgone he' hne
  · rw [after_concat]
    obtain ⟨e, -, hcall⟩ | ⟨-, err', -, hcall⟩ | ⟨-, cfg, -, hcall⟩ := configFor_cases (after pre) c
    · rw [hcall] at herr
      cases herr
    · rw [hcall]
    · rw [hcall] at herr
      cases herr

end LeafStore

end MqProxy.Client
