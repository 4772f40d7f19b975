import MqProxy.Transport.Slots
import Mathlib.Data.List.AList

/-!
# A table of slots over its whole history

`Slots` from its creation on, under any sequence of inserts, lookups and removals.
**`slots_map`**: seen from outside the table is a finite map from ids to values, whose new ids
it chooses itself (`MapRun`). A generation comes back only after `2 ^ 32 - 1` removals of its
slot, the first of them the one that retired the id.
-/

namespace MqProxy.Transport

variable {T : Type} {s : Slots T} {i : ℕ} {e : Entry T}

/-- A call of the table. -/
inductive SlotCall (T : Type) where
  | insert (v : T)
  | get (id : SlotId)
  | remove (id : SlotId)

/-- What a call gives back. -/
inductive SlotAnswer (T : Type) where
  | id (id : SlotId)
  | value (v : Option T)

/-! ### The finite map -/

/-- A call of a finite map; an insert is answered with an id that the map does not have. -/
inductive MapStep : (AList fun _ : SlotId => T) → SlotCall T → SlotAnswer T → (AList fun _ : SlotId => T) → Prop
  | insert {m : AList fun _ : SlotId => T} {id : SlotId} (v : T) (hfresh : m.lookup id = none) :
      MapStep m (.insert v) (.id id) (m.insert id v)
  | get (m : AList fun _ : SlotId => T) (id : SlotId) : MapStep m (.get id) (.value (m.lookup id)) m
  | remove (m : AList fun _ : SlotId => T) (id : SlotId) :
      MapStep m (.remove id) (.value (m.lookup id)) (m.erase id)

/-- The histories of a finite map. -/
inductive MapRun : (AList fun _ : SlotId => T) → List (SlotCall T × SlotAnswer T) → (AList fun _ : SlotId => T) → Prop
  | nil (m : AList fun _ : SlotId => T) : MapRun m [] m
  | cons {m m' m'' : AList fun _ : SlotId => T} {c : SlotCall T} {a : SlotAnswer T}
      {h : List (SlotCall T × SlotAnswer T)} : MapStep m c a m' → MapRun m' h m'' → MapRun m ((c, a) :: h) m''

namespace Slots

/-! ### Calls of the table -/

/-- A call, with its answer. -/
def call (s : Slots T) : SlotCall T → SlotAnswer T × Slots T
  | .insert v => (.id (s.insert v).1, (s.insert v).2)
  | .get id => (.value (s.get id), s)
  | .remove id => ((s.remove id).elim (.value none) fun r => .value (some r.1), (s.remove id).elim s Prod.snd)

/-- The table after some calls. -/
def after (s : Slots T) (cs : List (SlotCall T)) : Slots T := cs.foldl (fun s c => (s.call c).2) s

/-- The calls with their answers. -/
def history (s : Slots T) : List (SlotCall T) → List (SlotCall T × SlotAnswer T)
  | [] => []
  | c :: cs => (c, (s.call c).1) :: history (s.call c).2 cs

/-- The table has what the map has. -/
def Represents (s : Slots T) (m : AList fun _ : SlotId => T) : Prop := ∀ id, s.get id = m.lookup id

/-- **A call of the table is one of the map.** -/
theorem Represents.call {m : AList fun _ : SlotId => T} (h : s.Represents m) (c : SlotCall T) :
    ∃ m', MapStep m c (s.call c).1 m' ∧ (s.call c).2.Represents m' := by
  cases c with
  | insert v =>
    refine ⟨_, .insert v ((h _).symm.trans (s.get_insert_fresh v)), fun id => ?_⟩
    rw [Slots.call, get_insert, h id]
    split
    · next hid => rw [hid, AList.lookup_insert]
    · next hid => rw [AList.lookup_insert_ne hid]
  | get id =>
    rw [Slots.call, h id]
    exact ⟨m, .get m id, h⟩
  | remove id =>
    have herase (id' : SlotId) : (m.erase id).lookup id' = if id' = id then none else s.get id' := by
      split
      · next hid => rw [hid, AList.lookup_erase]
      · next hid => rw [AList.lookup_erase_ne hid, h id']
    refine ⟨m.erase id, ?_⟩
    cases hget : s.get id with
    | none =>
      have hr := remove_of_absent hget
      refine ⟨by simpa [Slots.call, hr, ← h id, hget] using MapStep.remove m id, fun id' => ?_⟩
      rw [herase id', Slots.call, hr]
      split
      · next hid => rw [hid]; exact hget
      · rfl
    | some v =>
      obtain ⟨s', hr, -⟩ := remove_cases hget
      refine ⟨by simpa [Slots.call, hr, ← h id, hget] using MapStep.remove m id, fun id' => ?_⟩
      rw [herase id', Slots.call, hr]
      exact (get_remove hr).2 id'

/-- **A history of the table is one of the map.** -/
theorem Represents.history {m : AList fun _ : SlotId => T} (h : s.Represents m) (cs : List (SlotCall T)) :
    ∃ m', MapRun m (s.history cs) m' ∧ (s.after cs).Represents m' := by
  induction cs generalizing s m with
  | nil => exact ⟨m, .nil m, h⟩
  | cons c cs ih =>
    obtain ⟨m₁, hstep, h₁⟩ := h.call c
    obtain ⟨m', hrun, h'⟩ := ih h₁
    exact ⟨m', .cons hstep hrun, h'⟩

/-! ### Generations -/

/-- The call frees slot `i`. -/
def frees (s : Slots T) (i : ℕ) : SlotCall T → Bool
  | .remove id => decide (id.index = i) && s.isLive id
  | _ => false

/-- How often slot `i` is freed. -/
def removals (s : Slots T) (i : ℕ) : List (SlotCall T) → ℕ
  | [] => 0
  | c :: cs => (if s.frees i c then 1 else 0) + removals (s.call c).2 i cs

/-- The generation of a slot moves on exactly when it is freed. -/
theorem generation_call (he : s.entries[i]? = some e) (c : SlotCall T) :
    ∃ e', (s.call c).2.entries[i]? = some e' ∧
      e'.generation = if s.frees i c then nextGeneration e.generation else e.generation := by
  have hi := (List.getElem?_eq_some_iff.mp he).1
  cases c with
  | insert v =>
    obtain ⟨j, g, hj, -, hs'⟩ | ⟨-, hs'⟩ := insert_cases s v
    · by_cases hij : j = i
      · subst hij
        cases hj.symm.trans he
        exact ⟨⟨g, some v⟩, by simp [Slots.call, hs', hi], by simp [frees]⟩
      · exact ⟨e, by simp [Slots.call, hs', hij, he], by simp [frees]⟩
    · exact ⟨e, by simp [Slots.call, hs', List.getElem?_append_left hi, he], by simp [frees]⟩
  | get id => exact ⟨e, he, by simp [frees]⟩
  | remove id =>
    cases hget : s.get id with
    | none => exact ⟨e, by simp [Slots.call, remove_of_absent hget, he], by simp [frees, isLive, hget]⟩
    | some v =>
      obtain ⟨s', hr, hs'⟩ := remove_cases hget
      by_cases hij : id.index = i
      · subst hij
        cases (get_eq_some.mp hget).symm.trans he
        exact ⟨⟨nextGeneration id.generation, none⟩, by simp [Slots.call, hr, hs', hi],
          by simp [frees, isLive, hget]⟩
      · exact ⟨e, by simp [Slots.call, hr, hs', hij, he], by simp [frees, hij]⟩

theorem generation_after (he : s.entries[i]? = some e) (cs : List (SlotCall T)) :
    ∃ e', (s.after cs).entries[i]? = some e' ∧ e'.generation = nextGeneration^[s.removals i cs] e.generation := by
  induction cs generalizing s e with
  | nil => exact ⟨e, he, rfl⟩
  | cons c cs ih =>
    obtain ⟨e₁, he₁, hg₁⟩ := generation_call he c
    obtain ⟨e', he', hg'⟩ := ih he₁
    refine ⟨e', he', ?_⟩
    rw [hg', hg₁, removals]
    split
    · rw [Nat.add_comm, Function.iterate_succ_apply]
    · rw [Nat.zero_add]

/-- The generations after `g`: they go round through `1 .. 2 ^ 32 - 1`. -/
theorem nextGeneration_iterate {g : ℕ} (hpos : 0 < g) (hlt : g < 2 ^ 32) (n : ℕ) :
    nextGeneration^[n] g = (g - 1 + n) % (2 ^ 32 - 1) + 1 := by
  induction n with
  | zero =>
    rw [Function.iterate_zero_apply]
    omega
  | succ n ih =>
    rw [Function.iterate_succ_apply', ih, nextGeneration]
    split <;> omega

/-- A generation comes back after a whole round and not before. -/
theorem le_of_nextGeneration_iterate {g n : ℕ} (hg : g ≠ 0) (h : nextGeneration^[n + 1] g = g) : 2 ^ 32 - 1 ≤ n + 1 := by
  have hlt : g < 2 ^ 32 := by
    rw [← h, Function.iterate_succ_apply', nextGeneration]
    split <;> omega
  rw [nextGeneration_iterate (Nat.pos_of_ne_zero hg) hlt] at h
  omega

/-- A retired id resolves only after its slot has been freed `2 ^ 32 - 2` times more. -/
theorem removals_of_get {id : SlotId} {v v' : T} {s' : Slots T} {cs : List (SlotCall T)}
    (hremove : s.remove id = some (v, s')) (h : (s'.after cs).get id = some v') : 2 ^ 32 - 2 ≤ s'.removals id.index cs := by
  have hget := (get_remove hremove).1
  obtain ⟨s'', hr, hs'⟩ := remove_cases hget
  cases hremove.symm.trans hr
  have he : s'.entries[id.index]? = some ⟨nextGeneration id.generation, none⟩ := by simp [hs', lt_length hget]
  obtain ⟨e', he', hg'⟩ := generation_after he cs
  cases (get_eq_some.mp h).symm.trans he'
  rw [← Function.iterate_succ_apply nextGeneration] at hg'
  have hround := le_of_nextGeneration_iterate (generation_ne_of_get hget) hg'.symm
  omega

/-- **The table is a finite map.** After any calls, and with their answers: what it resolves is a
finite map that the same calls build; the free list has each empty slot once and no other; new
ids have a generation; a removal of an id that is not live answers `None` and changes nothing;
and an id that was removed resolves to nothing until its slot has been freed `2 ^ 32 - 2` times
more. -/
theorem slots_map (cs : List (SlotCall T)) :
    (∃ m, MapRun ∅ (history default cs) m ∧ ∀ id, ((default : Slots T).after cs).get id = m.lookup id) ∧
      ((default : Slots T).after cs).free.Nodup ∧
      (∀ i, i ∈ ((default : Slots T).after cs).free ↔
        ∃ e, ((default : Slots T).after cs).entries[i]? = some e ∧ e.value = none) ∧
      (∀ v id, (((default : Slots T).after cs).call (.insert v)).1 = .id id → id.generation ≠ 0) ∧
      (∀ id, ((default : Slots T).after cs).get id = none →
        ((default : Slots T).after cs).call (.remove id) = (.value none, (default : Slots T).after cs)) ∧
      ∀ id v s' cs', ((default : Slots T).after cs).call (.remove id) = (.value (some v), s') →
        (s'.after cs').get id ≠ none → 2 ^ 32 - 2 ≤ s'.removals id.index cs' := by
  generalize hs : (default : Slots T).after cs = s
  refine ⟨?_, s.free_nodup, fun i => ?_, fun v id hid => ?_, fun id hid => ?_, fun id v s' cs' hcall hlive => ?_⟩
  · have hnew : (default : Slots T).Represents ∅ := fun id => by simp [get, default]
    obtain ⟨m, hrun, hm⟩ := hnew.history cs
    exact ⟨m, hrun, hs ▸ hm⟩
  · rw [s.mem_free]
    constructor
    · rintro ⟨g, hg⟩
      exact ⟨_, hg, rfl⟩
    · rintro ⟨⟨g, o⟩, hg, rfl⟩
      exact ⟨g, hg⟩
  · cases hid
    refine generation_ne_of_get (s := (s.insert v).2) (v := v) ?_
    rw [get_insert, if_pos rfl]
  · simp [Slots.call, remove_of_absent hid]
  · obtain ⟨v', hv'⟩ := Option.ne_none_iff_exists'.mp hlive
    cases hr : s.remove id with
    | none =>
      rw [Slots.call, hr] at hcall
      cases hcall
    | some r =>
      rw [Slots.call, hr] at hcall
      cases hcall
      exact removals_of_get hr hv'

end Slots

end MqProxy.Transport
