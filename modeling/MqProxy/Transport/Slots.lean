import Mathlib.Data.List.Basic
import Mathlib.Data.UInt
import Mathlib.Tactic.Ring

/-!
# Generational slots

`SlotId` and `ConnId` of `mq-transport-api/src/ids.rs` and the table `Slots<T>` of
`mq-transport/src/slots.rs`. A slot is free or holds a value; its generation changes each
time it is freed, so that an old id no longer resolves. The free list holds the free
slots and no others, which the table carries as part of its type. Slot indices are
natural numbers: the casts to `u32` keep them while there are fewer than `2^32` slots.
-/

namespace MqProxy.Transport

/-- `SlotId`: `(generation << 32) | index` as its two parts. -/
@[ext] structure SlotId where
  index : ℕ
  generation : ℕ
  deriving DecidableEq, Repr

/-- `ConnId`: a slot id of a generation that is not `0`. -/
structure ConnId where
  index : ℕ
  generation : ℕ
  generation_ne : generation ≠ 0
  deriving DecidableEq

/-- `ConnId::from_slot`. -/
def ConnId.fromSlot (s : SlotId) : Option ConnId :=
  if h : s.generation ≠ 0 then some ⟨s.index, s.generation, h⟩ else none

/-- `ConnId::slot`. -/
def ConnId.slot (c : ConnId) : SlotId := ⟨c.index, c.generation⟩

theorem ConnId.fromSlot_slot (c : ConnId) : ConnId.fromSlot c.slot = some c := by
  rw [fromSlot, dif_pos (show c.slot.generation ≠ 0 from c.generation_ne)]
  rfl

theorem ConnId.slot_of_fromSlot {s : SlotId} {c : ConnId} (h : ConnId.fromSlot s = some c) : c.slot = s := by
  rw [fromSlot] at h
  split at h <;> cases h
  rfl

theorem ConnId.slot_injective {c d : ConnId} (h : c.slot = d.slot) : c = d := by
  have hc := ConnId.fromSlot_slot c
  rw [h, ConnId.fromSlot_slot] at hc
  exact (Option.some.inj hc).symm

/-- A slot: its generation (`0` is never one) and its value. -/
structure Entry (T : Type) where
  generation : ℕ
  value : Option T

/-- The generation after a removal: `wrapping_add(1)` past `0`. -/
def nextGeneration (g : ℕ) : ℕ := if (g + 1) % 2 ^ 32 = 0 then 1 else (g + 1) % 2 ^ 32

theorem nextGeneration_ne (g : ℕ) : nextGeneration g ≠ 0 := by
  rw [nextGeneration]
  split
  · exact Nat.one_ne_zero
  · assumption

variable {T : Type}

/-- Slot `i` is there and has no value. -/
def IsFree (entries : List (Entry T)) (i : ℕ) : Prop := ∃ g, entries[i]? = some ⟨g, none⟩

/-- `Slots<T>`. -/
structure Slots (T : Type) where
  /-- The slots ever used. -/
  entries : List (Entry T)
  /-- Those that are free, the one to use next in front. -/
  free : List ℕ
  generation_ne : ∀ e ∈ entries, e.generation ≠ 0
  free_nodup : free.Nodup
  mem_free : ∀ i, i ∈ free ↔ IsFree entries i

namespace Slots

/-- `Slots::default`. -/
def default : Slots T :=
  ⟨[], [], by simp, .nil, fun i => by simp [IsFree]⟩

/-- `Slots::get`. -/
def get (s : Slots T) (id : SlotId) : Option T :=
  (s.entries[id.index]?.filter fun e => e.generation = id.generation).bind Entry.value

/-- `Slots::is_live`. -/
def isLive (s : Slots T) (id : SlotId) : Bool := (s.get id).isSome

theorem get_eq_some {s : Slots T} {id : SlotId} {v : T} :
    s.get id = some v ↔ s.entries[id.index]? = some ⟨id.generation, some v⟩ := by
  simp only [get, Option.bind_eq_some_iff, Option.filter_eq_some_iff, decide_eq_true_eq]
  constructor
  · rintro ⟨e, ⟨he, hg⟩, hv⟩
    rw [he, ← hg, ← hv]
  · exact fun h => ⟨_, ⟨h, rfl⟩, rfl⟩

variable {e : Entry T}

/-- Setting a slot keeps generations off `0`. -/
theorem set_generation_ne (s : Slots T) (i : ℕ) (he : e.generation ≠ 0) :
    ∀ e' ∈ s.entries.set i e, e'.generation ≠ 0 := by
  intro e' he'
  rcases List.mem_or_eq_of_mem_set he' with h | rfl
  · exact s.generation_ne e' h
  · exact he

variable {i : ℕ}

theorem isFree_set {entries : List (Entry T)} (hi : i < entries.length) (e : Entry T) (j : ℕ) :
    IsFree (entries.set i e) j ↔ if j = i then e.value = none else IsFree entries j := by
  split
  · next h =>
    subst h
    simp only [IsFree, List.getElem?_set_self hi, Option.some.injEq]
    constructor
    · rintro ⟨g, rfl⟩
      rfl
    · intro he
      exact ⟨e.generation, by rw [← he]⟩
  · next h => simp only [IsFree, List.getElem?_set_ne (Ne.symm h)]

/-- A free slot is in the table. -/
theorem free_lt (s : Slots T) {rest : List ℕ} (hf : s.free = i :: rest) : i < s.entries.length := by
  obtain ⟨g, hg⟩ := (s.mem_free i).mp (by rw [hf]; exact List.mem_cons_self)
  exact (List.getElem?_eq_some_iff.mp hg).1

variable {s : Slots T} {id : SlotId} {v : T}

theorem lt_length (h : s.get id = some v) : id.index < s.entries.length :=
  (List.getElem?_eq_some_iff.mp (get_eq_some.mp h)).1

theorem generation_ne_of_get (h : s.get id = some v) : id.generation ≠ 0 :=
  s.generation_ne _ (List.mem_of_getElem? (get_eq_some.mp h))

/-- A slot with a value is not in the free list. -/
theorem notMem_free (h : s.get id = some v) : id.index ∉ s.free := by
  intro hmem
  obtain ⟨g, hg⟩ := (s.mem_free _).mp hmem
  rw [get_eq_some.mp h] at hg
  cases hg

/-! ### The operations -/

/-- `Slots::insert`: the slot freed last, or a new one. -/
def insert (s : Slots T) (v : T) : SlotId × Slots T :=
  match hf : s.free with
  | i :: rest =>
    let e := s.entries.get ⟨i, s.free_lt hf⟩
    (⟨i, e.generation⟩,
      { entries := s.entries.set i ⟨e.generation, some v⟩
        free := rest
        generation_ne := s.set_generation_ne i (s.generation_ne e (List.get_mem _ _))
        free_nodup := (List.nodup_cons.mp (hf ▸ s.free_nodup)).2
        mem_free := fun j => by
          have hnd := List.nodup_cons.mp (hf ▸ s.free_nodup)
          have hmem := s.mem_free j
          rw [hf, List.mem_cons] at hmem
          rw [isFree_set (s.free_lt hf)]
          split
          · next h => simp [h, hnd.1]
          · next h => simpa [h] using hmem })
  | [] =>
    (⟨s.entries.length, 1⟩,
      { entries := s.entries ++ [⟨1, some v⟩]
        free := []
        generation_ne := by
          simp only [List.mem_append, List.mem_singleton]
          rintro e (he | rfl)
          · exact s.generation_ne e he
          · exact Nat.one_ne_zero
        free_nodup := .nil
        mem_free := fun j => by
          have hmem := s.mem_free j
          rw [hf] at hmem
          simp only [IsFree, List.not_mem_nil, false_iff, not_exists] at hmem ⊢
          intro g
          rw [List.getElem?_append]
          split
          · exact hmem g
          · simp [List.getElem?_singleton] })

/-- `Slots::remove`: `none` for an id that is not live. -/
def remove (s : Slots T) (id : SlotId) : Option (T × Slots T) :=
  match h : s.get id with
  | none => none
  | some v => some (v,
      { entries := s.entries.set id.index ⟨nextGeneration id.generation, none⟩
        free := id.index :: s.free
        generation_ne := s.set_generation_ne _ (nextGeneration_ne _)
        free_nodup := List.nodup_cons.mpr ⟨notMem_free h, s.free_nodup⟩
        mem_free := fun j => by
          rw [isFree_set (lt_length h), List.mem_cons, s.mem_free]
          split
          · next hj => simp [hj]
          · next hj => simp [hj] })

/-- A change of the value of a live slot through `Slots::get_mut`. -/
def modify (s : Slots T) (id : SlotId) (f : T → T) : Slots T :=
  match h : s.get id with
  | none => s
  | some v =>
    { entries := s.entries.set id.index ⟨id.generation, some (f v)⟩
      free := s.free
      generation_ne := s.set_generation_ne _ (generation_ne_of_get h)
      free_nodup := s.free_nodup
      mem_free := fun j => by
        have hnot := mt (s.mem_free id.index).mpr (notMem_free h)
        rw [isFree_set (lt_length h), s.mem_free]
        split
        · next hj => simp [hj, hnot]
        · rfl }

/-- `Slots::iter_live`. -/
def iterLive (s : Slots T) : List (SlotId × T) :=
  s.entries.zipIdx.filterMap fun (e, i) => e.value.map fun v => (⟨i, e.generation⟩, v)

/-! ### The table as a map -/

theorem get_of_entry (he : s.entries[id.index]? = some e) :
    s.get id = if id.generation = e.generation then e.value else none := by
  rw [get, he]
  split
  · next h => rw [Option.filter_some, if_pos (decide_eq_true h.symm), Option.bind_some]
  · next h => rw [Option.filter_some, if_neg (by simpa using Ne.symm h), Option.bind_none]

theorem get_of_length_le {s : Slots T} {id : SlotId} (h : s.entries.length ≤ id.index) : s.get id = none := by
  rw [get, List.getElem?_eq_none h, Option.filter_none, Option.bind_none]

variable {s' : Slots T}

/-- What a table whose slot `i` was set resolves. -/
theorem get_of_set {g : ℕ} {o : Option T} (hi : i < s.entries.length)
    (hs' : s'.entries = s.entries.set i ⟨g, o⟩) (id : SlotId) :
    s'.get id = if id.index = i then (if id.generation = g then o else none) else s.get id := by
  split
  · next h => exact get_of_entry (by rw [hs', h, List.getElem?_set_self hi])
  · next h => rw [get, hs', List.getElem?_set_ne (Ne.symm h), get]

/-- What `insert` does, on a free slot and on a new one. -/
theorem insert_cases (s : Slots T) (v : T) :
    (∃ i g, s.entries[i]? = some ⟨g, none⟩ ∧ (s.insert v).1 = ⟨i, g⟩ ∧
        (s.insert v).2.entries = s.entries.set i ⟨g, some v⟩) ∨
      (s.insert v).1 = ⟨s.entries.length, 1⟩ ∧ (s.insert v).2.entries = s.entries ++ [⟨1, some v⟩] := by
  rw [insert]
  split
  · next i rest hf =>
    obtain ⟨g, hg⟩ := (s.mem_free i).mp (by rw [hf]; exact List.mem_cons_self)
    have he : s.entries.get ⟨i, s.free_lt hf⟩ = ⟨g, none⟩ := (List.getElem?_eq_some_iff.mp hg).2
    exact .inl ⟨i, g, hg, by simp only [he], by simp only [he]⟩
  · exact .inr ⟨rfl, rfl⟩

/-- A new id was not live. -/
theorem get_insert_fresh (s : Slots T) (v : T) : s.get (s.insert v).1 = none := by
  obtain ⟨i, g, he, hid, -⟩ | ⟨hid, -⟩ := insert_cases s v
  · rw [hid, get_of_entry he, ite_self]
  · rw [hid, get_of_length_le (Nat.le_refl _)]

/-- **An insert adds its value at its id.** -/
theorem get_insert (s : Slots T) (v : T) (id : SlotId) :
    (s.insert v).2.get id = if id = (s.insert v).1 then some v else s.get id := by
  obtain ⟨i, g, he, hid, hs'⟩ | ⟨hid, hs'⟩ := insert_cases s v
  · rw [get_of_set (List.getElem?_eq_some_iff.mp he).1 hs', hid]
    simp only [SlotId.ext_iff]
    by_cases hi : id.index = i
    · have hnone : s.get id = none := by rw [get_of_entry (hi ▸ he), ite_self]
      simp only [hi, if_true, true_and, hnone]
    · simp only [hi, if_false, false_and]
  · rw [hid]
    rcases Nat.lt_trichotomy id.index s.entries.length with hlt | heq | hgt
    · rw [if_neg fun h => hlt.ne (by rw [h]), get, hs', List.getElem?_append_left hlt, get]
    · have he : (s.insert v).2.entries[id.index]? = some ⟨1, some v⟩ := by rw [hs', heq]; simp
      rw [get_of_entry he, get_of_length_le heq.ge]
      simp only [SlotId.ext_iff, heq, true_and]
    · rw [if_neg fun h => hgt.ne (by rw [h]), get_of_length_le hgt.le, get_of_length_le]
      rw [hs', List.length_append, List.length_singleton]
      exact hgt

theorem remove_of_absent (h : s.get id = none) : s.remove id = none := by
  rw [remove]
  split
  · rfl
  · next h' => rw [h] at h'; cases h'

/-- What `remove` does to a live slot. -/
theorem remove_cases (h : s.get id = some v) : ∃ s', s.remove id = some (v, s') ∧
      s'.entries = s.entries.set id.index ⟨nextGeneration id.generation, none⟩ := by
  rw [remove]
  split
  · next h' => rw [h] at h'; cases h'
  · next v' h' =>
    rw [h] at h'
    cases h'
    exact ⟨_, rfl, rfl⟩

/-- **A remove takes the value at its id**, and the id resolves no more. -/
theorem get_remove (h : s.remove id = some (v, s')) :
    s.get id = some v ∧ ∀ id', s'.get id' = if id' = id then none else s.get id' := by
  cases hget : s.get id with
  | none => simp only [remove_of_absent hget, reduceCtorEq] at h
  | some v' =>
    obtain ⟨s'', hr, hs''⟩ := remove_cases hget
    rw [h] at hr
    cases hr
    refine ⟨rfl, fun id' => ?_⟩
    rw [get_of_set (lt_length hget) hs'', ite_self]
    by_cases hi : id'.index = id.index
    · have hentry := get_of_entry (hi ▸ get_eq_some.mp hget)
      simp only [hi, if_true, SlotId.ext_iff, true_and, hentry]
      split <;> simp_all
    · rw [if_neg hi, if_neg (mt (congrArg SlotId.index) hi)]

/-- **A change of a live value.** -/
theorem get_modify (s : Slots T) (id : SlotId) (f : T → T) (id' : SlotId) :
    (s.modify id f).get id' = if id' = id then (s.get id).map f else s.get id' := by
  rw [modify]
  split
  · next h =>
    split
    · next he => rw [he, h, Option.map_none]
    · rfl
  · next v h =>
    rw [get_of_set (lt_length h) rfl, h, Option.map_some]
    by_cases hi : id'.index = id.index
    · have hentry := get_of_entry (hi ▸ get_eq_some.mp h)
      simp only [hi, if_true, SlotId.ext_iff, true_and, hentry]
      split <;> simp_all
    · rw [if_neg hi, if_neg (mt (congrArg SlotId.index) hi)]

/-- The live slots are those that resolve. -/
theorem mem_iterLive : (id, v) ∈ s.iterLive ↔ s.get id = some v := by
  simp only [iterLive, List.mem_filterMap, Prod.exists, List.mem_zipIdx_iff_getElem?, Option.map_eq_some_iff,
    Prod.mk.injEq, get_eq_some]
  constructor
  · rintro ⟨⟨g, o⟩, i, he, v', hv, rfl, rfl⟩
    rw [he, ← show o = some v' from hv]
  · exact fun h => ⟨_, _, h, v, rfl, rfl, rfl⟩

/-! ### Counting live values -/

/-- The number of live values with a property. -/
def count (p : T → Bool) (s : Slots T) : ℕ := s.entries.countP fun e => e.value.any p

variable {p : T → Bool}

/-- The count is that of a filtered `iter_live`. -/
theorem length_filter_iterLive (s : Slots T) : (s.iterLive.filter fun x => p x.2).length = s.count p := by
  have hfrom : ∀ (l : List (Entry T)) (n : ℕ),
      (((l.zipIdx n).filterMap fun (e, i) => e.value.map fun v => ((⟨i, e.generation⟩ : SlotId), v)).filter
        fun x => p x.2).length = l.countP fun e => e.value.any p := by
    intro l
    induction l with
    | nil => intro n; rfl
    | cons e l ih =>
      intro n
      obtain ⟨g, o⟩ := e
      rw [List.zipIdx_cons, List.countP_cons, ← ih (n + 1), List.filterMap_cons]
      cases o with
      | none => simp
      | some v => by_cases hv : p v <;> simp [hv]
  exact hfrom s.entries 0

/-- Setting a slot counts its new value for its old one. -/
theorem countP_set_add {l : List (Entry T)} (he : l[i]? = some e) (e' : Entry T) (q : Entry T → Bool) :
    (l.set i e').countP q + (if q e then 1 else 0) = l.countP q + if q e' then 1 else 0 := by
  obtain ⟨hi, rfl⟩ := List.getElem?_eq_some_iff.mp he
  have hle : (if q l[i] then 1 else 0) ≤ l.countP q := by
    split
    · next hq => exact List.countP_pos_iff.mpr ⟨_, List.getElem_mem hi, hq⟩
    · exact Nat.zero_le _
  rw [List.countP_set hi]
  omega

theorem count_insert (s : Slots T) (v : T) : (s.insert v).2.count p = s.count p + if p v then 1 else 0 := by
  obtain ⟨i, g, he, -, hs'⟩ | ⟨-, hs'⟩ := insert_cases s v
  · have hset := countP_set_add he ⟨g, some v⟩ fun e => e.value.any p
    simpa [count, hs'] using hset
  · simp [count, hs', List.countP_append, List.countP_singleton]

theorem count_remove (h : s.remove id = some (v, s')) : s'.count p + (if p v then 1 else 0) = s.count p := by
  have hget := (get_remove h).1
  obtain ⟨s'', hr, hs''⟩ := remove_cases hget
  rw [h] at hr
  cases hr
  have hset := countP_set_add (get_eq_some.mp hget) ⟨nextGeneration id.generation, none⟩ fun e => e.value.any p
  simpa [count, hs''] using hset

theorem count_modify (h : s.get id = some v) (f : T → T) :
    (s.modify id f).count p + (if p v then 1 else 0) = s.count p + if p (f v) then 1 else 0 := by
  have hs' : (s.modify id f).entries = s.entries.set id.index ⟨id.generation, some (f v)⟩ := by
    rw [modify]
    split
    · next h' => rw [h] at h'; cases h'
    · next h' => rw [h] at h'; cases h'; rfl
  have hset := countP_set_add (get_eq_some.mp h) ⟨id.generation, some (f v)⟩ fun e => e.value.any p
  simpa [count, hs'] using hset

theorem modify_of_absent (h : s.get id = none) (f : T → T) : s.modify id f = s := by
  rw [modify]
  split
  · rfl
  · next h' => rw [h] at h'; cases h'

/-- A change that does not touch the property. -/
theorem count_modify_of_eq (s : Slots T) (id : SlotId) {f : T → T} (hf : ∀ v, p (f v) = p v) :
    (s.modify id f).count p = s.count p := by
  cases h : s.get id with
  | none => rw [modify_of_absent h]
  | some v =>
    have hcount := count_modify (p := p) h f
    rw [hf] at hcount
    exact Nat.add_right_cancel hcount

/-- Values with `q` have `p`: they can be counted apart. -/
theorem count_split {q : T → Bool} (h : ∀ id v, s.get id = some v → q v = true → p v = true) :
    s.count p = s.count (fun v => p v && !q v) + s.count q := by
  have hentries : ∀ e ∈ s.entries, ∀ v, e.value = some v → q v = true → p v = true := by
    intro e he v hv
    obtain ⟨j, hj⟩ := List.getElem?_of_mem he
    exact h ⟨j, e.generation⟩ v (get_eq_some.mpr (by rw [hj, ← hv]))
  revert hentries
  simp only [count]
  induction s.entries with
  | nil => intro _; rfl
  | cons e l ih =>
    intro hentries
    have ih := ih fun e' he' => hentries e' (List.mem_cons_of_mem _ he')
    have he := hentries e List.mem_cons_self
    simp only [List.countP_cons, ih]
    cases hv : e.value with
    | none => simp
    | some v =>
      have hpq := he v hv
      cases hp : p v <;> cases hq : q v <;> simp_all <;> omega

theorem count_pos (h : s.get id = some v) (hp : p v = true) : 0 < s.count p :=
  List.countP_pos_iff.mpr ⟨_, List.mem_of_getElem? (get_eq_some.mp h), by simp [hp]⟩

end Slots

end MqProxy.Transport
