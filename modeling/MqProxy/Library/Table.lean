import Mathlib.Data.List.AList
import Mathlib.Algebra.BigOperators.Finprod
import Mathlib.Algebra.BigOperators.Group.Finset.Basic

/-!
# Weighed tables

A hash table is an association list with no key twice. Where its values have a weight,
`weigh` is the weight of the whole table, and the lemmas here say how inserting and
erasing one entry changes it. `weighAt` is the weight at a key, `0` where there is none;
the whole is the sum over all keys (`weigh_eq_finsum`), so that two tables with the same
weight at each key weigh the same, whatever their keys and their order. `retain` keeps the
entries that pass a test.
-/

namespace MqProxy.Library

variable {α β : Type} [DecidableEq α] {w : β → ℕ} {t : AList fun _ : α => β} {k : α} {v : β}

/-- The weight of a table. -/
def weigh (w : β → ℕ) (t : AList fun _ : α => β) : ℕ := (t.entries.map fun e => w e.2).sum

/-- The weight at a key. -/
def weighAt (w : β → ℕ) (t : AList fun _ : α => β) (k : α) : ℕ := ((t.lookup k).map w).getD 0

theorem weighAt_of_lookup (h : t.lookup k = some v) : weighAt w t k = w v := by
  rw [weighAt, h, Option.map_some, Option.getD_some]

theorem weighAt_of_absent (h : t.lookup k = none) : weighAt w t k = 0 := by
  rw [weighAt, h, Option.map_none, Option.getD_none]

theorem weighAt_eq_zero (h : k ∉ t.keys) : weighAt w t k = 0 :=
  weighAt_of_absent (AList.lookup_eq_none.mpr h)

/-- A table seen from one of its entries. -/
theorem entries_perm_cons_erase (h : t.lookup k = some v) : t.entries.Perm (⟨k, v⟩ :: (t.erase k).entries) := by
  have hmem : ⟨k, v⟩ ∈ t.entries := AList.mem_lookup_iff.mp h
  obtain ⟨v', l₁, l₂, -, hl, herase⟩ := List.exists_of_kerase (List.mem_keys_of_mem hmem)
  have hv : t.lookup k = some v' := AList.mem_lookup_iff.mpr (by rw [hl]; simp)
  obtain rfl : v = v' := Option.some.inj (h.symm.trans hv)
  have hentries : (t.erase k).entries = l₁ ++ l₂ := herase
  rw [hl, hentries]
  exact List.perm_middle

/-- An erased entry takes its weight away. -/
theorem weigh_erase (h : t.lookup k = some v) : weigh w (t.erase k) + w v = weigh w t := by
  rw [weigh, weigh, ((entries_perm_cons_erase h).map _).sum_eq, List.map_cons, List.sum_cons, Nat.add_comm]

/-- A new value weighs in, and the old one is taken away. -/
theorem weigh_insert (v : β) : weigh w (t.insert k v) + weighAt w t k = weigh w t + w v := by
  have hinsert : weigh w (t.insert k v) = w v + weigh w (t.erase k) := by
    rw [weigh, AList.entries_insert, List.map_cons, List.sum_cons]
    rfl
  cases h : t.lookup k with
  | none =>
    have hk : t.erase k = t := AList.ext (List.kerase_of_notMem_keys (AList.lookup_eq_none.mp h))
    rw [hinsert, weighAt_of_absent h, hk, Nat.add_zero, Nat.add_comm]
  | some v' => rw [hinsert, weighAt_of_lookup h, ← weigh_erase h, Nat.add_assoc, Nat.add_comm]

/-- An entry weighs no more than the table. -/
theorem weighAt_le_weigh (k : α) : weighAt w t k ≤ weigh w t := by
  cases h : t.lookup k with
  | none => rw [weighAt_of_absent h]; exact Nat.zero_le _
  | some v => rw [weighAt_of_lookup h, ← weigh_erase h]; exact Nat.le_add_left _ _

/-- **The weight of a table is the sum over the keys.** -/
theorem weigh_eq_finsum : weigh w t = ∑ᶠ k, weighAt w t k := by
  have hsupport : Function.support (weighAt w t) ⊆ t.keys.toFinset := by
    intro k hk
    rw [List.coe_toFinset]
    exact not_not.mp fun hmem => hk (weighAt_eq_zero hmem)
  rw [finsum_eq_sum_of_support_subset _ hsupport, List.sum_toFinset _ t.keys_nodup, weigh, AList.keys, List.keys,
    List.map_map]
  refine congrArg List.sum (List.map_congr_left fun e he => ?_)
  exact (weighAt_of_lookup (AList.mem_lookup_iff.mpr he)).symm

/-- A table that weighs something has an entry that does. -/
theorem exists_weighAt_pos (h : 0 < weigh w t) : ∃ k, 0 < weighAt w t k := by
  by_contra hnone
  simp only [not_exists, Nat.not_lt, Nat.le_zero] at hnone
  rw [weigh_eq_finsum, finsum_congr hnone, finsum_zero] at h
  exact Nat.lt_irrefl 0 h

/-! ### Sizes -/

/-- A new entry under an old key. -/
theorem length_keys_insert_of_lookup (h : t.lookup k = some v) (v' : β) : (t.insert k v').keys.length = t.keys.length := by
  have hmem : k ∈ t.keys := AList.mem_keys.mp (AList.lookup_isSome.mp (by rw [h]; rfl))
  rw [AList.keys_insert, List.length_cons, List.length_erase_of_mem hmem]
  exact Nat.sub_add_cancel (List.length_pos_of_mem hmem)

/-- A new entry under a new key. -/
theorem length_keys_insert_of_absent (h : t.lookup k = none) (v : β) : (t.insert k v).keys.length = t.keys.length + 1 := by
  have hmem : k ∉ t.keys := AList.lookup_eq_none.mp h
  rw [AList.keys_insert, List.length_cons, List.erase_of_not_mem hmem]

/-- An entry that is erased. -/
theorem length_keys_erase_of_lookup (h : t.lookup k = some v) : (t.erase k).keys.length + 1 = t.keys.length := by
  have hmem : k ∈ t.keys := AList.mem_keys.mp (AList.lookup_isSome.mp (by rw [h]; rfl))
  rw [AList.keys_erase, List.length_erase_of_mem hmem]
  exact Nat.sub_add_cancel (List.length_pos_of_mem hmem)

theorem length_keys_erase_le (t : AList fun _ : α => β) (k : α) : (t.erase k).keys.length ≤ t.keys.length := by
  rw [AList.keys_erase]
  exact List.length_erase_le

/-- A new entry under an old key leaves the keys as they are, but for their order. -/
theorem keys_insert_perm (h : t.lookup k = some v) (v' : β) : (t.insert k v').keys.Perm t.keys := by
  have hmem : k ∈ t.keys := AList.mem_keys.mp (AList.lookup_isSome.mp (by rw [h]; rfl))
  rw [AList.keys_insert]
  exact (List.perm_cons_erase hmem).symm

/-- An entry that is replaced by one with the same property. -/
theorem exists_lookup_insert_iff {v' : β} {P : β → Prop} (h : t.lookup k = some v) (hP : P v' ↔ P v) (k' : α) :
    (∃ x, (t.insert k v').lookup k' = some x ∧ P x) ↔ ∃ x, t.lookup k' = some x ∧ P x := by
  by_cases hk : k' = k
  · rw [hk, AList.lookup_insert, h]
    simp only [Option.some.injEq, exists_eq_left']
    exact hP
  · rw [AList.lookup_insert_ne hk]

/-- What each entry of a table has, if a new one has it. -/
theorem forall_lookup_insert {P : α → β → Prop} (h : ∀ k v, t.lookup k = some v → P k v) (hP : P k v) (k' : α) (v' : β)
    (hlookup : (t.insert k v).lookup k' = some v') : P k' v' := by
  by_cases hk : k' = k
  · rw [hk, AList.lookup_insert, Option.some.injEq] at hlookup
    rw [hk, ← hlookup]
    exact hP
  · rw [AList.lookup_insert_ne hk] at hlookup
    exact h k' v' hlookup

/-- What each entry of a table has, if one is erased. -/
theorem forall_lookup_erase {P : α → β → Prop} (h : ∀ k v, t.lookup k = some v → P k v) (k' : α) (v' : β)
    (hlookup : (t.erase k).lookup k' = some v') : P k' v' := by
  by_cases hk : k' = k
  · rw [hk, AList.lookup_erase] at hlookup
    cases hlookup
  · rw [AList.lookup_erase_ne hk] at hlookup
    exact h k' v' hlookup

/-- What is put in and taken out again. -/
theorem erase_insert_self (t : AList fun _ : α => β) (k : α) (v : β) : (t.insert k v).erase k = t.erase k := by
  refine AList.ext ?_
  show List.kerase k (List.kinsert k v t.entries) = List.kerase k t.entries
  rw [List.kinsert_def]
  exact List.kerase_cons_eq rfl

theorem erase_of_absent (h : t.lookup k = none) : t.erase k = t :=
  AList.ext (List.kerase_of_notMem_keys (AList.lookup_eq_none.mp h))

@[grind =] theorem lookup_erase_eq_ite (t : AList fun _ : α => β) (k k' : α) :
    (t.erase k).lookup k' = if k' = k then none else t.lookup k' := by
  split
  · next h => rw [h, AList.lookup_erase]
  · next h => rw [AList.lookup_erase_ne h]

@[grind =] theorem lookup_insert_eq_ite (t : AList fun _ : α => β) (k k' : α) (v : β) :
    (t.insert k v).lookup k' = if k' = k then some v else t.lookup k' := by
  split
  · next h => rw [h, AList.lookup_insert]
  · next h => rw [AList.lookup_insert_ne h]

/-! ### Keys and values as multisets -/

theorem coe_keys_of_lookup (h : t.lookup k = some v) : (t.keys : Multiset α) = k ::ₘ ((t.erase k).keys : Multiset α) := by
  have hmem : k ∈ t.keys := AList.mem_keys.mp (AList.lookup_isSome.mp (by rw [h]; rfl))
  rw [AList.keys_erase, Multiset.cons_coe]
  exact Multiset.coe_eq_coe.mpr (List.perm_cons_erase hmem)

theorem coe_keys_insert_of_absent (h : t.lookup k = none) (v : β) :
    ((t.insert k v).keys : Multiset α) = k ::ₘ (t.keys : Multiset α) := by
  rw [AList.keys_insert, List.erase_of_not_mem (AList.lookup_eq_none.mp h), Multiset.cons_coe]

/-- The values of a table, seen through a function. -/
def values {γ : Type} (f : β → γ) (t : AList fun _ : α => β) : Multiset γ := (t.entries.map fun e => f e.2 : List γ)

theorem values_of_lookup {γ : Type} (f : β → γ) (h : t.lookup k = some v) : values f t = f v ::ₘ values f (t.erase k) := by
  rw [values, values, Multiset.cons_coe]
  exact Multiset.coe_eq_coe.mpr ((entries_perm_cons_erase h).map _)

theorem values_insert {γ : Type} (f : β → γ) (t : AList fun _ : α => β) (k : α) (v : β) :
    values f (t.insert k v) = f v ::ₘ values f (t.erase k) := by
  rw [values, values, Multiset.cons_coe, AList.entries_insert, List.map_cons]
  rfl

theorem mem_values {γ : Type} {f : β → γ} {x : γ} : x ∈ values f t ↔ ∃ k v, t.lookup k = some v ∧ f v = x := by
  rw [values, Multiset.mem_coe, List.mem_map]
  constructor
  · rintro ⟨e, he, rfl⟩
    exact ⟨e.1, e.2, AList.mem_lookup_iff.mpr he, rfl⟩
  · rintro ⟨k, v, h, rfl⟩
    exact ⟨⟨k, v⟩, AList.mem_lookup_iff.mp h, rfl⟩

/-! ### Retaining -/

/-- The entries that pass a test. -/
def retain (p : α → β → Bool) (t : AList fun _ : α => β) : AList fun _ : α => β :=
  ⟨t.entries.filter fun e => p e.1 e.2, t.nodupKeys.sublist List.filter_sublist⟩

theorem lookup_retain (p : α → β → Bool) (t : AList fun _ : α => β) (k : α) :
    (retain p t).lookup k = (t.lookup k).filter (p k) := by
  ext v
  rw [← Option.mem_def, ← Option.mem_def, AList.mem_lookup_iff, Option.mem_filter_iff, AList.mem_lookup_iff]
  exact List.mem_filter

end MqProxy.Library
