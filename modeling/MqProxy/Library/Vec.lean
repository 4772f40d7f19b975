import Mathlib.Data.List.Perm.Basic
import Mathlib.Tactic.Cases
import Mathlib.Tactic.Ring

/-!
# Growable arrays as lists

Removal that lets the last item take the place of the removed one (`swapRemove`) and
the division into runs of equal length (`chunks`). A table that is kept in such an
array is looked at up to the order of its items: `swapRemove` and `List.eraseIdx` give
the same table. A slice out of range (`slice`) and a subtraction below zero
(`checkedSub`) have no result.
-/

namespace MqProxy.Library

variable {α : Type}

/-- A subtraction that must not underflow. -/
def checkedSub (a b : ℕ) : Option ℕ := if b ≤ a then some (a - b) else none

theorem checkedSub_of_le {a b : ℕ} (h : b ≤ a) : checkedSub a b = some (a - b) := if_pos h

/-- The items from `i` up to `j`. -/
def slice (l : List α) (i j : ℕ) : Option (List α) := if i ≤ j ∧ j ≤ l.length then some ((l.take j).drop i) else none

theorem slice_of_le {l : List α} {i j : ℕ} (hi : i ≤ j) (hj : j ≤ l.length) :
    slice l i j = some ((l.take j).drop i) := if_pos ⟨hi, hj⟩

/-- The list without its `i`-th item, the last one taking its place. -/
def swapRemove (l : List α) (i : ℕ) : List α :=
  match l.getLast? with
  | none => []
  | some x => (l.set i x).dropLast

theorem swapRemove_perm {l : List α} {i : ℕ} (h : i < l.length) : (swapRemove l i).Perm (l.eraseIdx i) := by
  rcases List.eq_nil_or_concat l with rfl | ⟨l, x, rfl⟩
  · simp at h
  · rw [List.concat_eq_append] at h ⊢
    have hlast : (l ++ [x]).getLast? = some x := by simp
    have hrem : swapRemove (l ++ [x]) i = ((l ++ [x]).set i x).dropLast := by simp only [swapRemove, hlast]
    rw [hrem]
    rw [List.length_append, List.length_singleton] at h
    rcases Nat.lt_or_ge i l.length with hi | hi
    · rw [List.set_append_left _ _ hi, List.dropLast_concat, List.eraseIdx_append_of_lt_length hi]
      exact (List.set_perm_cons_eraseIdx hi x).trans (List.perm_append_singleton x _).symm
    · have hi : i = l.length := by omega
      subst hi
      simp [List.eraseIdx_append_of_length_le]

/-- The items before the removed one stay where they are. -/
theorem swapRemove_middle (pre : List α) (x : α) (post : List α) :
    ∃ post', swapRemove (pre ++ x :: post) pre.length = pre ++ post' ∧ post'.Perm post := by
  rcases List.eq_nil_or_concat post with rfl | ⟨post, y, rfl⟩
  · exact ⟨[], by simp [swapRemove], .refl _⟩
  · refine ⟨y :: post, ?_, ?_⟩
    · have hcat (z : α) : pre ++ z :: post.concat y = (pre ++ z :: post) ++ [y] := by simp
      rw [swapRemove, hcat, List.getLast?_concat]
      dsimp only
      rw [← hcat, List.set_append_right _ _ le_rfl, Nat.sub_self, List.set_cons_zero, hcat, List.dropLast_concat]
    · simpa using (List.perm_append_singleton y post).symm

/-- A table seen from its `i`-th item. -/
theorem perm_cons_eraseIdx {l : List α} {i : ℕ} {x : α} (h : l[i]? = some x) : l.Perm (x :: l.eraseIdx i) := by
  obtain ⟨hi, rfl⟩ := List.getElem?_eq_some_iff.mp h
  exact (List.getElem_cons_eraseIdx_perm hi).symm

/-- The list cut into runs of `k` items, the last one perhaps shorter. -/
def chunks (k : ℕ) (l : List α) : List (List α) :=
  if _h : k = 0 ∨ l = [] then [] else l.take k :: chunks k (l.drop k)
termination_by l.length
decreasing_by
  rw [not_or] at _h
  have := List.length_pos_of_ne_nil _h.2
  rw [List.length_drop]
  omega

theorem chunks_nil (k : ℕ) : chunks k ([] : List α) = [] := by
  rw [chunks, dif_pos (.inr rfl)]

/-- The chunks make up the list. -/
theorem flatten_chunks {k : ℕ} (hk : 0 < k) (l : List α) : (chunks k l).flatten = l := by
  fun_induction chunks k l with
  | case1 l h =>
    rw [h.resolve_left (by omega)]
    rfl
  | case2 l h ih => rw [List.flatten_cons, ih, List.take_append_drop]

/-- No chunk is longer than `k`, or than the list. -/
theorem length_le_of_mem_chunks {k : ℕ} {l c : List α} (hc : c ∈ chunks k l) : c.length ≤ min k l.length := by
  fun_induction chunks k l with
  | case1 l h => cases hc
  | case2 l h ih =>
    rcases List.mem_cons.mp hc with rfl | hc
    · exact (List.length_take ..).le
    · have hrest := ih hc
      rw [List.length_drop] at hrest
      omega

/-- There are as many as the division rounded up. -/
theorem length_chunks {k : ℕ} (hk : 0 < k) (l : List α) : (chunks k l).length = (l.length + k - 1) / k := by
  fun_induction chunks k l with
  | case1 l h =>
    rw [h.resolve_left (by omega), List.length_nil, List.length_nil, Nat.zero_add, Nat.div_eq_of_lt (by omega)]
  | case2 l h ih =>
    rw [not_or] at h
    have hl := List.length_pos_of_ne_nil h.2
    rw [List.length_cons, ih, List.length_drop]
    rcases Nat.lt_or_ge l.length k with hlt | hge
    · rw [Nat.sub_eq_zero_of_le hlt.le, Nat.zero_add, Nat.div_eq_of_lt (by omega),
        show l.length + k - 1 = l.length - 1 + k by omega, Nat.add_div_right _ hk, Nat.div_eq_of_lt (by omega)]
    · rw [← Nat.add_div_right _ hk]
      congr 1
      omega

/-- **A list put together from runs of `k` items**, the last one perhaps shorter, is cut
back into them. -/
theorem chunks_flatten {k : ℕ} {ls : List (List α)} (hall : ∀ l ∈ ls, 0 < l.length ∧ l.length ≤ k)
    (hfull : ∀ l ∈ ls.dropLast, l.length = k) : chunks k ls.flatten = ls := by
  induction ls with
  | nil => exact chunks_nil k
  | cons l ls ih =>
    obtain ⟨hpos, hle⟩ := hall l List.mem_cons_self
    have hne : ¬(k = 0 ∨ (l :: ls).flatten = []) := by
      rw [List.flatten_cons, List.append_eq_nil_iff, ← List.length_eq_zero_iff]
      omega
    have hrest : chunks k ls.flatten = ls := by
      refine ih (fun l' hl' => hall l' (List.mem_cons_of_mem _ hl')) fun l' hl' => hfull l' ?_
      have hls : ls ≠ [] := List.ne_nil_of_mem (List.dropLast_subset _ hl')
      rw [List.dropLast_cons_of_ne_nil hls]
      exact List.mem_cons_of_mem _ hl'
    rw [chunks, dif_neg hne, List.flatten_cons]
    cases ls with
    | nil => rw [List.flatten_nil, List.append_nil, List.take_of_length_le hle, List.drop_of_length_le hle, chunks_nil]
    | cons l' ls =>
      have hk : l.length = k := hfull l (by simp)
      rw [← hk, List.take_left, List.drop_left, hk, hrest]

end MqProxy.Library
