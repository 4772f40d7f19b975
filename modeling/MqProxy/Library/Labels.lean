import Mathlib.Data.List.Basic

/-!
# Lists that are cut at a separator

A list is cut at each separator (`List.splitOn`) and its pieces are its labels. A list is
`Below` another if it ends in a separator and that list. Seen by labels this is to have more of
them, with those of the other list at the end (`below_iff_labels`); and a list is known by its
labels (`splitOn_inj`).
-/

namespace MqProxy.Library

variable {α : Type} {dot : α} {base xs ys : List α}

/-- A list that ends in a separator and `base`. -/
def Below (dot : α) (base xs : List α) : Prop := ∃ pre, xs = pre ++ dot :: base

/-- Labels that are put together, two groups of them. -/
theorem intercalate_append {ls ms : List (List α)} (hls : ls ≠ []) (hms : ms ≠ []) :
    [dot].intercalate (ls ++ ms) = [dot].intercalate ls ++ dot :: [dot].intercalate ms := by
  induction ls with
  | nil => exact absurd rfl hls
  | cons l ls ih =>
    cases ls with
    | nil =>
      obtain ⟨m, ms, rfl⟩ := List.exists_cons_of_ne_nil hms
      simp [List.intercalate_cons_cons]
    | cons l' ls =>
      rw [List.cons_append, List.cons_append, List.intercalate_cons_cons, List.intercalate_cons_cons,
        ← List.cons_append, ih (List.cons_ne_nil _ _)]
      simp

variable [DecidableEq α]

/-- A list is known by its labels. -/
theorem splitOn_inj : xs.splitOn dot = ys.splitOn dot ↔ xs = ys := by
  constructor
  · intro h
    have hxs : [dot].intercalate (xs.splitOn dot) = xs := List.intercalate_splitOn dot
    rw [← hxs, h, List.intercalate_splitOn]
  · exact fun h => by rw [h]

/-- A label has no separator. -/
theorem notMem_of_mem_splitOn {l : List α} (h : l ∈ xs.splitOn dot) : dot ∉ l := by
  induction hn : xs.length using Nat.strongRecOn generalizing xs with
  | ind n ih =>
    by_cases hdot : dot ∈ xs
    · obtain ⟨as, bs, rfl⟩ := List.append_of_mem hdot
      rw [List.length_append, List.length_cons] at hn
      rw [List.splitOn_append_cons_self, List.mem_append] at h
      rcases h with h | h
      · exact ih as.length (by omega) h rfl
      · exact ih bs.length (by omega) h rfl
    · have hxs : xs.splitOn dot = [xs] := by
        simpa using List.splitOn_intercalate dot (show ∀ l ∈ [xs], dot ∉ l by simpa using hdot) (by simp)
      rw [hxs, List.mem_singleton] at h
      exact h ▸ hdot

/-- **Below, by labels.** -/
theorem below_iff_labels :
    Below dot base xs ↔ base.splitOn dot <:+ xs.splitOn dot ∧ base.splitOn dot ≠ xs.splitOn dot := by
  constructor
  · rintro ⟨pre, rfl⟩
    rw [List.splitOn_append_cons_self]
    refine ⟨List.suffix_append _ _, fun h => ?_⟩
    exact List.splitOn_ne_nil dot pre (List.append_left_eq_self.mp h.symm)
  · rintro ⟨⟨ls, hls⟩, hne⟩
    have hls' : ls ≠ [] := by
      rintro rfl
      exact hne hls
    have hxs : [dot].intercalate (xs.splitOn dot) = xs := List.intercalate_splitOn dot
    refine ⟨[dot].intercalate ls, ?_⟩
    rw [← hxs, ← hls, intercalate_append hls' (List.splitOn_ne_nil _ _), List.intercalate_splitOn]

end MqProxy.Library
