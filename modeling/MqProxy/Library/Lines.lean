import Mathlib.Data.List.Basic

/-!
# Lines that end in two marks

A text is written as lines, each followed by the two marks `cr` and `lf`. `splitLines` takes
it apart again: whatever the lines are, as long as none of them has a `cr`, they come back
(`splitLines_unlines`). In a text whose lines have neither mark, the marks are `Paired`:
each `cr` is followed by an `lf`, and there is no other `lf`.
-/

namespace MqProxy.Library

variable {α : Type} [DecidableEq α] {cr lf : α}

/-- Each line with its end. -/
def unlines (cr lf : α) (ls : List (List α)) : List α := ls.flatMap (· ++ [cr, lf])

/-- The lines of a text, and what follows the last of them. -/
def splitLines (cr lf : α) : List α → List (List α) × List α
  | [] => ([], [])
  | [a] => ([], [a])
  | a :: b :: s =>
    if a = cr ∧ b = lf then ([] :: (splitLines cr lf s).1, (splitLines cr lf s).2)
    else
      match splitLines cr lf (b :: s) with
      | (l :: ls, rest) => ((a :: l) :: ls, rest)
      | ([], rest) => ([], a :: rest)

/-- The marks of a text come in pairs. -/
def Paired (cr lf : α) : List α → Prop
  | [] => True
  | [a] => a ≠ cr ∧ a ≠ lf
  | a :: b :: s => if a = cr then b = lf ∧ Paired cr lf s else a ≠ lf ∧ Paired cr lf (b :: s)

omit [DecidableEq α] in
/-- Behind a line there is its end. -/
theorem exists_cons_line (l s : List α) : ∃ b t, l ++ cr :: lf :: s = b :: t := by
  cases l with
  | nil => exact ⟨cr, lf :: s, rfl⟩
  | cons b l => exact ⟨b, l ++ cr :: lf :: s, rfl⟩

omit [DecidableEq α] in
theorem unlines_cons (l : List α) (ls : List (List α)) :
    unlines cr lf (l :: ls) = l ++ cr :: lf :: unlines cr lf ls := by
  simp [unlines]

omit [DecidableEq α] in
theorem unlines_concat (ls : List (List α)) (l : List α) :
    unlines cr lf (ls ++ [l]) = unlines cr lf ls ++ l ++ [cr, lf] := by
  simp [unlines]

/-- The first line. -/
theorem splitLines_line {l : List α} (hl : cr ∉ l) (s : List α) :
    splitLines cr lf (l ++ cr :: lf :: s) = (l :: (splitLines cr lf s).1, (splitLines cr lf s).2) := by
  induction l with
  | nil => rw [List.nil_append, splitLines, if_pos ⟨rfl, rfl⟩]
  | cons a l ih =>
    obtain ⟨ha, hl⟩ := not_or.mp (mt List.mem_cons.mpr hl)
    have ih := ih hl
    -- the recursion looks at the next element too, so there must be one
    obtain ⟨b, t, hb⟩ : ∃ b t, l ++ cr :: lf :: s = b :: t := exists_cons_line l s
    rw [List.cons_append, hb, splitLines, if_neg fun h => ha h.1.symm, ← hb, ih]

/-- **The lines come back.** -/
theorem splitLines_unlines {ls : List (List α)} (hls : ∀ l ∈ ls, cr ∉ l) :
    splitLines cr lf (unlines cr lf ls) = (ls, []) := by
  induction ls with
  | nil => rfl
  | cons l ls ih =>
    have ih := ih fun m hm => hls m (List.mem_cons_of_mem _ hm)
    rw [unlines_cons, splitLines_line (hls l List.mem_cons_self), ih]

/-- A line in front of a text. -/
theorem Paired.line {l s : List α} (hs : Paired cr lf s) (hl : ∀ a ∈ l, a ≠ cr ∧ a ≠ lf) :
    Paired cr lf (l ++ cr :: lf :: s) := by
  induction l with
  | nil =>
    rw [List.nil_append, Paired, if_pos rfl]
    exact ⟨rfl, hs⟩
  | cons a l ih =>
    have ih := ih fun b hb => hl b (List.mem_cons_of_mem _ hb)
    obtain ⟨ha, ha'⟩ := hl a List.mem_cons_self
    obtain ⟨b, t, hb⟩ : ∃ b t, l ++ cr :: lf :: s = b :: t := exists_cons_line l s
    rw [hb] at ih
    rw [List.cons_append, hb, Paired, if_neg ha]
    exact ⟨ha', ih⟩

theorem paired_unlines {ls : List (List α)} (hls : ∀ l ∈ ls, ∀ a ∈ l, a ≠ cr ∧ a ≠ lf) :
    Paired cr lf (unlines cr lf ls) := by
  induction ls with
  | nil => trivial
  | cons l ls ih =>
    rw [unlines_cons]
    exact (ih fun m hm => hls m (List.mem_cons_of_mem _ hm)).line (hls l List.mem_cons_self)

omit [DecidableEq α] in
theorem mem_unlines {a : α} {ls : List (List α)} :
    a ∈ unlines cr lf ls ↔ ∃ l ∈ ls, a ∈ l ∨ a = cr ∨ a = lf := by
  simp [unlines]

end MqProxy.Library
