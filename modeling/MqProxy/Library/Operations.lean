import Mathlib.Data.Multiset.UnionInter
import MqProxy.Library.History

/-!
# Operations that are answered or withdrawn

A client opens operations, each under a new number, and may withdraw one; the server
answers operations. `Book` is what a server keeps of this: the next number, the operations
that are still to be answered, wherever it keeps them, and what happened so far. `Book.Step`
is what may happen. A book in which the operations to be answered are indeed open, and none
is kept twice, stays so (`Sound.step`), and so a withdrawn operation is never answered
(`Sound.not_answered`) and none is answered twice (`Sound.answered_once`).
-/

namespace MqProxy.Library

/-- What happens to an operation. -/
inductive Mark where
  | opened (op : ℕ)
  | cancelled (op : ℕ)
  | answered (op : ℕ)
  deriving DecidableEq

/-- The operation was cancelled after it was opened. -/
def Withdrawn (op : ℕ) (h : List Mark) : Prop := ∃ past future, h = past ++ .cancelled op :: future ∧ .opened op ∈ past

/-- The operation is open: neither answered nor withdrawn. -/
def Awaited (op : ℕ) (h : List Mark) : Prop := .opened op ∈ h ∧ .answered op ∉ h ∧ ¬Withdrawn op h

/-- Only open operations are answered. -/
def AnswerRule (past : List Mark) : Mark → Prop
  | .answered op => Awaited op past
  | _ => True

variable {op : ℕ} {h : List Mark} {m : Mark}

theorem not_withdrawn_of_new (hnew : .opened op ∉ h) : ¬Withdrawn op h := by
  rintro ⟨past, future, rfl, hop⟩
  exact hnew (List.mem_append_left _ hop)

theorem withdrawn_snoc (hw : Withdrawn op (h ++ [m])) : Withdrawn op h ∨ m = .cancelled op := by
  obtain ⟨past, future, hh, hop⟩ := hw
  rcases List.eq_nil_or_concat future with rfl | ⟨future', m', rfl⟩
  · obtain ⟨-, hm⟩ := List.append_inj' hh rfl
    exact Or.inr (List.singleton_inj.mp hm)
  · rw [List.concat_eq_append, ← List.cons_append, ← List.append_assoc] at hh
    exact Or.inl ⟨past, future', (List.append_inj' hh rfl).1, hop⟩

/-- An open operation stays open for as long as nothing happens to it. -/
theorem Awaited.snoc (ha : Awaited op h) (hcancel : m ≠ .cancelled op) (hanswer : m ≠ .answered op) :
    Awaited op (h ++ [m]) := by
  obtain ⟨hopen, hans, hw⟩ := ha
  refine ⟨List.mem_append_left _ hopen, ?_, fun hw' => ?_⟩
  · rw [List.mem_append, List.mem_singleton, not_or]
    exact ⟨hans, hanswer.symm⟩
  · exact (withdrawn_snoc hw').elim hw hcancel

theorem opened_of_answered (hl : Lawful AnswerRule h) (ha : .answered op ∈ h) : .opened op ∈ h := by
  obtain ⟨past, future, rfl⟩ := List.append_of_mem ha
  exact List.mem_append_left _ (hl past _ future rfl).1

/-- What a server keeps. -/
structure Book where
  next : ℕ
  /-- The operations that it will answer. -/
  pending : Multiset ℕ
  marks : List Mark

/-- What may happen to a book. -/
inductive Book.Step : Book → Book → Prop
  /-- Nothing; numbers may be used up for something else. -/
  | idle {next next' pending marks} : next ≤ next' → Step ⟨next, pending, marks⟩ ⟨next', pending, marks⟩
  | opened {next pending marks} : Step ⟨next, pending, marks⟩ ⟨next + 1, next ::ₘ pending, marks ++ [.opened next]⟩
  | cancelled {next pending pending' marks op} : pending' ≤ pending → op ∉ pending' →
      Step ⟨next, pending, marks⟩ ⟨next, pending', marks ++ [.cancelled op]⟩
  | answered {next next' pending marks op} : next ≤ next' →
      Step ⟨next, op ::ₘ pending, marks⟩ ⟨next', pending, marks ++ [.answered op]⟩

namespace Book

/-- The operations to be answered are open and each is kept once, and the numbers are used
in order. -/
structure Sound (b : Book) : Prop where
  nodup : b.pending.Nodup
  awaited : ∀ op ∈ b.pending, Awaited op b.marks
  fresh : ∀ op, .opened op ∈ b.marks → op < b.next
  lawful : Lawful AnswerRule b.marks

theorem sound_nil (next : ℕ) : Sound ⟨next, 0, []⟩ where
  nodup := Multiset.nodup_zero
  awaited := by simp
  fresh := by simp
  lawful := lawful_nil

/-- **A book stays sound.** -/
theorem Sound.step {b b' : Book} (hs : Sound b) (hstep : Step b b') : Sound b' := by
  obtain ⟨hnodup, hawaited, hfresh, hlawful⟩ := hs
  cases hstep with
  | idle hle => exact ⟨hnodup, hawaited, fun op hop => (hfresh op hop).trans_le hle, hlawful⟩
  | @opened next pending marks =>
    have hnew : Mark.opened next ∉ marks := fun hop => lt_irrefl _ (hfresh next hop)
    have hfree : next ∉ pending := fun hmem => hnew (hawaited next hmem).1
    refine ⟨Multiset.nodup_cons.mpr ⟨hfree, hnodup⟩, fun op hop => ?_, fun op hop => ?_, ?_⟩
    · rcases Multiset.mem_cons.mp hop with rfl | hop
      · have hans : Mark.answered op ∉ marks := fun ha => hnew (opened_of_answered hlawful ha)
        refine ⟨by simp, by simpa using hans, fun hw => ?_⟩
        exact (withdrawn_snoc hw).elim (not_withdrawn_of_new hnew) (by simp)
      · exact (hawaited op hop).snoc (by simp) (by simp)
    · rcases List.mem_append.mp hop with hop | hop
      · exact Nat.lt_succ_of_lt (hfresh op hop)
      · rw [List.mem_singleton, Mark.opened.injEq] at hop
        exact hop ▸ Nat.lt_succ_self _
    · exact lawful_snoc.mpr ⟨hlawful, trivial⟩
  | @cancelled next pending pending' marks op hle hgone =>
    refine ⟨Multiset.nodup_of_le hle hnodup, fun o ho => ?_, fun o ho => hfresh o (by simpa using ho), ?_⟩
    · refine (hawaited o (Multiset.mem_of_le hle ho)).snoc ?_ (by simp)
      rintro ⟨⟩
      exact hgone ho
    · exact lawful_snoc.mpr ⟨hlawful, trivial⟩
  | @answered next next' pending marks op hle =>
    obtain ⟨hgone, hnodup⟩ := Multiset.nodup_cons.mp hnodup
    refine ⟨hnodup, fun o ho => ?_, fun o ho => (hfresh o (by simpa using ho)).trans_le hle, ?_⟩
    · refine (hawaited o (Multiset.mem_cons_of_mem ho)).snoc (by simp) ?_
      rintro ⟨⟩
      exact hgone ho
    · exact lawful_snoc.mpr ⟨hlawful, hawaited op (Multiset.mem_cons_self op pending)⟩

/-- **A withdrawn operation is not answered.** -/
theorem Sound.not_answered {b : Book} (hs : Sound b) {past future : List Mark}
    (hmarks : b.marks = past ++ .cancelled op :: future) (hopen : .opened op ∈ past) : .answered op ∉ future := by
  intro hans
  obtain ⟨f₁, f₂, rfl⟩ := List.append_of_mem hans
  have hrule : AnswerRule (past ++ .cancelled op :: f₁) (.answered op) := hs.lawful _ _ f₂ (by simp [hmarks])
  exact hrule.2.2 ⟨past, f₁, rfl, hopen⟩

/-- **No operation is answered twice.** -/
theorem Sound.answered_once {b : Book} (hs : Sound b) (op : ℕ) :
    b.marks.countP (fun m => m = .answered op) ≤ 1 := by
  refine hs.lawful.countP_le_one _ fun past m hrule hm x hx => ?_
  rw [decide_eq_true_eq] at hm
  subst hm
  rw [decide_eq_false_iff_not]
  rintro rfl
  exact hrule.2.1 hx

end Book

end MqProxy.Library
