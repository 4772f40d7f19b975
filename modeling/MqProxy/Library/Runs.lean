import Mathlib.Data.List.Basic

/-!
# Runs of a machine that may fail

A machine takes actions; an action has a next state or fails. Its environment keeps to a
rule: `Allowed s a` says that action `a` is taken in state `s`. `Run` is the finite runs
of allowed actions that do not fail. What each action preserves holds along a run
(`Run.invariant`), and what holds at its start and not at its end was lost in one of its
steps (`Run.exists_loss`).
-/

namespace MqProxy.Library

variable {σ α : Type} {step : σ → α → Option σ} {Allowed : σ → α → Prop}

/-- The runs of a machine, with their actions. -/
inductive Run (step : σ → α → Option σ) (Allowed : σ → α → Prop) : σ → List α → σ → Prop
  | nil (s : σ) : Run step Allowed s [] s
  | cons {s s' s'' : σ} {a : α} {as : List α} :
      Allowed s a → step s a = some s' → Run step Allowed s' as s'' → Run step Allowed s (a :: as) s''

/-- One run after another. -/
theorem Run.append {s s' s'' : σ} {as bs : List α} (hrun : Run step Allowed s as s')
    (hrun' : Run step Allowed s' bs s'') : Run step Allowed s (as ++ bs) s'' := by
  induction hrun with
  | nil s => exact hrun'
  | cons hallowed hs _ ih => exact .cons hallowed hs (ih hrun')

/-- Where the actions lead, if each of them is allowed and none fails. -/
def trace (step : σ → α → Option σ) (Allowed : σ → α → Prop) [∀ s a, Decidable (Allowed s a)] : σ → List α → Option σ
  | s, [] => some s
  | s, a :: as => if Allowed s a then (step s a).bind fun s' => trace step Allowed s' as else none

/-- A run that was computed. -/
theorem Run.of_trace [∀ s a, Decidable (Allowed s a)] {s s' : σ} {as : List α} (h : trace step Allowed s as = some s') :
    Run step Allowed s as s' := by
  induction as generalizing s with
  | nil =>
    cases h
    exact .nil _
  | cons a as ih =>
    rw [trace] at h
    split at h
    · next hallowed =>
      obtain ⟨s₁, hstep, hrest⟩ := Option.bind_eq_some_iff.mp h
      exact .cons hallowed hstep (ih hrest)
    · cases h

/-- A run that was written down, with what follows from it. -/
theorem Run.exists_and {P : σ → Prop} {s s' : σ} {as : List α} (hrun : Run step Allowed s as s')
    (h : Run step Allowed s as s' → P s') : ∃ s', Run step Allowed s as s' ∧ P s' :=
  ⟨s', hrun, h hrun⟩

/-- **An invariant.** -/
theorem Run.invariant {I : σ → Prop} (hstep : ∀ s a s', I s → Allowed s a → step s a = some s' → I s')
    {s s' : σ} {as : List α} (hrun : Run step Allowed s as s') (h : I s) : I s' := by
  induction hrun with
  | nil s => exact h
  | cons hallowed hs _ ih => exact ih (hstep _ _ _ h hallowed hs)

/-- **What is lost in a run is lost in a step.** -/
theorem Run.exists_loss {P : σ → Prop} {s s' : σ} {as : List α} (hrun : Run step Allowed s as s') (h : P s)
    (h' : ¬P s') :
    ∃ pre a post s₁ s₂, as = pre ++ a :: post ∧ Run step Allowed s pre s₁ ∧ Allowed s₁ a ∧ step s₁ a = some s₂ ∧
      Run step Allowed s₂ post s' ∧ P s₁ ∧ ¬P s₂ := by
  induction hrun with
  | nil s => exact absurd h h'
  | @cons s s₁ s' a as hallowed hs hrun ih =>
    by_cases hP : P s₁
    · obtain ⟨pre, b, post, u, v, rfl, hpre, hb, hv, hpost, hu, hv'⟩ := ih hP h'
      exact ⟨a :: pre, b, post, u, v, rfl, .cons hallowed hs hpre, hb, hv, hpost, hu, hv'⟩
    · exact ⟨[], a, as, s, s₁, rfl, .nil s, hallowed, hs, hrun, h, hP⟩

/-- **A machine that never fails**: an invariant under which each action has a next state. -/
theorem exists_foldlM {I : σ → Prop} (as : List α) (hstep : ∀ s a, I s → ∃ s', step s a = some s' ∧ I s') {s : σ}
    (h : I s) : ∃ s', as.foldlM step s = some s' ∧ I s' := by
  induction as generalizing s with
  | nil => exact ⟨s, rfl, h⟩
  | cons a as ih =>
    obtain ⟨s₁, hs, h₁⟩ := hstep s a h
    obtain ⟨s', hs', h'⟩ := ih h₁
    exact ⟨s', by rw [List.foldlM_cons, hs]; exact hs', h'⟩

end MqProxy.Library
