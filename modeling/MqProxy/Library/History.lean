import Mathlib.Data.List.Infix
import Mathlib.Data.List.Count

/-!
# Histories

A history is the list of what happened, oldest first. A rule says what may happen
after a given past (`Allowed`), and a history is `Lawful` when each of its events was
allowed by the events before it. An invariant that carries the lawfulness of the
history so far has one obligation for each new event (`lawful_snoc`), and gives at the
end facts about every point of the history at once.
-/

namespace MqProxy.Library

variable {ε : Type}

/-- Each event of the history was allowed by the events before it. -/
def Lawful (Allowed : List ε → ε → Prop) (h : List ε) : Prop :=
  ∀ past e future, h = past ++ e :: future → Allowed past e

variable {Allowed : List ε → ε → Prop}

theorem lawful_nil : Lawful Allowed [] := by
  intro past e future h
  simp at h

/-- **A history grows** by an event that its past allows. -/
theorem lawful_snoc {h : List ε} {e : ε} : Lawful Allowed (h ++ [e]) ↔ Lawful Allowed h ∧ Allowed h e := by
  constructor
  · intro hl
    refine ⟨fun past e' future hh => hl past e' (future ++ [e]) ?_, hl h e [] rfl⟩
    rw [hh, List.append_assoc, List.cons_append]
  · rintro ⟨hl, he⟩ past e' future hh
    rcases List.eq_nil_or_concat future with rfl | ⟨future', e'', rfl⟩
    · obtain ⟨rfl, hx⟩ := List.append_inj' hh rfl
      rw [List.singleton_inj] at hx
      exact hx ▸ he
    · rw [List.concat_eq_append, ← List.cons_append, ← List.append_assoc] at hh
      exact hl past e' future' (List.append_inj' hh rfl).1

/-- The beginning of a lawful history. -/
theorem Lawful.of_append {h h' : List ε} (hl : Lawful Allowed (h ++ h')) : Lawful Allowed h := by
  rintro past e future rfl
  exact hl past e (future ++ h') (by simp)

/-- An event after `e` was allowed by a past that has `e`. -/
theorem Lawful.later {past future : List ε} {e x : ε} (hl : Lawful Allowed (past ++ e :: future)) (hx : x ∈ future) :
    ∃ past', e ∈ past' ∧ Allowed past' x := by
  obtain ⟨f₁, f₂, rfl⟩ := List.append_of_mem hx
  exact ⟨past ++ e :: f₁, by simp, hl _ x f₂ (by simp)⟩

/-- What is allowed only when it has not happened happens at most once. -/
theorem Lawful.countP_le_one {h : List ε} (hl : Lawful Allowed h) (p : ε → Bool)
    (hp : ∀ past e, Allowed past e → p e = true → ∀ x ∈ past, p x = false) : h.countP p ≤ 1 := by
  induction h using List.reverseRecOn with
  | nil => simp
  | append_singleton h e ih =>
    obtain ⟨hl, he⟩ := lawful_snoc.mp hl
    rw [List.countP_append, List.countP_singleton]
    cases hpe : p e with
    | false => simpa using ih hl
    | true =>
      have hzero : h.countP p = 0 := by
        rw [List.countP_eq_zero]
        intro x hx
        simp [hp h e he hpe x hx]
      simp [hzero]

/-- What is allowed only when nothing like it has happened is unique. -/
theorem Lawful.eq_of_mem {h : List ε} (hl : Lawful Allowed h) (p : ε → Prop)
    (hp : ∀ past e, Allowed past e → p e → ∀ x ∈ past, ¬p x) {x y : ε} (hx : x ∈ h) (hy : y ∈ h) (hpx : p x)
    (hpy : p y) : x = y := by
  obtain ⟨past, future, rfl⟩ := List.append_of_mem hx
  have hafter (z : ε) (hz : z ∈ future) : ¬p z := fun hpz => by
    obtain ⟨past', hmem, hallowed⟩ := hl.later hz
    exact hp past' z hallowed hpz x hmem hpx
  rcases List.mem_append.mp hy with hy | hy
  · exact absurd hpy (hp past x (hl past x future rfl) hpx y hy)
  · rcases List.mem_cons.mp hy with rfl | hy
    · rfl
    · exact absurd hpy (hafter y hy)

end MqProxy.Library
