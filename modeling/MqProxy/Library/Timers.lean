import MqProxy.Library.Table

/-!
# Timers and who waits for them

A program keeps, for each timer it has armed, what the timer is for: a table from ids to
purposes, beside the table of what is armed. Somewhere in its state it also keeps the ids, to
cancel a timer once its purpose is gone. `holder` reads the id that the state keeps for a
purpose. `Clocks` says that the two agree: an id that is kept is the id of a timer for just that
purpose, and a timer for a purpose that is `tracked` is kept. Ids are handed out in order, and
each of them once.

A timer is armed for a purpose that had none (`Clocks.arm`) and is cancelled together with the
id that was kept (`Clocks.cancel`).
-/

namespace MqProxy.Library

variable {τ : Type} {tracked : τ → Prop} {holder holder' : τ → Option ℕ} {timers : AList fun _ : ℕ => τ}
  {armed : AList fun _ : ℕ => ℕ} {n n' id due : ℕ} {tm : τ}

/-- The timers that are armed, what they are for, and the ids that are kept. -/
structure Clocks (tracked : τ → Prop) (holder : τ → Option ℕ) (timers : AList fun _ : ℕ => τ)
    (armed : AList fun _ : ℕ => ℕ) (n : ℕ) : Prop where
  known : ∀ {id tm}, timers.lookup id = some tm → id < n
  isSome_armed : ∀ id, (armed.lookup id).isSome = (timers.lookup id).isSome
  held : ∀ {tm id}, holder tm = some id → timers.lookup id = some tm
  kept : ∀ {tm id}, timers.lookup id = some tm → tracked tm → holder tm = some id

/-- Ids that are kept no longer, for purposes that are not tracked. -/
theorem Clocks.mono (h : Clocks tracked holder timers armed n) (hn : n ≤ n')
    (hheld : ∀ tm id, holder' tm = some id → holder tm = some id)
    (hkept : ∀ tm, tracked tm → holder' tm = holder tm) : Clocks tracked holder' timers armed n' where
  known hid := Nat.lt_of_lt_of_le (h.known hid) hn
  isSome_armed := h.isSome_armed
  held hid := h.held (hheld _ _ hid)
  kept hid htm := (hkept _ htm).trans (h.kept hid htm)

/-- **A timer is armed**, and its id kept if the purpose is tracked. -/
theorem Clocks.arm (h : Clocks tracked holder timers armed n) (hn : n < n')
    (hother : ∀ tm', tm' ≠ tm → holder' tm' = holder tm')
    (hheld : ∀ id, holder' tm = some id → id = n) (hkept : tracked tm → holder tm = none ∧ holder' tm = some n) :
    Clocks tracked holder' (timers.insert n tm) (armed.insert n due) n' := by
  obtain ⟨hknown, harmed, hheld', hkept'⟩ := h
  constructor <;> grind

/-- **A timer is over**, and its id is kept no longer. -/
theorem Clocks.cancel (h : Clocks tracked holder timers armed n) (hid : timers.lookup id = some tm)
    (hgone : holder' tm = none) (hother : ∀ tm', tm' ≠ tm → holder' tm' = holder tm') :
    Clocks tracked holder' (timers.erase id) (armed.erase id) n := by
  obtain ⟨hknown, harmed, hheld, hkept⟩ := h
  refine ⟨by grind, by grind, fun {tm' id'} hid' => ?_, by grind⟩
  -- the only timer that is kept for the purpose is the one that is over
  by_cases htm : tm' = tm <;> grind

end MqProxy.Library
