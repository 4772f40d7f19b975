import MqProxy.Driver.LoopCore

/-!
# The resolver queue and the deadlines

The two tables of the loop core that are types of their own in the source. A `ResolverQueue`
is `Sound` when it uses its slots as it should, for operations that are submitted once.
`Active` are the operations whose answer will be used; the lemmas say how each function
changes them, and which resolutions it starts.
-/

namespace MqProxy.Driver

open MqProxy.Library MqProxy.Runtime

namespace ResolverQueue

/-- The operations that wait, in their order. -/
def ops (q : ResolverQueue) : List ℕ := q.waiting.map Prod.fst

/-- The answer of the operation will be used. -/
def Active (q : ResolverQueue) (op : ℕ) : Prop := op ∈ q.running ∧ op ∉ q.abandoned ∨ op ∈ q.ops

/-- The resolutions that some calls start. -/
def starts (cs : List IoCall) : List ℕ :=
  cs.filterMap fun c =>
    match c with
    | .startResolve op _ _ => some op
    | _ => none

/-- The slots are used as they should be. -/
structure Sound (q : ResolverQueue) : Prop where
  slots : q.running.card ≤ RESOLVER_SLOTS
  abandoned : q.abandoned ⊆ q.running
  /-- Operations wait only for want of a slot. -/
  full : q.waiting ≠ [] → q.running.card = RESOLVER_SLOTS
  nodup : q.ops.Nodup
  apart : ∀ op ∈ q.ops, op ∉ q.running

variable {q : ResolverQueue} {op : ℕ}

theorem sound_empty : Sound ⟨∅, ∅, []⟩ := ⟨by simp, by simp, by simp, by simp [ops], by simp [ops]⟩

theorem not_active_empty (op : ℕ) : ¬Active ⟨∅, ∅, []⟩ op := by simp [Active, ops]

section Submit

variable (h : q.Sound) (hrunning : op ∉ q.running) (hwaiting : op ∉ q.ops) (host : String) (port : UInt16)

include h hrunning hwaiting

theorem Sound.submit : (q.submit op host port).1.Sound := by
  obtain ⟨hslots, habandoned, hfull, hnodup, hapart⟩ := h
  have hcard := Finset.card_insert_of_notMem hrunning
  unfold ResolverQueue.submit ops at *
  split
  · have hnone : q.waiting = [] := by grind
    constructor <;> grind [ops]
  · constructor <;> grind [ops]

theorem active_submit (o : ℕ) : (q.submit op host port).1.Active o ↔ q.Active o ∨ o = op := by
  have habandoned : op ∉ q.abandoned := fun hmem => hrunning (h.abandoned hmem)
  unfold ResolverQueue.submit
  split <;> grind [Active, ops]

omit hrunning hwaiting in
/-- **First come, first served**: what starts and what waits are in the order of
submission. -/
theorem starts_submit :
    starts (q.submit op host port).2 ++ (q.submit op host port).1.ops = q.ops ++ [op] := by
  unfold ResolverQueue.submit
  split
  · next hfree =>
    have hnone : q.waiting = [] := by
      by_contra hne
      rw [h.full hne] at hfree
      exact lt_irrefl _ hfree
    simp [starts, ops, hnone]
  · simp [starts, ops]

end Submit

theorem running_submit {host : String} {port : UInt16} {o : ℕ} (ho : o ∈ (q.submit op host port).1.running) :
    o ∈ q.running ∨ o = op := by
  unfold ResolverQueue.submit at ho
  split at ho
  · exact (Finset.mem_insert.mp ho).symm
  · exact Or.inl ho

/-! ### Cancelling -/

theorem Sound.cancel (h : q.Sound) (op : ℕ) : (q.cancel op).Sound := by
  unfold ResolverQueue.cancel
  split
  · next hmem => exact ⟨h.slots, Finset.insert_subset hmem h.abandoned, h.full, h.nodup, h.apart⟩
  · have hsub : ((q.waiting.filter fun w => w.1 ≠ op).map Prod.fst).Sublist q.ops := List.filter_sublist.map _
    refine ⟨h.slots, h.abandoned, fun hne => h.full fun hnil => ?_, h.nodup.sublist hsub,
      fun o ho => h.apart o (hsub.subset ho)⟩
    rw [hnil] at hne
    exact hne rfl

theorem ops_cancel (q : ResolverQueue) (op : ℕ) : (q.cancel op).ops.Sublist q.ops := by
  unfold ResolverQueue.cancel
  split
  · exact List.Sublist.refl _
  · exact List.filter_sublist.map _

theorem running_cancel (q : ResolverQueue) (op : ℕ) : (q.cancel op).running = q.running := by
  unfold ResolverQueue.cancel
  split <;> rfl

theorem active_cancel (h : q.Sound) (op o : ℕ) : (q.cancel op).Active o ↔ q.Active o ∧ o ≠ op := by
  have hapart := h.apart
  have hops : o ∈ (q.waiting.filter fun w => w.1 ≠ op).map Prod.fst ↔ o ∈ q.ops ∧ o ≠ op := by
    simp only [ops, List.mem_map, List.mem_filter]
    grind
  unfold ResolverQueue.cancel
  split <;> unfold Active
  · grind [ops]
  · rw [ops, hops]
    grind

/-! ### An answer comes -/

theorem finished_of_not_running (hop : op ∉ q.running) : q.finished op = (false, q, []) := by
  simp [finished, hop]

theorem used_finished (q : ResolverQueue) (op : ℕ) :
    (q.finished op).1 = true ↔ op ∈ q.running ∧ op ∉ q.abandoned := by
  unfold finished
  split
  · next hmem => split <;> simp [hmem]
  · next hmem => simp [hmem]

theorem Sound.finished (h : q.Sound) (op : ℕ) : (q.finished op).2.1.Sound := by
  by_cases hmem : op ∈ q.running
  · obtain ⟨hslots, habandoned, hfull, hnodup, hapart⟩ := h
    have hcard : (q.running.erase op).card + 1 = q.running.card := Finset.card_erase_add_one hmem
    unfold ResolverQueue.finished ops at *
    rw [if_pos hmem]
    split
    · constructor <;> grind [ops]
    · next next host port rest hw =>
      -- the slot goes to the first that waits
      have hnew : next ∉ q.running.erase op := by grind
      have hcard' := Finset.card_insert_of_notMem hnew
      constructor <;> grind [ops]
  · rw [finished_of_not_running hmem]
    exact h

theorem active_finished (h : q.Sound) (hmem : op ∈ q.running) (o : ℕ) :
    (q.finished op).2.1.Active o ↔ q.Active o ∧ o ≠ op := by
  have hapart := h.apart
  have habandoned := h.abandoned
  unfold ResolverQueue.finished
  rw [if_pos hmem]
  split <;> grind [Active, ops]

/-- **First come, first served.** -/
theorem starts_finished (q : ResolverQueue) (op : ℕ) :
    starts (q.finished op).2.2 ++ (q.finished op).2.1.ops = q.ops := by
  unfold finished
  split
  · split
    · next hw => simp [starts, ops, hw]
    · next hw => simp [starts, ops, hw]
  · simp [starts]

theorem running_finished {o : ℕ} (ho : o ∈ (q.finished op).2.1.running) : o ∈ q.running ∨ o ∈ q.ops := by
  unfold finished at ho
  split at ho
  · split at ho
    · exact Or.inl (Finset.mem_of_mem_erase ho)
    · next hw =>
      rcases Finset.mem_insert.mp ho with rfl | ho
      · exact Or.inr (by simp [ops, hw])
      · exact Or.inl (Finset.mem_of_mem_erase ho)
  · exact Or.inl ho

end ResolverQueue

/-! ### Deadlines -/

namespace Deadlines

/-- The deadline is armed. -/
def Armed (d : Deadlines) (x : Expired) : Prop := ∃ t, (t, x) ∈ d.set

/-- No deadline is armed twice. -/
def Once (d : Deadlines) : Prop := (d.set.map Prod.snd).Nodup

variable {d : Deadlines} {x y : Expired}

theorem armed_iff : d.Armed x ↔ x ∈ d.set.map Prod.snd := by
  simp [Armed]

@[grind =] theorem armed_cancel : (d.cancel x).Armed y ↔ d.Armed y ∧ y ≠ x := by
  simp [Armed, cancel]

@[grind =] theorem armed_arm {t : ℕ} : (d.arm x t).Armed y ↔ d.Armed y ∨ y = x := by
  have : (d.arm x t).Armed y ↔ (d.cancel x).Armed y ∨ y = x := by
    simp [Armed, arm, exists_or]
  rw [this, armed_cancel]
  tauto

theorem Once.cancel (h : d.Once) (x : Expired) : (d.cancel x).Once := h.sublist (List.filter_sublist.map _)

theorem Once.arm (h : d.Once) (x : Expired) (t : ℕ) : (d.arm x t).Once := by
  show ((d.cancel x).set ++ [(t, x)]).map Prod.snd |>.Nodup
  rw [List.map_append]
  refine List.nodup_append.mpr ⟨h.cancel x, List.nodup_singleton _, fun a ha b hb => ?_⟩
  rw [List.map_singleton, List.mem_singleton] at hb
  rintro rfl
  exact (armed_cancel.mp (armed_iff.mpr ha)).2 hb

/-- What is due and what is left are what was armed, each once. -/
theorem perm_expire (d : Deadlines) (now : ℕ) :
    ((d.expire now).1 ++ (d.expire now).2.set.map Prod.snd).Perm (d.set.map Prod.snd) := by
  have hsort := (List.perm_insertionSort (fun a b : ℕ × Expired => a.1 ≤ b.1)
    (d.set.filter fun e => e.1 ≤ now)).map Prod.snd
  refine (hsort.append_right _).trans ?_
  show ((d.set.filter fun e => e.1 ≤ now).map Prod.snd ++ (d.set.filter fun e => ¬e.1 ≤ now).map Prod.snd).Perm _
  rw [← List.map_append]
  refine List.Perm.map _ ?_
  have hnot : (d.set.filter fun e => ¬e.1 ≤ now) = d.set.filter fun e => !decide (e.1 ≤ now) :=
    List.filter_congr fun e _ => by rw [decide_not]
  rw [hnot]
  exact List.filter_append_perm (fun e : ℕ × Expired => decide (e.1 ≤ now)) d.set

end Deadlines

end MqProxy.Driver
