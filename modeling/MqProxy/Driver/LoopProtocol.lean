import MqProxy.Driver.Resolver
import MqProxy.Library.Table

/-!
# The protocol of the loop core

What the loop core owes the shard and the operating system, in four parts. Each operation is
reported once (`Reported`): it is in a table until it is reported, or until the shard
cancels it. Each socket is in one place (`Accounted`): in a completion that was not yet
looked at, in a result that is held, in a table, or closed. Each dial has its deadline
(`Timed`). Each name that is to be resolved is in the resolver queue, in the order in which
the shard asked (`Queued`).

The first two are laws of conservation. An entry of the log moves an operation or a socket
from one place to another, and `Reported.step` and `Accounted.step` reduce each step of the
loop to the count of what it takes and what it gives.
-/

namespace MqProxy.Driver

open MqProxy.Library MqProxy.Runtime

/-- An operation of the shard: `DialOpId` or `SocketOpId`. -/
inductive LoopOp where
  | dial (op : ℕ)
  | socket (op : ℕ)
  deriving DecidableEq

/-- The operation that a request starts. -/
def asks : IoRequest → Option LoopOp
  | .dial op _ _ => some (.dial op)
  | .resolve op _ _ => some (.dial op)
  | .openUdpSocket op _ => some (.socket op)
  | _ => none

/-- The operation that a request cancels. -/
def cancels : IoRequest → Option LoopOp
  | .cancelDial op => some (.dial op)
  | .cancelResolve op => some (.dial op)
  | .cancelUdpSocket op => some (.socket op)
  | _ => none

/-- The socket of a completion. -/
def Completion.sock : Completion → Option ℕ
  | .connected _ (.ok s) => some s
  | _ => none

/-- The socket of a held result. -/
def heldSock : ℕ × Opened → Option ℕ
  | (_, .ok (s, _)) => some s
  | _ => none

namespace LoopEdge

/-- The operation that is started. -/
def asked : LoopEdge → Option LoopOp
  | .request r => asks r
  | _ => none

/-- The operation that is cancelled. -/
def cancelled : LoopEdge → Option LoopOp
  | .request r => cancels r
  | _ => none

/-- The operation that is reported. -/
def told : LoopEdge → Option LoopOp
  | .dialReported op _ => some (.dial op)
  | .resolveReported op _ => some (.dial op)
  | .udpReported op _ => some (.socket op)
  | _ => none

/-- The socket that `Io` hands out. -/
def gives : LoopEdge → Option ℕ
  | .completed ev => ev.sock
  | .accepted s => some s
  | .attached s => some s
  | .opened op r => heldSock (op, r)
  | _ => none

/-- The socket that is closed. -/
def closes : LoopEdge → Option ℕ
  | .io (.closeTcp s _) => some s
  | .io (.closeUdp s) => some s
  | _ => none

/-- The operation whose name is to be resolved. -/
def submits : LoopEdge → Option ℕ
  | .request (.dial op ⟨.domain _, _⟩ _) => some op
  | .request (.resolve op _ _) => some op
  | _ => none

/-- The operation whose resolution starts. -/
def starts : LoopEdge → Option ℕ
  | .io (.startResolve op _ _) => some op
  | _ => none

attribute [simp] asked cancelled told gives

end LoopEdge

/-! ### Operations -/

/-- Whether the operation is in a table of the loop, and how often. -/
def LoopCore.pending (lc : LoopCore) : LoopOp → ℕ
  | .dial op => if (lc.dials.lookup op).isSome then 1 else 0
  | .socket op => (lc.held.map Prod.fst).count op

/-- **Each operation is pending or was reported**, unless it was cancelled. -/
structure Reported (lc : LoopCore) : Prop where
  once : (lc.log.filterMap LoopEdge.asked).Nodup
  le : ∀ o, lc.pending o + (lc.log.filterMap LoopEdge.told).count o ≤ (lc.log.filterMap LoopEdge.asked).count o
  eq : ∀ o, o ∉ lc.log.filterMap LoopEdge.cancelled →
    lc.pending o + (lc.log.filterMap LoopEdge.told).count o = (lc.log.filterMap LoopEdge.asked).count o

section Reported

variable {lc lc' : LoopCore} {es : List LoopEdge}

/-- A step that reports what it takes out of the tables, but for what it cancels. -/
theorem Reported.step (h : Reported lc) (hlog : lc'.log = lc.log ++ es)
    (hnew : (es.filterMap LoopEdge.asked).Nodup ∧
      ∀ o ∈ es.filterMap LoopEdge.asked, o ∉ lc.log.filterMap LoopEdge.asked)
    (hle : ∀ o, lc'.pending o + (es.filterMap LoopEdge.told).count o ≤
      lc.pending o + (es.filterMap LoopEdge.asked).count o)
    (heq : ∀ o, o ∉ es.filterMap LoopEdge.cancelled →
      lc'.pending o + (es.filterMap LoopEdge.told).count o = lc.pending o + (es.filterMap LoopEdge.asked).count o) :
    Reported lc' := by
  refine ⟨?_, fun o => ?_, fun o ho => ?_⟩ <;> rw [hlog] at * <;> simp only [List.filterMap_append] at *
  · exact List.nodup_append.mpr ⟨h.once, hnew.1, fun a ha b hb heq => hnew.2 b hb (heq ▸ ha)⟩
  · rw [List.count_append, List.count_append]
    have := h.le o
    have := hle o
    omega
  · rw [List.mem_append, not_or] at ho
    rw [List.count_append, List.count_append]
    have := h.eq o ho.1
    have := heq o ho.2
    omega

/-- A step that reports what it takes out of the tables. -/
theorem Reported.move (h : Reported lc) (hlog : lc'.log = lc.log ++ es) (hasked : es.filterMap LoopEdge.asked = [])
    (heq : ∀ o, lc'.pending o + (es.filterMap LoopEdge.told).count o = lc.pending o) : Reported lc' := by
  refine h.step hlog ?_ (fun o => ?_) fun o _ => ?_ <;> simp [hasked, heq]

/-- A step without a part in the operations. -/
theorem Reported.frame (h : Reported lc) (hlog : lc'.log = lc.log ++ es) (hpending : ∀ o, lc'.pending o = lc.pending o)
    (hasked : es.filterMap LoopEdge.asked = []) (htold : es.filterMap LoopEdge.told = []) : Reported lc' :=
  h.move hlog hasked fun o => by rw [htold, hpending, List.count_nil, Nat.add_zero]

/-- A step that enters what it is asked for. -/
theorem Reported.enter {x : LoopOp} (h : Reported lc) (hlog : lc'.log = lc.log ++ es)
    (hasked : es.filterMap LoopEdge.asked = [x]) (hnew : x ∉ lc.log.filterMap LoopEdge.asked)
    (htold : es.filterMap LoopEdge.told = []) (heq : ∀ o, lc'.pending o = lc.pending o + [x].count o) :
    Reported lc' := by
  refine h.step hlog ?_ (fun o => ?_) fun o _ => ?_
  · simpa [hasked] using hnew
  · simp [hasked, htold, heq]
  · simp [hasked, htold, heq]

/-- A dial leaves the table. -/
theorem pending_erase {op : ℕ} (hop : (lc.dials.lookup op).isSome) (hdials : lc'.dials = lc.dials.erase op)
    (hheld : lc'.held = lc.held) (o : LoopOp) : lc'.pending o + [LoopOp.dial op].count o = lc.pending o := by
  cases o with
  | socket o => simp [LoopCore.pending, hheld]
  | dial o =>
    simp only [LoopCore.pending, List.count_singleton]
    grind

/-- A dial enters the table. -/
theorem pending_insert {op : ℕ} {st : DialState} (hop : lc.dials.lookup op = none)
    (hdials : lc'.dials = lc.dials.insert op st) (hheld : lc'.held = lc.held) (o : LoopOp) :
    lc'.pending o = lc.pending o + [LoopOp.dial op].count o := by
  cases o with
  | socket o => simp [LoopCore.pending, hheld]
  | dial o =>
    simp only [LoopCore.pending, List.count_singleton]
    grind

/-- A step that takes out of the tables what is cancelled. -/
theorem Reported.cancel {x : LoopOp} (h : Reported lc) (hlog : lc'.log = lc.log ++ es)
    (hle : ∀ o, lc'.pending o ≤ lc.pending o) (heq : ∀ o, o ≠ x → lc'.pending o = lc.pending o)
    (hcancelled : es.filterMap LoopEdge.cancelled = [x]) (hasked : es.filterMap LoopEdge.asked = [])
    (htold : es.filterMap LoopEdge.told = []) : Reported lc' := by
  refine h.step hlog ?_ (fun o => ?_) fun o ho => ?_
  · simp [hasked]
  · simp [hasked, htold, hle]
  · rw [hcancelled, List.mem_singleton] at ho
    simp [hasked, htold, heq o ho]

/-- An operation that was not asked for is in no table. -/
theorem Reported.pending_eq_zero (h : Reported lc) {o : LoopOp} (ho : o ∉ lc.log.filterMap LoopEdge.asked) :
    lc.pending o = 0 := by
  have hle := h.le o
  rw [List.count_eq_zero_of_not_mem ho] at hle
  omega

theorem Reported.lookup_eq_none (h : Reported lc) {op : ℕ} (ho : .dial op ∉ lc.log.filterMap LoopEdge.asked) :
    lc.dials.lookup op = none := by
  simpa [LoopCore.pending] using h.pending_eq_zero ho

end Reported

/-! ### Sockets -/

/-- How often a socket is in a table. -/
def within (s : ℕ) (t : AList fun _ : ℕ => ℕ) : ℕ := weigh (fun x => if x = s then 1 else 0) t

/-- **Each socket is in one place.** `hand` are the sockets that the loop has and has not
yet put anywhere. -/
structure Accounted (hand : List ℕ) (lc : LoopCore) : Prop where
  once : (lc.log.filterMap LoopEdge.gives).Nodup
  eq : ∀ s, (lc.log.filterMap LoopEdge.gives).count s =
    hand.count s + (lc.held.filterMap heldSock).count s + within s lc.tcp + within s lc.udp +
      (lc.log.filterMap LoopEdge.closes).count s

section Accounted

variable {lc lc' : LoopCore} {hand hand' : List ℕ} {es : List LoopEdge}

theorem Accounted.step (h : Accounted hand lc) (hlog : lc'.log = lc.log ++ es)
    (hnew : (es.filterMap LoopEdge.gives).Nodup ∧
      ∀ s ∈ es.filterMap LoopEdge.gives, s ∉ lc.log.filterMap LoopEdge.gives)
    (heq : ∀ s, hand.count s + (lc.held.filterMap heldSock).count s + within s lc.tcp + within s lc.udp +
        (es.filterMap LoopEdge.gives).count s =
      hand'.count s + (lc'.held.filterMap heldSock).count s + within s lc'.tcp + within s lc'.udp +
        (es.filterMap LoopEdge.closes).count s) : Accounted hand' lc' := by
  refine ⟨?_, fun s => ?_⟩ <;> rw [hlog] <;> simp only [List.filterMap_append]
  · exact List.nodup_append.mpr ⟨h.once, hnew.1, fun a ha b hb heq => hnew.2 b hb (heq ▸ ha)⟩
  · rw [List.count_append, List.count_append]
    have := h.eq s
    have := heq s
    omega

/-- A step in which `Io` hands out a socket. -/
theorem Accounted.give {x : ℕ} (h : Accounted hand lc) (hlog : lc'.log = lc.log ++ es)
    (hgives : es.filterMap LoopEdge.gives = [x]) (hcloses : es.filterMap LoopEdge.closes = [])
    (hnew : x ∉ lc.log.filterMap LoopEdge.gives)
    (heq : ∀ s, hand.count s + (lc.held.filterMap heldSock).count s + within s lc.tcp + within s lc.udp + [x].count s =
      hand'.count s + (lc'.held.filterMap heldSock).count s + within s lc'.tcp + within s lc'.udp) :
    Accounted hand' lc' := by
  refine h.step hlog ?_ fun s => ?_
  · simpa [hgives] using hnew
  · rw [hgives, hcloses]
    exact heq s

/-- A step that moves sockets. -/
theorem Accounted.move (h : Accounted hand lc) (hlog : lc'.log = lc.log ++ es)
    (hgives : es.filterMap LoopEdge.gives = [])
    (heq : ∀ s, hand.count s + (lc.held.filterMap heldSock).count s + within s lc.tcp + within s lc.udp =
      hand'.count s + (lc'.held.filterMap heldSock).count s + within s lc'.tcp + within s lc'.udp +
        (es.filterMap LoopEdge.closes).count s) : Accounted hand' lc' := by
  refine h.step hlog ?_ fun s => ?_
  · rw [hgives]
    exact ⟨List.nodup_nil, by simp⟩
  · rw [hgives, List.count_nil, Nat.add_zero]
    exact heq s

/-- A step without a part in the sockets. -/
theorem Accounted.frame (h : Accounted hand lc) (hlog : lc'.log = lc.log ++ es) (hheld : lc'.held = lc.held)
    (htcp : lc'.tcp = lc.tcp) (hudp : lc'.udp = lc.udp) (hgives : es.filterMap LoopEdge.gives = [])
    (hcloses : es.filterMap LoopEdge.closes = []) : Accounted hand lc' := by
  refine h.move hlog hgives fun s => ?_
  rw [hheld, htcp, hudp, hcloses, List.count_nil, Nat.add_zero]

theorem count_hand (s x : ℕ) (hand : List ℕ) : (s :: hand).count x = [s].count x + hand.count x := by
  rw [← List.singleton_append, List.count_append]

theorem within_insert {s id sock : ℕ} {t : AList fun _ : ℕ => ℕ} (hid : t.lookup id = none) :
    within s (t.insert id sock) = within s t + [sock].count s := by
  have h := weigh_insert (w := fun x => if x = s then 1 else 0) (t := t) (k := id) sock
  rw [weighAt_of_absent hid, Nat.add_zero] at h
  rw [within, h, List.count_singleton]
  simp [within]

theorem within_erase {s id sock : ℕ} {t : AList fun _ : ℕ => ℕ} (hid : t.lookup id = some sock) :
    within s (t.erase id) + [sock].count s = within s t := by
  have h := weigh_erase (w := fun x => if x = s then 1 else 0) hid
  rw [within, within, ← h, List.count_singleton]
  simp

end Accounted

/-! ### Deadlines -/

/-- **Each dial has its deadline**, or is one of those that are `due`. -/
structure Timed (due : List Expired) (lc : LoopCore) : Prop where
  once : lc.deadlines.Once
  dueOnce : due.Nodup
  apart : ∀ op, .dial op ∈ due → ¬lc.deadlines.Armed (.dial op)
  dials : ∀ op, (lc.dials.lookup op).isSome ↔ lc.deadlines.Armed (.dial op) ∨ .dial op ∈ due

section Timed

variable {lc lc' : LoopCore} {due : List Expired}

/-- A step without a part in the deadlines. -/
theorem Timed.frame (h : Timed due lc) (hdeadlines : lc'.deadlines = lc.deadlines)
    (hdials : ∀ op, (lc'.dials.lookup op).isSome = (lc.dials.lookup op).isSome) : Timed due lc' := by
  obtain ⟨honce, hdue, hapart, htimed⟩ := h
  refine ⟨hdeadlines ▸ honce, hdue, ?_, ?_⟩ <;> grind

/-- A dial goes with its deadline. -/
theorem Timed.drop {op : ℕ} (h : Timed due lc) (hop : .dial op ∉ due) (hdials : lc'.dials = lc.dials.erase op)
    (hdeadlines : lc'.deadlines = lc.deadlines.cancel (.dial op)) : Timed due lc' := by
  obtain ⟨honce, hdue, hapart, htimed⟩ := h
  refine ⟨hdeadlines ▸ honce.cancel _, hdue, ?_, ?_⟩ <;> grind

/-- The next deadline that is due takes its dial with it. -/
theorem Timed.pop {op : ℕ} (h : Timed (.dial op :: due) lc) (hdials : lc'.dials = lc.dials.erase op)
    (hdeadlines : lc'.deadlines = lc.deadlines) : Timed due lc' := by
  obtain ⟨honce, hdue, hapart, htimed⟩ := h
  refine ⟨hdeadlines ▸ honce, ?_, ?_, ?_⟩ <;> grind

/-- A deadline that is not of a dial is due. -/
theorem Timed.skip {x : Expired} (h : Timed (x :: due) lc) (hx : ∀ op, x ≠ .dial op) : Timed due lc := by
  obtain ⟨honce, hdue, hapart, htimed⟩ := h
  refine ⟨honce, ?_, ?_, ?_⟩ <;> grind

/-- A deadline that is not of a dial is armed. -/
theorem Timed.arm {x : Expired} {t : ℕ} (h : Timed due lc) (hx : ∀ op, x ≠ .dial op)
    (hdials : lc'.dials = lc.dials) (hdeadlines : lc'.deadlines = lc.deadlines.arm x t) : Timed due lc' := by
  obtain ⟨honce, hdue, hapart, htimed⟩ := h
  refine ⟨hdeadlines ▸ honce.arm _ _, hdue, ?_, ?_⟩ <;> grind

/-- A new dial has a deadline. -/
theorem Timed.enter {op deadline : ℕ} {st : DialState} (h : Timed due lc) (hop : lc.dials.lookup op = none) :
    Timed due (lc.enterDial op st deadline) := by
  obtain ⟨honce, hdue, hapart, htimed⟩ := h
  refine ⟨honce.arm _ _, hdue, ?_, ?_⟩ <;> grind [LoopCore.enterDial]

/-- The deadlines that are due are taken out. -/
theorem Timed.wake (h : Timed [] lc) (now : ℕ) (hdials : lc'.dials = lc.dials)
    (hdeadlines : lc'.deadlines = (lc.deadlines.expire now).2) : Timed (lc.deadlines.expire now).1 lc' := by
  have hperm := lc.deadlines.perm_expire now
  obtain ⟨hdue, hleft, hdisjoint⟩ := List.nodup_append.mp (hperm.nodup_iff.mpr h.once)
  refine ⟨?_, hdue, fun o ho harmed => ?_, fun o => ?_⟩
  · rw [hdeadlines]
    exact hleft
  · rw [hdeadlines, Deadlines.armed_iff] at harmed
    exact hdisjoint _ ho _ harmed rfl
  · rw [hdials, h.dials, hdeadlines, Deadlines.armed_iff, Deadlines.armed_iff, ← hperm.mem_iff, List.mem_append]
    simp [or_comm]

end Timed

/-! ### The resolver queue -/

/-- The name of the dial is being resolved. -/
def LoopCore.Resolving (lc : LoopCore) (op : ℕ) : Prop :=
  lc.dials.lookup op = some .resolving ∨ lc.dials.lookup op = some .resolveOnly

/-- **Each name that is to be resolved is in the queue**, and names are resolved in the
order in which the shard asked. -/
structure Queued (lc : LoopCore) : Prop where
  sound : lc.resolver.Sound
  active : ∀ op, lc.resolver.Active op ↔ lc.Resolving op
  asked : ∀ op, op ∈ lc.resolver.running ∨ op ∈ lc.resolver.ops → .dial op ∈ lc.log.filterMap LoopEdge.asked
  order : (lc.log.filterMap LoopEdge.starts ++ lc.resolver.ops).Sublist (lc.log.filterMap LoopEdge.submits)

section Queued

variable {lc lc' : LoopCore} {es : List LoopEdge} {op : ℕ}

theorem resolving_erase (hdials : lc'.dials = lc.dials.erase op) (o : ℕ) :
    lc'.Resolving o ↔ lc.Resolving o ∧ o ≠ op := by
  unfold LoopCore.Resolving
  grind

theorem resolving_insert {st : DialState} (hdials : lc'.dials = lc.dials.insert op st) (o : ℕ) :
    lc'.Resolving o ↔ lc.Resolving o ∧ o ≠ op ∨ o = op ∧ (st = .resolving ∨ st = .resolveOnly) := by
  unfold LoopCore.Resolving
  grind

theorem resolving_connecting {a : SocketAddr} (hdials : lc'.dials = lc.dials.insert op (.connecting a)) (o : ℕ) :
    lc'.Resolving o ↔ lc.Resolving o ∧ o ≠ op := by
  rw [resolving_insert hdials]
  simp

theorem filterMap_starts_calls (cs : List IoCall) :
    (cs.map LoopEdge.io).filterMap LoopEdge.starts = ResolverQueue.starts cs := by
  rw [List.filterMap_map]
  refine List.filterMap_congr fun c _ => ?_
  cases c <;> rfl

theorem closes_submit (q : ResolverQueue) (op : ℕ) (host : String) (port : UInt16) :
    ((q.submit op host port).2.map LoopEdge.io).filterMap LoopEdge.closes = [] := by
  unfold ResolverQueue.submit
  split <;> rfl

theorem closes_finished (q : ResolverQueue) (op : ℕ) :
    ((q.finished op).2.2.map LoopEdge.io).filterMap LoopEdge.closes = [] := by
  unfold ResolverQueue.finished
  split
  · split <;> rfl
  · rfl

@[simp] theorem asked_comp_io : LoopEdge.asked ∘ LoopEdge.io = fun _ => none := rfl

@[simp] theorem cancelled_comp_io : LoopEdge.cancelled ∘ LoopEdge.io = fun _ => none := rfl

@[simp] theorem told_comp_io : LoopEdge.told ∘ LoopEdge.io = fun _ => none := rfl

@[simp] theorem gives_comp_io : LoopEdge.gives ∘ LoopEdge.io = fun _ => none := rfl

@[simp] theorem submits_comp_io : LoopEdge.submits ∘ LoopEdge.io = fun _ => none := rfl

/-- A step of the queue: what is in it was asked for, and the order is kept. -/
theorem Queued.step {q : ResolverQueue} (h : Queued lc) (hlog : lc'.log = lc.log ++ es) (hresolver : lc'.resolver = q)
    (hsound : q.Sound) (hactive : ∀ o, q.Active o ↔ lc'.Resolving o)
    (hasked : ∀ o, o ∈ q.running ∨ o ∈ q.ops →
      (o ∈ lc.resolver.running ∨ o ∈ lc.resolver.ops) ∨ .dial o ∈ es.filterMap LoopEdge.asked)
    (horder : (es.filterMap LoopEdge.starts ++ q.ops).Sublist (lc.resolver.ops ++ es.filterMap LoopEdge.submits)) :
    Queued lc' := by
  subst hresolver
  refine ⟨hsound, hactive, fun o ho => ?_, ?_⟩ <;> rw [hlog] <;> simp only [List.filterMap_append]
  · exact List.mem_append.mpr ((hasked o ho).imp_left (h.asked o))
  · rw [List.append_assoc]
    refine ((List.Sublist.refl _).append horder).trans ?_
    rw [← List.append_assoc]
    exact h.order.append (List.Sublist.refl _)

/-- A new operation enters the queue. -/
theorem Queued.submit {r : IoRequest} {host : String} {port : UInt16} {deadline : ℕ} {st : DialState} (h : Queued lc)
    (hop : .dial op ∉ lc.log.filterMap LoopEdge.asked) (hst : st = .resolving ∨ st = .resolveOnly)
    (hasked : asks r = some (.dial op)) (hsubmits : LoopEdge.submits (.request r) = some op) :
    Queued (((lc.note [.request r]).enterDial op st deadline).submit op host port) := by
  have hrunning : op ∉ lc.resolver.running := fun hmem => hop (h.asked op (Or.inl hmem))
  have hwaiting : op ∉ lc.resolver.ops := fun hmem => hop (h.asked op (Or.inr hmem))
  have hasked : LoopEdge.asked (.request r) = some (.dial op) := hasked
  have hnot : ¬lc.Resolving op := by
    rw [← h.active, ResolverQueue.Active]
    tauto
  set q := (lc.resolver.submit op host port).1
  have hstarts : ResolverQueue.starts (lc.resolver.submit op host port).2 ++ q.ops = lc.resolver.ops ++ [op] :=
    ResolverQueue.starts_submit h.sound host port
  have hlog : (((lc.note [.request r]).enterDial op st deadline).submit op host port).log =
      lc.log ++ (.request r :: (lc.resolver.submit op host port).2.map .io) := List.append_assoc _ _ _
  have hdials : (((lc.note [.request r]).enterDial op st deadline).submit op host port).dials =
      lc.dials.insert op st := rfl
  refine h.step (q := q) hlog rfl (h.sound.submit hrunning hwaiting host port) (fun o => ?_) (fun o ho => ?_) ?_
  · rw [ResolverQueue.active_submit h.sound hrunning hwaiting, h.active, resolving_insert hdials]
    grind
  · have hrun : o ∈ q.running → o ∈ lc.resolver.running ∨ o = op := ResolverQueue.running_submit
    have hops : o ∈ q.ops → o ∈ lc.resolver.ops ++ [op] := fun ho => hstarts ▸ List.mem_append_right _ ho
    rw [List.filterMap_cons_some hasked]
    grind
  · rw [List.filterMap_cons_some hsubmits, List.filterMap_cons_none rfl, filterMap_starts_calls, hstarts]
    simp

/-- A step without a part in the resolver queue. -/
theorem Queued.frame (h : Queued lc) (hlog : lc'.log = lc.log ++ es) (hresolver : lc'.resolver = lc.resolver)
    (hresolving : ∀ o, lc'.Resolving o ↔ lc.Resolving o) (hstarts : es.filterMap LoopEdge.starts = []) :
    Queued lc' :=
  h.step hlog hresolver h.sound (fun o => by rw [hresolving, h.active]) (fun _ => Or.inl) (by simp [hstarts])

/-- A dial leaves the table, and the queue with it. -/
theorem Queued.cancel (h : Queued lc) (hlog : lc'.log = lc.log ++ es)
    (hresolver : lc'.resolver = lc.resolver.cancel op) (hdials : lc'.dials = lc.dials.erase op)
    (hstarts : es.filterMap LoopEdge.starts = []) : Queued lc' := by
  have hops := ResolverQueue.ops_cancel lc.resolver op
  refine h.step hlog hresolver (h.sound.cancel op) (fun o => ?_) (fun o ho => ?_) ?_
  · rw [ResolverQueue.active_cancel h.sound, resolving_erase hdials, h.active]
  · rw [ResolverQueue.running_cancel] at ho
    exact Or.inl (ho.imp_right fun hw => hops.subset hw)
  · rw [hstarts]
    exact hops.trans (List.sublist_append_left _ _)

/-- A slot is freed, and the next name is resolved. -/
theorem Queued.finish (h : Queued lc) (hop : op ∈ lc.resolver.running)
    (hlog : lc'.log = lc.log ++ ((lc.resolver.finished op).2.2.map .io ++ es))
    (hresolver : lc'.resolver = (lc.resolver.finished op).2.1)
    (hresolving : ∀ o, lc'.Resolving o ↔ lc.Resolving o ∧ o ≠ op) (hstarts : es.filterMap LoopEdge.starts = []) :
    Queued lc' := by
  have horder := ResolverQueue.starts_finished lc.resolver op
  refine h.step hlog hresolver (h.sound.finished op) (fun o => ?_) (fun o ho => Or.inl ?_) ?_
  · rw [ResolverQueue.active_finished h.sound hop, hresolving, h.active]
  · rcases ho with ho | ho
    · exact ResolverQueue.running_finished ho
    · exact Or.inr (horder ▸ List.mem_append_right _ ho)
  · rw [List.filterMap_append, filterMap_starts_calls, hstarts, List.append_nil, horder]
    simp

end Queued

end MqProxy.Driver
