import MqProxy.Transport.TxQueues
import Mathlib.Data.List.Perm.Basic

/-!
# The transmit queues as lists of packets

What the transmit queues are for is said by `Fifo`: each key has a list of packets, a
push adds one at the end or is refused, and the driver takes packets off the front that
it was shown before. `lent` counts the packets of the last `peek` of a key that are still
at its front; a `done` is for at most that many.

The queues do the same as the lists, for every run of calls and whatever the allocator
does (`queues_refine_fifo`). The rule for `done` counts what earlier calls of `done` took
from the same `peek`: with the number of packets of the last `peek` alone as its bound, a
second `done` pops an empty queue (`second_done_pops_empty`).
-/

namespace MqProxy.Transport

open MqProxy.Library MqProxy.Runtime

/-- A call of the transmit queues. -/
inductive Call where
  | push (key : TxKey) (p : Packet) (bytes_ne : p.bytes ≠ [])
  | peek (key : TxKey)
  | done (key : TxKey) (datagrams : ℕ)
  | keys
  | dropConn (conn : ConnId)

/-- What a call returns. -/
inductive Ret where
  | pushed (r : Except Refusal Unit)
  | peeked (tx : Option Transmit)
  | listed (keys : List TxKey)
  | unit
  deriving DecidableEq

namespace TxQueues

/-- One call. -/
def call (grow : ℕ → ℕ → ℕ) (t : TxQueues) : Call → Option (Ret × TxQueues)
  | .push key p _ => (t.push grow key p.dst p.bytes).map fun (r, t) => (.pushed r, t)
  | .peek key => (t.peek key).map fun tx => (.peeked tx, t)
  | .done key datagrams => (t.done key datagrams).map fun t => (.unit, t)
  | .keys => some (.listed t.keys, t)
  | .dropConn conn => (t.dropConn conn).map fun t => (.unit, t)

/-- Calls one after another. -/
def run (grow : ℕ → ℕ → ℕ) (t : TxQueues) : List Call → Option (List Ret × TxQueues)
  | [] => some ([], t)
  | c :: calls => do
    let (r, t) ← t.call grow c
    let (rs, t) ← t.run grow calls
    return (r :: rs, t)

end TxQueues

/-! ### The lists -/

/-- **The lists of packets**, and how many of the last `peek` are still at the front. -/
structure Fifo where
  queue : TxKey → List Packet
  lent : TxKey → ℕ
  bytes_ne : ∀ key, ∀ p ∈ queue key, p.bytes ≠ []
  lent_le : ∀ key, lent key ≤ (queue key).length

namespace Fifo

/-- No packets. -/
def empty : Fifo := ⟨fun _ => [], fun _ => 0, by simp, by simp⟩

/-- The bytes in all lists. -/
noncomputable def total (m : Fifo) : ℕ := ∑ᶠ key, size (m.queue key)

/-- Whether a packet is taken. -/
noncomputable def verdict (m : Fifo) (key : TxKey) (p : Packet) : Except Refusal Unit :=
  TxQueues.verdict (size (m.queue key)) m.total p.bytes.length

theorem mem_update {m : Fifo} {key k : TxKey} {l : List Packet} {p : Packet} (hl : ∀ p ∈ l, p.bytes ≠ [])
    (hp : p ∈ Function.update m.queue key l k) : p.bytes ≠ [] := by
  by_cases hk : k = key
  · rw [hk, Function.update_self] at hp
    exact hl p hp
  · rw [Function.update_of_ne hk] at hp
    exact m.bytes_ne k p hp

/-- A packet at the end of a list. -/
def append (m : Fifo) (key : TxKey) (p : Packet) (hp : p.bytes ≠ []) : Fifo where
  queue := Function.update m.queue key (m.queue key ++ [p])
  lent := m.lent
  bytes_ne k x hx := mem_update (by
    intro y hy
    rcases List.mem_append.mp hy with hy | hy
    · exact m.bytes_ne key y hy
    · rwa [List.mem_singleton.mp hy]) hx
  lent_le k := by
    refine (m.lent_le k).trans ?_
    by_cases hk : k = key
    · rw [hk, Function.update_self]
      simp
    · rw [Function.update_of_ne hk]

/-- The burst at the front of a list is lent. -/
def lend (m : Fifo) (key : TxKey) : Fifo where
  queue := m.queue
  lent := Function.update m.lent key (burst (m.queue key))
  bytes_ne := m.bytes_ne
  lent_le k := by
    by_cases hk : k = key
    · rw [hk, Function.update_self]
      exact burst_le_length _
    · rw [Function.update_of_ne hk]
      exact m.lent_le k

/-- Packets leave the front of a list. -/
def drop (m : Fifo) (key : TxKey) (n : ℕ) : Fifo where
  queue := Function.update m.queue key ((m.queue key).drop n)
  lent := Function.update m.lent key (m.lent key - n)
  bytes_ne k x hx := mem_update (fun y hy => m.bytes_ne key y (List.mem_of_mem_drop hy)) hx
  lent_le k := by
    by_cases hk : k = key
    · rw [hk, Function.update_self, Function.update_self, List.length_drop]
      exact Nat.sub_le_sub_right (m.lent_le key) n
    · rw [Function.update_of_ne hk, Function.update_of_ne hk]
      exact m.lent_le k

/-- The lists of a connection are emptied. -/
def forget (m : Fifo) (conn : ConnId) : Fifo where
  queue := TxQueues.afterDrop m.queue conn
  lent k := if k.1 = some conn then 0 else m.lent k
  bytes_ne k x hx := by
    rw [TxQueues.afterDrop] at hx
    split at hx
    · cases hx
    · exact m.bytes_ne k x hx
  lent_le k := by
    rw [TxQueues.afterDrop]
    split
    · exact Nat.zero_le _
    · exact m.lent_le k

/-- The lists after a call. -/
noncomputable def next (m : Fifo) : Call → Fifo
  | .push key p hp =>
    match m.verdict key p with
    | .ok () => m.append key p hp
    | .error _ => m
  | .peek key => m.lend key
  | .done key n => m.drop key n
  | .keys => m
  | .dropConn conn => m.forget conn

/-- The lists after a run of calls. -/
noncomputable def after (m : Fifo) (calls : List Call) : Fifo := calls.foldl next m

/-- What is called on the queues: a `done` is for packets that are lent. -/
def Admits (m : Fifo) : Call → Prop
  | .done key n => n ≤ m.lent key
  | _ => True

/-- A run of calls that each time keep to the rule. -/
def Lawful (m : Fifo) : List Call → Prop
  | [] => True
  | c :: calls => m.Admits c ∧ (m.next c).Lawful calls

/-- What `peek` has to offer. -/
def offer (m : Fifo) (key : TxKey) : Option Transmit :=
  (m.queue key).head?.map fun first =>
    ⟨first.dst, first.bytes.length, joined ((m.queue key).take (burst (m.queue key)))⟩

/-- A transmit is the first `k` packets of a list. -/
structure Cut (l : List Packet) (k : ℕ) (tx : Transmit) : Prop where
  one_le : 1 ≤ k
  le : k ≤ 64
  /-- Cut at every `segment_size` bytes it is the packets. -/
  chunks_eq : chunks tx.segmentSize tx.payload = (l.take k).map Packet.bytes
  dst_eq : ∀ p ∈ l.take k, p.dst = tx.dst
  /-- The driver counts as many. -/
  datagrams_eq : tx.datagrams = k

/-- What a call returns. -/
def Answer (m : Fifo) : Call → Ret → Prop
  | .push key p _, r => r = .pushed (m.verdict key p)
  | .peek key, r => r = .peeked (m.offer key) ∧ ∀ tx ∈ m.offer key, Cut (m.queue key) (burst (m.queue key)) tx
  | .keys, .listed ks => ks.Nodup ∧ ∀ key, key ∈ ks ↔ m.queue key ≠ []
  | .keys, _ => False
  | .done .., r => r = .unit
  | .dropConn _, r => r = .unit

/-- What a run of calls returns. -/
def Answers (m : Fifo) : List Call → List Ret → Prop
  | [], rs => rs = []
  | _ :: _, [] => False
  | c :: calls, r :: rs => m.Answer c r ∧ (m.next c).Answers calls rs

end Fifo

/-! ### The queues refine the lists -/

namespace TxQueues

variable {t : TxQueues} {m : Fifo}

theorem fifo_total (h : t.Represents m.queue) : t.total = m.total := h.total_eq_finsum

/-- The lists after a push are those of the model. -/
theorem afterPush_eq (m : Fifo) (key : TxKey) (p : Packet) (hp : p.bytes ≠ []) :
    afterPush m.queue key p (m.verdict key p) = (m.next (.push key p hp)).queue := by
  simp only [Fifo.next]
  cases m.verdict key p <;> rfl

/-- What is offered is cut back into its packets. -/
theorem cut_offer (m : Fifo) (key : TxKey) : ∀ tx ∈ m.offer key, Fifo.Cut (m.queue key) (burst (m.queue key)) tx := by
  intro tx htx
  have hne := m.bytes_ne key
  rw [Fifo.offer] at htx
  cases hq : m.queue key with
  | nil => simp [hq] at htx
  | cons first l =>
    rw [hq] at htx hne
    obtain rfl : (⟨first.dst, first.bytes.length, joined ((first :: l).take (burst (first :: l)))⟩ : Transmit) = tx := by
      simpa using htx
    obtain ⟨hone, hlen, hburst⟩ := burst_spec first l
    have htake : ((first :: l).take (burst (first :: l))).length = burst (first :: l) := List.length_take_of_le hlen
    obtain ⟨hcut, hcount⟩ := burst_transmit (fun p hp => hne p (List.mem_of_mem_take hp)) (hne first List.mem_cons_self)
      hburst
    exact ⟨hone, htake ▸ hburst.1, hcut, fun p hp => (hburst.2.1 p hp).1, hcount.trans htake⟩

/-- **One call** does to the queues what it does to the lists. -/
theorem Represents.call (h : t.Represents m.queue) (grow : ℕ → ℕ → ℕ) {c : Call} (hc : m.Admits c) :
    ∃ r t', t.call grow c = some (r, t') ∧ m.Answer c r ∧ t'.Represents (m.next c).queue := by
  cases c with
  | push key p hp =>
    obtain ⟨t', ht', hrep, -⟩ := h.push grow key p
    have hverdict : verdict (size (m.queue key)) t.total p.bytes.length = m.verdict key p := by
      rw [fifo_total h, Fifo.verdict]
    rw [hverdict] at ht' hrep
    exact ⟨_, t', by simp only [TxQueues.call, ht', Option.map_some], rfl, afterPush_eq m key p hp ▸ hrep⟩
  | peek key => exact ⟨_, t, by simp only [TxQueues.call, h.peek]; rfl, ⟨rfl, cut_offer m key⟩, h⟩
  | done key n =>
    obtain ⟨t₁, ht₁, hrep, -⟩ := h.done (hc.trans (m.lent_le key))
    exact ⟨.unit, _, by simp only [TxQueues.call, ht₁]; rfl, rfl, hrep.resumptionPass _⟩
  | keys =>
    obtain ⟨hnodup, hmem⟩ := h.keys
    refine ⟨_, t, rfl, ⟨hnodup, fun key => (hmem key).trans ?_⟩, h⟩
    cases hq : m.queue key with
    | nil => simp
    | cons p l =>
      -- a packet has bytes
      have hp : 0 < p.bytes.length := List.length_pos_of_ne_nil (m.bytes_ne key p (hq ▸ List.mem_cons_self))
      simp only [size_cons, ne_eq, reduceCtorEq, not_false_eq_true, iff_true]
      omega
  | dropConn conn =>
    obtain ⟨t₁, ht₁, hrep, -⟩ := h.dropConn conn
    exact ⟨.unit, _, by simp only [TxQueues.call, ht₁]; rfl, rfl, hrep.resumptionPass _⟩

/-- **A run of calls.** -/
theorem Represents.run (grow : ℕ → ℕ → ℕ) (calls : List Call) {t : TxQueues} {m : Fifo} (h : t.Represents m.queue)
    (hc : m.Lawful calls) :
    ∃ rs t', t.run grow calls = some (rs, t') ∧ m.Answers calls rs ∧ t'.Represents (m.after calls).queue := by
  induction calls generalizing t m with
  | nil => exact ⟨[], t, rfl, rfl, h⟩
  | cons c calls ih =>
    obtain ⟨r, t₁, hcall, hanswer, h₁⟩ := h.call grow hc.1
    obtain ⟨rs, t₂, hrun, hanswers, h₂⟩ := ih h₁ hc.2
    exact ⟨r :: rs, t₂, by simp only [TxQueues.run, hcall, Option.bind_eq_bind, Option.bind_some, hrun]; rfl,
      ⟨hanswer, hanswers⟩, h₂⟩

end TxQueues

/-- The same answer: `keys` has no order. -/
inductive Ret.Same : Ret → Ret → Prop
  | refl (r : Ret) : Ret.Same r r
  | listed {ks ks' : List TxKey} : ks.Perm ks' → Ret.Same (.listed ks) (.listed ks')

namespace Fifo

variable {m : Fifo}

/-- The lists determine what a call returns. -/
theorem Answer.same {c : Call} {r r' : Ret} (h : m.Answer c r) (h' : m.Answer c r') : r.Same r' := by
  cases c with
  | push key p hp => exact h.trans h'.symm ▸ .refl r
  | peek key => exact h.1.trans h'.1.symm ▸ .refl r
  | done key n => exact h.trans h'.symm ▸ .refl r
  | dropConn conn => exact h.trans h'.symm ▸ .refl r
  | keys =>
    cases r with
    | listed ks =>
      cases r' with
      | listed ks' => exact .listed ((List.perm_ext_iff_of_nodup h.1 h'.1).mpr fun k => (h.2 k).trans (h'.2 k).symm)
      | pushed _ => exact h'.elim
      | peeked _ => exact h'.elim
      | unit => exact h'.elim
    | pushed _ => exact h.elim
    | peeked _ => exact h.elim
    | unit => exact h.elim

theorem Answers.same {calls : List Call} {rs rs' : List Ret} {m : Fifo} (h : m.Answers calls rs)
    (h' : m.Answers calls rs') : List.Forall₂ Ret.Same rs rs' := by
  induction calls generalizing m rs rs' with
  | nil =>
    rw [show rs = [] from h, show rs' = [] from h']
    exact .nil
  | cons c calls ih =>
    cases rs with
    | nil => exact h.elim
    | cons r rs =>
      cases rs' with
      | nil => exact h'.elim
      | cons r' rs' => exact .cons (h.1.same h'.1) (ih h.2 h'.2)

end Fifo

/-- **The transmit queues refine lists of packets.** Whatever capacities the allocator
gives, in every run in which each `done` is for packets that the last `peek` of its key
offered and that are still there: no call panics, so in particular `done` never pops an
empty queue; each call returns what the lists say (`Fifo.Answer`), so that a `peek` is
cut back into the first `k` packets, `1 ≤ k ≤ 64`, of one destination, and the driver
counts `k`; the queues then hold the packets of the lists within the quota of each queue
and of the total (`TxQueues.Represents`); and a push that is refused changes nothing that
can be observed in any later run. -/
theorem queues_refine_fifo (grow : ℕ → ℕ → ℕ) {calls : List Call} (h : Fifo.empty.Lawful calls) :
    ∃ rs t, TxQueues.default.run grow calls = some (rs, t) ∧ Fifo.empty.Answers calls rs ∧
      t.Represents (Fifo.empty.after calls).queue ∧
        ∀ key (p : Packet) why t', t.push grow key p.dst p.bytes = some (.error why, t') →
          ∀ later, (Fifo.empty.after calls).Lawful later →
            ∃ rs₁ t₁ rs₂ t₂, t.run grow later = some (rs₁, t₁) ∧ t'.run grow later = some (rs₂, t₂) ∧
              List.Forall₂ Ret.Same rs₁ rs₂ := by
  have hempty : TxQueues.default.Represents Fifo.empty.queue := TxQueues.represents_default
  obtain ⟨rs, t, hrun, hanswers, hrep⟩ := hempty.run grow calls h
  refine ⟨rs, t, hrun, hanswers, hrep, fun key p why t' hpush later hlater => ?_⟩
  -- a refused push leaves the lists as they are, and the lists determine the rest
  obtain ⟨t'', hpush', hrep', -⟩ := hrep.push grow key p
  rw [hpush, Option.some.injEq, Prod.mk.injEq] at hpush'
  obtain ⟨hwhy, rfl⟩ := hpush'
  rw [← hwhy] at hrep'
  obtain ⟨rs₁, t₁, hrun₁, hanswers₁, -⟩ := hrep.run grow later hlater
  obtain ⟨rs₂, t₂, hrun₂, hanswers₂, -⟩ := TxQueues.Represents.run grow later hrep' hlater
  exact ⟨rs₁, t₁, rs₂, t₂, hrun₁, hrun₂, hanswers₁.same hanswers₂⟩

/-- A packet. -/
def ping : Packet := ⟨.v4 ⟨[10, 0, 0, 1], rfl⟩ 4433, [7, 8]⟩

/-- It is pushed, offered and sent. -/
def pingSent : List Call := [.push (none, 0) ping (by decide), .peek (none, 0), .done (none, 0) 1]

theorem queues_refine_fifo_ping :
    ∃ rs t, TxQueues.default.run (fun _ n => n) pingSent = some (rs, t) ∧
      t.Represents (Fifo.empty.after pingSent).queue := by
  have hverdict : Fifo.empty.verdict (none, 0) ping = .ok () := by
    have htotal : Fifo.empty.total = 0 := finsum_zero
    rw [Fifo.verdict, htotal]
    decide
  have hqueue : (Fifo.empty.append (none, 0) ping (by decide)).queue (none, 0) = [ping] := by
    simp [Fifo.append, Fifo.empty]
  have hlawful : Fifo.empty.Lawful pingSent := by
    simp only [pingSent, Fifo.Lawful, Fifo.next, hverdict]
    refine ⟨trivial, trivial, ?_, trivial⟩
    simp only [Fifo.Admits, Fifo.lend, Function.update_self, hqueue]
    decide
  obtain ⟨rs, t, hrun, -, hrep, -⟩ := queues_refine_fifo (fun _ n => n) hlawful
  exact ⟨rs, t, hrun, hrep⟩

/-- **A second `done` of one `peek` pops an empty queue**: it is for no more than the
packets of the last `peek`, one, but the first `done` took that one. -/
theorem second_done_pops_empty :
    (TxQueues.default.run (fun _ n => n) pingSent).map Prod.fst =
        some [.pushed (.ok ()), .peeked (some ⟨ping.dst, 2, [7, 8]⟩), .unit] ∧
      (⟨ping.dst, 2, [7, 8]⟩ : Transmit).datagrams = 1 ∧
      TxQueues.default.run (fun _ n => n) (pingSent ++ [.done (none, 0) 1]) = none :=
  ⟨by decide, by decide, rfl⟩

end MqProxy.Transport
