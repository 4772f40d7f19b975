import MqProxy.Library.Vec
import MqProxy.Runtime.Target
import Mathlib.Data.Nat.Find

/-!
# One transmit queue

`Queue` of `mq-transport/src/txq.rs`: the packets for one path of one connection, one
after another in a buffer of which the part from `head` to `tail` is in use. The buffer
grows as it is used and is compacted only when it would have to grow; what capacity the
allocator gives for a wanted length (`grow`) is left open. A slice out of range, a
subtraction below zero and the `unwrap` of an empty queue have no result.

`Queue.Holds` says which packets a queue stands for, and each operation is specified by
what it does to them. What `peek` offers is the longest `burst` at the head: packets for
one destination that a single send can cut apart again.
-/

namespace MqProxy.Transport

open MqProxy.Library MqProxy.Runtime

/-- `Transmit`. -/
structure Transmit where
  dst : SocketAddr
  /-- The payload is datagrams of this size, the last one perhaps shorter. -/
  segmentSize : ℕ
  payload : List UInt8
  deriving DecidableEq

/-- The number of datagrams `udp_tx` counts in a transmit. -/
def Transmit.datagrams (t : Transmit) : ℕ := (t.payload.length + max t.segmentSize 1 - 1) / max t.segmentSize 1

/-- `Pkt`. -/
structure Pkt where
  len : ℕ
  dst : SocketAddr
  deriving DecidableEq

/-- `Queue`. -/
structure Queue where
  buf : List UInt8
  /-- `buf.capacity()`. -/
  capacity : ℕ
  head : ℕ
  tail : ℕ
  pkts : List Pkt
  bytes : ℕ
  deriving DecidableEq

namespace Queue

/-- `Queue::new`. -/
def new : Queue := ⟨[], 0, 0, 0, [], 0⟩

/-- `Queue::compact`. -/
def compact (q : Queue) : Option Queue := do
  -- `copy_within(head..tail, 0)`
  let used ← slice q.buf q.head q.tail
  let tail ← checkedSub q.tail q.head
  return { q with buf := used ++ q.buf.drop used.length, tail, head := 0 }

/-- The compaction of `Queue::append`, only when the buffer would have to grow. -/
def makeRoom (q : Queue) (len : ℕ) : Option Queue := if q.capacity < q.tail + len then q.compact else some q

/-- `Queue::append`. -/
def append (grow : ℕ → ℕ → ℕ) (q : Queue) (dst : SocketAddr) (pkt : List UInt8) : Option Queue := do
  let q ← q.makeRoom pkt.length
  let buf := q.buf.take q.tail ++ pkt
  return { q with
    buf
    capacity := if buf.length ≤ q.capacity then q.capacity else grow q.capacity buf.length
    tail := q.tail + pkt.length
    pkts := q.pkts ++ [⟨pkt.length, dst⟩]
    bytes := q.bytes + pkt.length }

/-- The loop of `Queue::peek`: `i` packets were looked at, and `bytes` is their size. -/
def run (first : Pkt) : ℕ → ℕ → List Pkt → ℕ
  | _, bytes, [] => bytes
  | i, bytes, p :: pkts =>
    if i = 64 ∨ p.dst ≠ first.dst ∨ first.len < p.len then bytes
    else if p.len < first.len then bytes + p.len
    else run first (i + 1) (bytes + p.len) pkts

/-- `Queue::peek`. -/
def peek (q : Queue) : Option (Option Transmit) :=
  match q.pkts.head? with
  | none => some none
  | some first => do
    let payload ← slice q.buf q.head (q.head + run first 0 0 q.pkts)
    return some ⟨first.dst, first.len, payload⟩

/-- The loop of `Queue::done`: `freed` bytes were freed. -/
def pop (q : Queue) (freed : ℕ) : ℕ → Option (Queue × ℕ)
  | 0 => some (q, freed)
  | n + 1 =>
    match q.pkts with
    | [] => none
    | p :: pkts => pop { q with pkts, head := q.head + p.len } (freed + p.len) n

/-- `Queue::done`: the bytes freed. -/
def done (q : Queue) (datagrams : ℕ) : Option (Queue × ℕ) := do
  let (q, freed) ← q.pop 0 datagrams
  let bytes ← checkedSub q.bytes freed
  let q := { q with bytes }
  return (if q.pkts = [] then { q with head := 0, tail := 0 } else q, freed)

end Queue

/-! ### The packets of a queue -/

/-- A packet and where it goes. -/
structure Packet where
  dst : SocketAddr
  bytes : List UInt8
  deriving DecidableEq

/-- The record a queue keeps of a packet. -/
def Packet.pkt (p : Packet) : Pkt := ⟨p.bytes.length, p.dst⟩

@[simp] theorem Packet.pkt_len (p : Packet) : p.pkt.len = p.bytes.length := rfl

@[simp] theorem Packet.pkt_dst (p : Packet) : p.pkt.dst = p.dst := rfl

/-- The packets one after another. -/
def joined (l : List Packet) : List UInt8 := l.flatMap Packet.bytes

/-- Their size. -/
def size (l : List Packet) : ℕ := (joined l).length

@[simp] theorem joined_nil : joined [] = [] := rfl

@[simp] theorem joined_cons (p : Packet) (l : List Packet) : joined (p :: l) = p.bytes ++ joined l := List.flatMap_cons

@[simp] theorem joined_append (l l' : List Packet) : joined (l ++ l') = joined l ++ joined l' := List.flatMap_append

@[simp] theorem size_nil : size [] = 0 := rfl

@[simp] theorem size_cons (p : Packet) (l : List Packet) : size (p :: l) = p.bytes.length + size l := by
  simp [size]

@[simp] theorem size_append (l l' : List Packet) : size (l ++ l') = size l + size l' := by
  simp [size]

theorem joined_eq_flatten (l : List Packet) : joined l = (l.map Packet.bytes).flatten := rfl

theorem joined_drop (l : List Packet) (n : ℕ) : joined (l.drop n) = (joined l).drop (size (l.take n)) := by
  conv_rhs => rw [← List.take_append_drop n l, joined_append]
  rw [List.take_append_drop, size, List.drop_left]

theorem size_take_add_drop (l : List Packet) (n : ℕ) : size (l.take n) + size (l.drop n) = size l := by
  rw [← size_append, List.take_append_drop]

/-- A queue stands for a list of packets: their records are its records, and the part
of the buffer in use is their bytes. -/
structure Queue.Holds (q : Queue) (l : List Packet) : Prop where
  pkts_eq : q.pkts = l.map Packet.pkt
  used_eq : (q.buf.take q.tail).drop q.head = joined l
  bytes_eq : q.bytes = size l
  tail_eq : q.tail = q.head + size l
  tail_le : q.tail ≤ q.buf.length

namespace Queue

theorem holds_new : new.Holds [] := ⟨rfl, rfl, rfl, rfl, Nat.le_refl _⟩

/-- A queue is compacted without loss. -/
theorem Holds.compact {q : Queue} {l : List Packet} (h : q.Holds l) :
    ∃ q', q.compact = some q' ∧ q'.Holds l ∧ q'.head = 0 ∧ q'.tail = size l := by
  have hle : q.head ≤ q.tail := by rw [h.tail_eq]; exact Nat.le_add_right _ _
  have htail : q.tail - q.head = size l := by rw [h.tail_eq, Nat.add_sub_cancel_left]
  refine ⟨_, by simp only [Queue.compact, slice_of_le hle h.tail_le, checkedSub_of_le hle, h.used_eq]; rfl, ?_, rfl,
    htail⟩
  refine ⟨h.pkts_eq, ?_, h.bytes_eq, by rw [htail, Nat.zero_add], ?_⟩
  · rw [htail, List.drop_zero, size, List.take_left]
  · rw [htail, List.length_append]
    exact Nat.le_add_right _ _

/-- **`append` adds its packet at the end**, whatever the buffer's capacity. -/
theorem Holds.append {q : Queue} {l : List Packet} (h : q.Holds l) (grow : ℕ → ℕ → ℕ) (p : Packet) :
    ∃ q', q.append grow p.dst p.bytes = some q' ∧ q'.Holds (l ++ [p]) := by
  obtain ⟨q₁, hq₁, h₁⟩ : ∃ q₁, q.makeRoom p.bytes.length = some q₁ ∧ q₁.Holds l := by
    rw [makeRoom]
    split
    · obtain ⟨q', hq', h', -⟩ := h.compact
      exact ⟨q', hq', h'⟩
    · exact ⟨q, rfl, h⟩
  refine ⟨_, by simp only [Queue.append, hq₁]; rfl, ?_⟩
  have htake : (q₁.buf.take q₁.tail).length = q₁.tail := List.length_take_of_le h₁.tail_le
  have hhead : q₁.head ≤ (q₁.buf.take q₁.tail).length := by rw [htake, h₁.tail_eq]; exact Nat.le_add_right _ _
  refine ⟨?_, ?_, ?_, ?_, ?_⟩
  · rw [h₁.pkts_eq, List.map_append]
    rfl
  · show ((q₁.buf.take q₁.tail ++ p.bytes).take (q₁.tail + p.bytes.length)).drop q₁.head = joined (l ++ [p])
    have hlen : (q₁.buf.take q₁.tail ++ p.bytes).length = q₁.tail + p.bytes.length := by rw [List.length_append, htake]
    rw [← hlen, List.take_length, List.drop_append_of_le_length hhead, h₁.used_eq]
    simp
  · simp [h₁.bytes_eq]
  · simp [h₁.tail_eq, Nat.add_assoc]
  · rw [List.length_append, htake]

/-! ### Done -/

theorem pop_spec {l : List Packet} {n : ℕ} (hn : n ≤ l.length) {q : Queue} (hq : q.pkts = l.map Packet.pkt)
    (freed : ℕ) :
    q.pop freed n = some ({ q with pkts := (l.drop n).map Packet.pkt, head := q.head + size (l.take n) },
      freed + size (l.take n)) := by
  induction n generalizing l q freed with
  | zero =>
    rw [pop, List.drop_zero, List.take_zero, size_nil, ← hq]
    rfl
  | succ n ih =>
    cases l with
    | nil => exact absurd hn (Nat.not_succ_le_zero n)
    | cons p l =>
      rw [List.map_cons] at hq
      simp only [pop, hq]
      rw [ih (Nat.le_of_succ_le_succ hn) rfl]
      simp [Packet.pkt, Nat.add_assoc]

/-- **`done` removes the first packets.** -/
theorem Holds.done {q : Queue} {l : List Packet} (h : q.Holds l) {n : ℕ} (hn : n ≤ l.length) :
    ∃ q', q.done n = some (q', size (l.take n)) ∧ q'.Holds (l.drop n) := by
  have hsize := size_take_add_drop l n
  have hle : size (l.take n) ≤ q.bytes := by rw [h.bytes_eq, ← hsize]; exact Nat.le_add_right _ _
  refine ⟨_, by simp only [Queue.done, pop_spec hn h.pkts_eq, Nat.zero_add, Option.bind_eq_bind, Option.bind_some,
    checkedSub_of_le hle]; rfl, ?_⟩
  have hbytes : q.bytes - size (l.take n) = size (l.drop n) := by
    rw [h.bytes_eq, ← hsize, Nat.add_sub_cancel_left]
  split
  · next hnil =>
    -- the queue starts again at the front of its buffer
    have hnil : l.drop n = [] := by simpa using hnil
    refine ⟨by rw [hnil], ?_, hbytes, ?_, Nat.zero_le _⟩
    · rw [hnil]
      rfl
    · rw [hnil]
      rfl
  · refine ⟨rfl, ?_, hbytes, ?_, h.tail_le⟩
    · rw [joined_drop, ← h.used_eq, List.drop_drop]
    · rw [h.tail_eq, ← hsize, Nat.add_assoc]

theorem le_of_pop {n freed : ℕ} {q : Queue} {r : Queue × ℕ} (h : q.pop freed n = some r) : n ≤ q.pkts.length := by
  induction n generalizing q freed with
  | zero => exact Nat.zero_le _
  | succ n ih =>
    simp only [pop] at h
    split at h
    · cases h
    · next hq =>
      rw [hq]
      exact Nat.succ_le_succ (ih h)

/-- More packets than there are cannot be popped. -/
theorem Holds.le_of_done {q : Queue} {l : List Packet} (h : q.Holds l) {n : ℕ} {r : Queue × ℕ}
    (hdone : q.done n = some r) : n ≤ l.length := by
  simp only [Queue.done, Option.bind_eq_bind, Option.bind_eq_some_iff] at hdone
  obtain ⟨_, hpop, -⟩ := hdone
  have hle := le_of_pop hpop
  rwa [h.pkts_eq, List.length_map] at hle

end Queue

/-! ### Peek -/

/-- Packets that one send can cut apart again: at most 64, for one destination, none
longer than the first and only the last one shorter. -/
def Burst (first : Packet) (l : List Packet) : Prop :=
  l.length ≤ 64 ∧ (∀ p ∈ l, p.dst = first.dst ∧ p.bytes.length ≤ first.bytes.length) ∧
    ∀ p ∈ l.dropLast, p.bytes.length = first.bytes.length

instance (first : Packet) (l : List Packet) : Decidable (Burst first l) := inferInstanceAs (Decidable (_ ∧ _ ∧ _))

/-- The number of packets in the longest burst at the head of a list. -/
def burst : List Packet → ℕ
  | [] => 0
  | first :: l => Nat.findGreatest (fun k => Burst first ((first :: l).take k)) (l.length + 1)

theorem burst_eq {first : Packet} {l : List Packet} {k : ℕ} (hk : k ≤ (first :: l).length)
    (hburst : Burst first ((first :: l).take k))
    (hmax : ∀ k' ≤ (first :: l).length, Burst first ((first :: l).take k') → k' ≤ k) : burst (first :: l) = k := by
  have hk : k ≤ l.length + 1 := hk
  refine Nat.le_antisymm (hmax _ (Nat.findGreatest_le _) ?_) (Nat.le_findGreatest hk hburst)
  exact Nat.findGreatest_spec (P := fun k => Burst first ((first :: l).take k)) hk hburst

/-- The burst at the head is a burst, of one packet at least. -/
theorem burst_spec (first : Packet) (l : List Packet) :
    1 ≤ burst (first :: l) ∧ burst (first :: l) ≤ l.length + 1 ∧
      Burst first ((first :: l).take (burst (first :: l))) := by
  have hone : Burst first ((first :: l).take 1) := by simp [Burst]
  have hle : 1 ≤ l.length + 1 := Nat.le_add_left 1 _
  exact ⟨Nat.le_findGreatest hle hone, Nat.findGreatest_le _,
    Nat.findGreatest_spec (P := fun k => Burst first ((first :: l).take k)) hle hone⟩

theorem burst_le_length (l : List Packet) : burst l ≤ l.length := by
  cases l with
  | nil => exact Nat.le_refl _
  | cons first l => exact (burst_spec first l).2.1

namespace Queue

/-- The packets that were looked at, all of the size of the first, are a burst. -/
theorem burst_of_front {first : Packet} {front : List Packet} (hlen : front.length ≤ 64)
    (hfront : ∀ p ∈ front, p.dst = first.dst ∧ p.bytes.length = first.bytes.length) : Burst first front :=
  ⟨hlen, fun p hp => ⟨(hfront p hp).1, (hfront p hp).2.le⟩, fun p hp => (hfront p (List.dropLast_subset _ hp)).2⟩

/-- **The loop of `peek` finds the longest burst.** The packets before the loop's place
all have the size of the first. -/
theorem run_spec (first : Packet) (front rest : List Packet) (hlen : front.length ≤ 64)
    (hfront : ∀ p ∈ front, p.dst = first.dst ∧ p.bytes.length = first.bytes.length) :
    ∃ k ≤ (front ++ rest).length,
      run first.pkt front.length (size front) (rest.map Packet.pkt) = size ((front ++ rest).take k) ∧
        Burst first ((front ++ rest).take k) ∧
          ∀ k' ≤ (front ++ rest).length, Burst first ((front ++ rest).take k') → k' ≤ k := by
  induction rest generalizing front with
  | nil =>
    rw [List.append_nil]
    exact ⟨front.length, Nat.le_refl _, by rw [List.take_length]; rfl,
      by rw [List.take_length]; exact burst_of_front hlen hfront, fun k' hk' _ => hk'⟩
  | cons p rest ih =>
    -- a longer burst has the packet at the loop's place
    have hmem : ∀ k', front.length < k' → p ∈ (front ++ p :: rest).take k' := by
      intro k' hk'
      rw [List.take_append, List.take_of_length_le hk'.le, show k' - front.length = k' - front.length - 1 + 1 by omega]
      simp
    have hbound : front.length ≤ (front ++ p :: rest).length := by simp
    simp only [List.map_cons, run]
    split
    · next hstop =>
      refine ⟨front.length, hbound, by rw [List.take_left], by rw [List.take_left]; exact burst_of_front hlen hfront, ?_⟩
      intro k' hk' hb
      by_contra hlt
      obtain ⟨hlen', hall, -⟩ := hb
      obtain ⟨hdst, hle⟩ := hall p (hmem k' (Nat.lt_of_not_le hlt))
      rw [List.length_take_of_le hk'] at hlen'
      rcases hstop with h64 | hdst' | hlong
      · omega
      · exact hdst' hdst
      · exact absurd hlong (Nat.not_lt.mpr hle)
    · next hgo =>
      simp only [not_or, not_not, Nat.not_lt] at hgo
      obtain ⟨h64, hdst, hle⟩ := hgo
      split
      · next hshort =>
        -- the shorter packet is the last
        have htake : (front ++ p :: rest).take (front.length + 1) = front ++ [p] := by
          rw [List.take_length_add_append]
          rfl
        refine ⟨front.length + 1, by simp, by rw [htake]; simp, ?_, ?_⟩
        · rw [htake]
          refine ⟨by simp; omega, ?_, by rw [List.dropLast_concat]; exact fun x hx => (hfront x hx).2⟩
          intro x hx
          rcases List.mem_append.mp hx with hx | hx
          · exact ⟨(hfront x hx).1, (hfront x hx).2.le⟩
          · rw [List.mem_singleton.mp hx]
            exact ⟨hdst, hle⟩
        · intro k' hk' hb
          by_contra hlt
          have hlast : ((front ++ p :: rest).take k').dropLast = (front ++ p :: rest).take (k' - 1) := by
            rw [List.dropLast_eq_take, List.length_take_of_le hk', List.take_take, Nat.min_eq_left (Nat.sub_le _ _)]
          have heq := hb.2.2 p (by rw [hlast]; exact hmem _ (by omega))
          exact absurd heq hshort.ne
      · next hfull =>
        have hfull : p.bytes.length = first.bytes.length := Nat.le_antisymm hle (Nat.not_lt.mp hfull)
        have hnext := ih (front ++ [p]) (by simp; omega) fun x hx => by
          rcases List.mem_append.mp hx with hx | hx
          · exact hfront x hx
          · rw [List.mem_singleton.mp hx]
            exact ⟨hdst, hfull⟩
        simpa using hnext

/-- **`peek` offers the longest burst at the head.** -/
theorem Holds.peek {q : Queue} {l : List Packet} (h : q.Holds l) :
    q.peek = some (l.head?.map fun first => ⟨first.dst, first.bytes.length, joined (l.take (burst l))⟩) := by
  cases l with
  | nil =>
    have hpkts : q.pkts = [] := h.pkts_eq
    simp only [Queue.peek, hpkts]
    rfl
  | cons first l =>
    obtain ⟨k, hk, hrun, hburst, hmax⟩ := run_spec first [] (first :: l) (by simp) (by simp)
    rw [List.nil_append] at hk hrun hburst hmax
    have hpkts : q.pkts = (first :: l).map Packet.pkt := h.pkts_eq
    have hrun : run first.pkt 0 0 q.pkts = size ((first :: l).take k) := by rw [hpkts]; exact hrun
    have hsize := size_take_add_drop (first :: l) k
    have hend : q.head + size ((first :: l).take k) ≤ q.tail := by rw [h.tail_eq]; omega
    have hslice : slice q.buf q.head (q.head + size ((first :: l).take k)) = some (joined ((first :: l).take k)) := by
      rw [slice_of_le (Nat.le_add_right _ _) (hend.trans h.tail_le), ← Nat.min_eq_left hend, ← List.take_take,
        ← List.take_drop, h.used_eq]
      conv_lhs => rw [← List.take_append_drop k (first :: l), joined_append]
      rw [List.take_append_drop, size, List.take_left]
    simp only [Queue.peek, show q.pkts.head? = some first.pkt by rw [hpkts]; rfl, hrun, hslice,
      burst_eq hk hburst hmax]
    rfl

end Queue

/-- **What a burst's transmit says of its packets**: cut at its segment size it is the
packets, one for each datagram that the driver counts. -/
theorem burst_transmit {first : Packet} {l : List Packet} (hne : ∀ p ∈ l, p.bytes ≠ []) (hfirst : first.bytes ≠ [])
    (h : Burst first l) :
    chunks first.bytes.length (joined l) = l.map Packet.bytes ∧
      (⟨first.dst, first.bytes.length, joined l⟩ : Transmit).datagrams = l.length := by
  obtain ⟨-, hall, hfull⟩ := h
  have hpos : 0 < first.bytes.length := List.length_pos_of_ne_nil hfirst
  have hcut : chunks first.bytes.length (joined l) = l.map Packet.bytes := by
    rw [joined_eq_flatten]
    refine chunks_flatten ?_ ?_
    · intro b hb
      obtain ⟨p, hp, rfl⟩ := List.mem_map.mp hb
      exact ⟨List.length_pos_of_ne_nil (hne p hp), (hall p hp).2⟩
    · intro b hb
      rw [← List.map_dropLast] at hb
      obtain ⟨p, hp, rfl⟩ := List.mem_map.mp hb
      exact hfull p hp
  refine ⟨hcut, ?_⟩
  have hlen := length_chunks hpos (joined l)
  rw [hcut, List.length_map] at hlen
  rw [Transmit.datagrams, Nat.max_eq_left hpos, ← hlen]

end MqProxy.Transport
