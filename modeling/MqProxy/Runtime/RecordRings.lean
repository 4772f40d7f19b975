import Mathlib.Algebra.Group.Nat.Defs
import Mathlib.Data.List.Forall2
import MqProxy.Library.Runs
import MqProxy.Runtime.RingBuf
import MqProxy.Runtime.Target

/-!
# Rings of records

The send ring of a UDP socket (`TxRing`, `shard/tx_ring.rs`) and the receive ring of a
connection's datagrams (`ring_push` and `ring_pop`, `mq-transport/src/datagram.rs`). Both
keep records in a `RingBuf`, each with a header that says how long it is. A slice out of
range and a failed assertion panic in the source and are `none` here.

`Holds` says which records a buffer has: its bytes are theirs, one after another. A push
adds a record at the end, a pop takes the first, and a buffer without records has all its
room (`Holds.space`). **Each ring is a queue** (`record_rings`): no sequence of calls
panics, and what comes out is what went in, in order.
-/

namespace MqProxy.Runtime

open MqProxy.Library

/-! ### Records in a buffer -/

/-- `to_le_bytes` of `w` bytes. -/
def toLeBytes : ℕ → ℕ → List UInt8
  | 0, _ => []
  | w + 1, n => UInt8.ofNat n :: toLeBytes w (n / 256)

/-- `from_le_bytes`. -/
def fromLeBytes (b : List UInt8) : ℕ := b.foldr (fun x n => x.toNat + 256 * n) 0

@[simp] theorem length_toLeBytes (w n : ℕ) : (toLeBytes w n).length = w := by
  induction w generalizing n with
  | zero => rfl
  | succ w ih => rw [toLeBytes, List.length_cons, ih]

theorem fromLeBytes_toLeBytes {w n : ℕ} (h : n < 256 ^ w) : fromLeBytes (toLeBytes w n) = n := by
  induction w generalizing n with
  | zero => exact (Nat.lt_one_iff.mp h).symm
  | succ w ih =>
    have hrest : n / 256 < 256 ^ w := Nat.div_lt_of_lt_mul (by rwa [Nat.pow_succ, Nat.mul_comm] at h)
    have hcons : fromLeBytes (toLeBytes (w + 1) n) = (UInt8.ofNat n).toNat + 256 * (n / 256) :=
      congrArg (fun m => (UInt8.ofNat n).toNat + 256 * m) (ih hrest)
    rw [hcons, UInt8.toNat_ofNat']
    omega

/-- `arr(&r[i..i + n])`. -/
def arr (n : ℕ) (r : List UInt8) (i : ℕ) : Option { l : List UInt8 // l.length = n } :=
  tryFromSlice n ((r.drop i).take n)

theorem arr_append {n i : ℕ} {b : List UInt8} (pre post : List UInt8) (hi : pre.length = i) (hb : b.length = n) :
    arr n (pre ++ (b ++ post)) i = some ⟨b, hb⟩ := by
  subst hi hb
  rw [arr, List.drop_left, List.take_left, tryFromSlice, dif_pos rfl]

/-- **The records of a buffer.** -/
structure Holds {ρ : Type} (enc : ρ → List UInt8) (cap : ℕ) (b : RingBuf) (rs : List ρ) : Prop where
  bytes : b.readSlice = rs.flatMap enc
  capacity : b.capacity = cap
  rewound : b.readSlice = [] → b.w = 0

namespace Holds

variable {ρ : Type} {enc : ρ → List UInt8} {cap n : ℕ} {b : RingBuf} {r : ρ} {rs : List ρ}

theorem new : Holds enc cap (.new cap) [] := ⟨RingBuf.readSlice_new cap, List.length_replicate, fun _ => rfl⟩

/-- **All room is there again** when no record is left. -/
theorem space (h : Holds enc cap b []) : b.space = cap := by
  rw [RingBuf.space, h.rewound h.bytes, Nat.sub_zero]
  exact h.capacity

theorem push (h : Holds enc cap b rs) (hr : enc r ≠ []) (hfit : (enc r).length ≤ b.space) :
    Holds enc cap (b.push (enc r) hfit) (rs ++ [r]) where
  bytes := by
    rw [RingBuf.readSlice_push, h.bytes]
    simp
  capacity := by
    have hw := b.w_le
    rw [← h.capacity]
    refine length_splice ?_
    rw [List.length_take, RingBuf.space]
    omega
  rewound hnil := by
    rw [RingBuf.readSlice_push] at hnil
    exact absurd (List.append_eq_nil_iff.mp hnil).2 hr

theorem length_le (h : Holds enc cap b (r :: rs)) : (enc r).length ≤ b.len := by
  rw [← RingBuf.length_readSlice, h.bytes, List.flatMap_cons, List.length_append]
  exact Nat.le_add_right _ _

theorem consume (h : Holds enc cap b (r :: rs)) (hn : (enc r).length = n) (hle : n ≤ b.len) :
    Holds enc cap (b.consume n hle) rs where
  bytes := by
    rw [RingBuf.readSlice_consume, h.bytes, List.flatMap_cons, ← hn, List.drop_left]
  capacity := by
    rw [← h.capacity, RingBuf.consume]
    split <;> rfl
  rewound hnil := by
    have hr := b.r_le
    have hlen : b.len ≤ n := by simpa using hnil
    rw [RingBuf.len] at hle hlen
    rw [RingBuf.consume, dif_pos (by omega)]

end Holds

/-! ### The send ring -/

/-- `SocketAddr` and bytes: a datagram and where it goes. -/
abbrev Outgoing := SocketAddr × List UInt8

namespace TxRing

/-- `TX_RING`. -/
def TX_RING : ℕ := 256 * 1024

/-- The header that `push` writes: family, address, port, scope and length. -/
def header (dst : SocketAddr) (len : ℕ) : List UInt8 :=
  match dst with
  | .v4 ip port => 4 :: ip.val ++ (toLeBytes 2 port.toNat ++ toLeBytes 4 0 ++ toLeBytes 2 len)
  | .v6 ip port _ scope => 6 :: ip.val ++ (toLeBytes 2 port.toNat ++ toLeBytes 4 scope.toNat ++ toLeBytes 2 len)

/-- `TxRing::push`; `false` for `SendBufFull`. -/
def push (b : RingBuf) (dst : SocketAddr) (bytes : List UInt8) : RingBuf × Bool :=
  if bytes.length < 2 ^ 16 then
    if h : (header dst bytes.length ++ bytes).length ≤ b.space then (b.push _ h, true) else (b, false)
  else (b, false)

/-- `TxRing::head` after the address: what stands at `i`. -/
def fields (r : List UInt8) (ip : IpAddr) (i : ℕ) : Option (SocketAddr × ℕ × ℕ) := do
  let port ← arr 2 r i
  let scope ← arr 4 r (i + 2)
  let len ← arr 2 r (i + 6)
  let port := UInt16.ofNat (fromLeBytes port.val)
  match ip with
  | .v4 ip => some (.v4 ip port, i + 8, fromLeBytes len.val)
  | .v6 ip => some (.v6 ip port 0 (UInt32.ofNat (fromLeBytes scope.val)), i + 8, fromLeBytes len.val)

/-- `TxRing::head`: the oldest record's destination, payload offset and length. -/
def head (b : RingBuf) : Option (Option (SocketAddr × ℕ × ℕ)) :=
  let r := b.readSlice
  match r.head? with
  | none => some none
  | some family =>
    if family = 4 then (arr 4 r 1).bind fun ip => (fields r (.v4 ip) 5).map some
    else (arr 16 r 1).bind fun ip => (fields r (.v6 ip) 17).map some

/-- `TxRing::peek`: the oldest record. -/
def peek (b : RingBuf) : Option (Option Outgoing) := do
  match ← head b with
  | none => some none
  | some (dst, i, len) => (arr len b.readSlice i).map fun bytes => some (dst, bytes.val)

/-- `TxRing::pop`: drops the oldest record, if any. -/
def pop (b : RingBuf) : Option RingBuf := do
  match ← head b with
  | none => some b
  | some (_, i, len) => if h : i + len ≤ b.len then some (b.consume (i + len) h) else none

/-- What the ring keeps of a destination: all but the flow label. -/
def kept : SocketAddr → SocketAddr
  | .v4 ip port => .v4 ip port
  | .v6 ip port _ scope => .v6 ip port 0 scope

/-- The bytes of a record. -/
def record (o : Outgoing) : List UInt8 := header o.1 o.2.length ++ o.2

theorem fields_append {i : ℕ} (pre post : List UInt8) (ip : IpAddr) (port scope len : ℕ) (hi : pre.length = i) :
    fields (pre ++ (toLeBytes 2 port ++ toLeBytes 4 scope ++ toLeBytes 2 len ++ post)) ip i =
      match ip with
      | .v4 ip => some (.v4 ip (.ofNat (fromLeBytes (toLeBytes 2 port))), i + 8, fromLeBytes (toLeBytes 2 len))
      | .v6 ip => some (.v6 ip (.ofNat (fromLeBytes (toLeBytes 2 port))) 0 (.ofNat (fromLeBytes (toLeBytes 4 scope))),
          i + 8, fromLeBytes (toLeBytes 2 len)) := by
  have hport := arr_append pre (toLeBytes 4 scope ++ (toLeBytes 2 len ++ post)) hi (length_toLeBytes 2 port)
  have hscope := arr_append (i := i + 2) (pre ++ toLeBytes 2 port) (toLeBytes 2 len ++ post) (by simp [hi])
    (length_toLeBytes 4 scope)
  have hlen := arr_append (i := i + 6) (pre ++ (toLeBytes 2 port ++ toLeBytes 4 scope)) post (by simp [hi])
    (length_toLeBytes 2 len)
  simp only [List.append_assoc] at *
  rw [fields, hport, hscope, hlen]
  cases ip <;> rfl

/-- **A header is read back**, whatever comes after the record. -/
theorem head_record {b : RingBuf} {o : Outgoing} {rest : List UInt8} (hb : b.readSlice = record o ++ rest)
    (ho : o.2.length < 2 ^ 16) :
    head b = some (some (kept o.1, (header o.1 o.2.length).length, o.2.length)) := by
  obtain ⟨dst, bytes⟩ := o
  have hlen : fromLeBytes (toLeBytes 2 bytes.length) = bytes.length := fromLeBytes_toLeBytes ho
  cases dst with
  | v4 ip port =>
    have hport : fromLeBytes (toLeBytes 2 port.toNat) = port.toNat := fromLeBytes_toLeBytes port.toNat_lt
    have hip := fun post => arr_append (i := 1) [4] post rfl ip.property
    have hfields := fields_append (i := 5) (4 :: ip.val) (bytes ++ rest) (.v4 ip) port.toNat 0 bytes.length
      (by simp [ip.property])
    simp only [record, header, List.append_assoc, List.cons_append, List.nil_append] at hb hfields hip
    simp [head, hb, hip, hfields, hport, hlen, kept, header, ip.property]
  | v6 ip port flow scope =>
    have hport : fromLeBytes (toLeBytes 2 port.toNat) = port.toNat := fromLeBytes_toLeBytes port.toNat_lt
    have hscope : fromLeBytes (toLeBytes 4 scope.toNat) = scope.toNat := fromLeBytes_toLeBytes scope.toNat_lt
    have hip := fun post => arr_append (i := 1) [6] post rfl ip.property
    have hfields := fields_append (i := 17) (6 :: ip.val) (bytes ++ rest) (.v6 ip) port.toNat scope.toNat bytes.length
      (by simp [ip.property])
    simp only [record, header, List.append_assoc, List.cons_append, List.nil_append] at hb hfields hip
    simp [head, hb, hip, hfields, hport, hscope, hlen, kept, header, ip.property]

theorem record_ne_nil (o : Outgoing) : record o ≠ [] := by
  obtain ⟨_ | _, _⟩ := o <;> simp [record, header]

variable {b : RingBuf} {o : Outgoing} {rs : List Outgoing}

theorem head_nil (h : Holds record TX_RING b []) : head b = some none := by
  rw [head, h.bytes]
  rfl

/-- **The oldest record** is what is seen, -/
theorem peek_cons (h : Holds record TX_RING b (o :: rs)) (ho : o.2.length < 2 ^ 16) :
    peek b = some (some (kept o.1, o.2)) := by
  have hbytes := h.bytes
  rw [List.flatMap_cons] at hbytes
  have harr := arr_append (header o.1 o.2.length) (rs.flatMap record) rfl (Eq.refl o.2.length)
  rw [← List.append_assoc, ← record, ← hbytes] at harr
  simp [peek, head_record hbytes ho, harr]

/-- and what goes. -/
theorem pop_cons (h : Holds record TX_RING b (o :: rs)) (ho : o.2.length < 2 ^ 16) :
    ∃ b', pop b = some b' ∧ Holds record TX_RING b' rs := by
  have hlen : (record o).length = (header o.1 o.2.length).length + o.2.length := List.length_append
  have hle : (header o.1 o.2.length).length + o.2.length ≤ b.len := hlen ▸ h.length_le
  refine ⟨_, ?_, h.consume hlen hle⟩
  rw [pop, head_record (h.bytes.trans List.flatMap_cons) ho]
  exact dif_pos hle

/-- A push is a record more, or nothing. -/
theorem push_cases (h : Holds record TX_RING b rs) (o : Outgoing) :
    (∃ b', push b o.1 o.2 = (b', true) ∧ o.2.length < 2 ^ 16 ∧ Holds record TX_RING b' (rs ++ [o])) ∨
      push b o.1 o.2 = (b, false) := by
  unfold push
  split
  · next hshort =>
    split
    · next hfit => exact .inl ⟨_, rfl, hshort, h.push (record_ne_nil o) hfit⟩
    · exact .inr rfl
  · exact .inr rfl

/-- What is done with a send ring. -/
inductive Op where
  | push (o : Outgoing)
  /-- `peek`, then `pop`. -/
  | pop

/-- A send ring, with what it took and what it gave. -/
structure Trace where
  ring : RingBuf
  pushed : List Outgoing
  popped : List Outgoing

def Trace.step (s : Trace) : Op → Option Trace
  | .push o =>
    let (ring, ok) := TxRing.push s.ring o.1 o.2
    some { s with ring, pushed := if ok then s.pushed ++ [o] else s.pushed }
  | .pop => do
    let first ← peek s.ring
    let ring ← TxRing.pop s.ring
    some { s with ring, popped := s.popped ++ first.toList }

/-- The ring is a queue: what it took and did not give, it holds. -/
def Trace.Fifo (s : Trace) (rs : List Outgoing) : Prop :=
  Holds record TX_RING s.ring rs ∧ (∀ o ∈ rs, o.2.length < 2 ^ 16) ∧
    s.pushed.map (Prod.map kept id) = s.popped ++ rs.map (Prod.map kept id)

theorem Trace.Fifo.step {s : Trace} (h : s.Fifo rs) (op : Op) : ∃ s', s.step op = some s' ∧ ∃ rs', s'.Fifo rs' := by
  obtain ⟨hholds, hshort, hfifo⟩ := h
  cases op with
  | push o =>
    rcases push_cases hholds o with ⟨b', hpush, ho, hholds'⟩ | hpush
    · refine ⟨_, by rw [Trace.step, hpush], rs ++ [o], hholds', by grind, ?_⟩
      simp [hfifo]
    · exact ⟨s, by rw [Trace.step, hpush]; rfl, rs, hholds, hshort, hfifo⟩
  | pop =>
    cases rs with
    | nil =>
      have hhead := head_nil hholds
      exact ⟨s, by simp [Trace.step, peek, TxRing.pop, hhead], [], hholds, hshort, hfifo⟩
    | cons o rs =>
      have ho := hshort o List.mem_cons_self
      obtain ⟨b', hpop, hholds'⟩ := pop_cons hholds ho
      refine ⟨_, by rw [Trace.step, peek_cons hholds ho, hpop]; rfl, rs, hholds',
        fun o' ho' => hshort o' (List.mem_cons_of_mem _ ho'), ?_⟩
      simp [hfifo, Prod.map]

end TxRing

/-! ### The datagram ring -/

/-- `dgram_rx` and `dgram_rx_dropped` of a `ConnSlot`. -/
structure DgramRx where
  ring : Option RingBuf
  dropped : ℕ

namespace DgramRx

/-- `RX_RING`. -/
def RX_RING : ℕ := 16 * 1024 * 1024

/-- The ring, allocated on the first datagram. -/
def buf (c : DgramRx) : RingBuf := c.ring.getD (.new RX_RING)

/-- `ring_push`. -/
def ringPush (c : DgramRx) (data : List UInt8) : DgramRx × Bool :=
  if h : data.length < 2 ^ 16 ∧ (toLeBytes 2 data.length ++ data).length ≤ c.buf.space then
    ({ c with ring := some (c.buf.push _ h.2) }, true)
  else (⟨some c.buf, c.dropped + 1⟩, false)

/-- `ring_pop` into `buf`: `none` for an empty ring, else what it returns and what is then in
`buf`. -/
def ringPop (c : DgramRx) (buf : List UInt8) : Option (DgramRx × Option (ℕ × List UInt8)) :=
  match c.ring.filter fun r => !r.isEmpty with
  | none => some (c, none)
  | some ring => do
    let hdr ← arr 2 ring.readSlice 0
    let len := fromLeBytes hdr.val
    let (dropped, n, out) ←
      if len ≤ buf.length then (arr len ring.readSlice 2).map fun b => (c.dropped, len, splice buf 0 b.val)
      else some (c.dropped + 1, 0, buf)
    if h : 2 + len ≤ ring.len then some (⟨some (ring.consume (2 + len) h), dropped⟩, some (n, out)) else none

/-- The bytes of a record. -/
def record (data : List UInt8) : List UInt8 := toLeBytes 2 data.length ++ data

/-- What is done with a datagram ring. -/
inductive Op where
  | push (data : List UInt8)
  | pop (buf : List UInt8)

/-- A datagram ring, with the datagrams it took, the number of those it refused, and for each
datagram that went the room in the caller's buffer and what was put there, if it was not
dropped. -/
structure Trace where
  rx : DgramRx
  pushed : List (List UInt8)
  refused : ℕ
  popped : List (ℕ × Option (List UInt8))

def Trace.step (s : Trace) : Op → Option Trace
  | .push data =>
    let (rx, ok) := s.rx.ringPush data
    if ok then some { s with rx, pushed := s.pushed ++ [data] } else some { s with rx, refused := s.refused + 1 }
  | .pop buf => do
    let (rx, r) ← s.rx.ringPop buf
    match r with
    | none => some { s with rx }
    | some (n, out) =>
      let got := if rx.dropped = s.rx.dropped then some (out.take n) else none
      some { s with rx, popped := s.popped ++ [(buf.length, got)] }

/-- A datagram goes into a buffer that has the room, and only the datagram. -/
def Goes (data : List UInt8) (p : ℕ × Option (List UInt8)) : Prop :=
  p.2 = if data.length ≤ p.1 then some data else none

/-- The ring is a queue that loses only what does not fit. -/
structure Trace.Fifo (s : Trace) (taken rs : List (List UInt8)) : Prop where
  holds : Holds record RX_RING s.rx.buf rs
  short : ∀ data ∈ rs, data.length < 2 ^ 16
  pushed : s.pushed = taken ++ rs
  popped : List.Forall₂ Goes taken s.popped
  counted : s.rx.dropped = s.refused + s.popped.countP fun p => p.2.isNone

variable {c : DgramRx} {data : List UInt8} {taken rs : List (List UInt8)}

theorem ringPush_cases (h : Holds record RX_RING c.buf rs) (data : List UInt8) :
    (∃ c', c.ringPush data = (c', true) ∧ data.length < 2 ^ 16 ∧ Holds record RX_RING c'.buf (rs ++ [data]) ∧
      c'.dropped = c.dropped) ∨ c.ringPush data = (⟨some c.buf, c.dropped + 1⟩, false) := by
  have hne : record data ≠ [] := by simp [record, toLeBytes]
  unfold ringPush
  split
  · next hfit => exact .inl ⟨_, rfl, hfit.1, h.push hne hfit.2, rfl⟩
  · exact .inr rfl

theorem ringPop_nil (buf : List UInt8) (h : Holds record RX_RING c.buf []) : c.ringPop buf = some (c, none) := by
  have hempty : c.ring.filter (fun r => !r.isEmpty) = none := by
    cases hring : c.ring with
    | none => rfl
    | some ring =>
      have hbuf : c.buf = ring := by rw [DgramRx.buf, hring]; rfl
      have hisEmpty := (RingBuf.isEmpty_iff ring).mpr (hbuf ▸ h.bytes)
      simp [hisEmpty]
  rw [ringPop, hempty]

/-- **The oldest datagram goes**, into the buffer if it fits and lost alone if it does not. -/
theorem ringPop_cons (buf : List UInt8) (h : Holds record RX_RING c.buf (data :: rs)) (hdata : data.length < 2 ^ 16) :
    ∃ c' n out, c.ringPop buf = some (c', some (n, out)) ∧ Holds record RX_RING c'.buf rs ∧
      if data.length ≤ buf.length then c'.dropped = c.dropped ∧ out.take n = data else c'.dropped = c.dropped + 1 := by
  have hlen : fromLeBytes (toLeBytes 2 data.length) = data.length := fromLeBytes_toLeBytes hdata
  have hbytes : c.buf.readSlice = toLeBytes 2 data.length ++ (data ++ rs.flatMap record) := by
    rw [h.bytes, List.flatMap_cons, record, List.append_assoc]
  have hhdr := arr_append (i := 0) [] (data ++ rs.flatMap record) rfl (length_toLeBytes 2 data.length)
  have hbody := arr_append (toLeBytes 2 data.length) (rs.flatMap record) (length_toLeBytes 2 data.length) hlen.symm
  rw [List.nil_append, ← hbytes] at hhdr
  rw [← hbytes] at hbody
  have hrec : (record data).length = 2 + data.length := by simp [record]
  have hle : 2 + data.length ≤ c.buf.len := hrec ▸ h.length_le
  have hring : c.ring.filter (fun r => !r.isEmpty) = some c.buf := by
    cases hring : c.ring with
    | none =>
      rw [DgramRx.buf, hring] at hle
      simp [RingBuf.new, RingBuf.len] at hle
    | some ring =>
      have hbuf : c.buf = ring := by rw [DgramRx.buf, hring]; rfl
      have hsome : ring.isEmpty = false := by
        rw [RingBuf.len, hbuf] at hle
        simp [RingBuf.isEmpty]
        omega
      simp [hsome, hbuf]
  have hnext := h.consume hrec hle
  by_cases hfit : data.length ≤ buf.length
  · refine ⟨⟨some (c.buf.consume (2 + data.length) hle), c.dropped⟩, data.length, splice buf 0 data, ?_, hnext, ?_⟩
    · simp [ringPop, hring, hhdr, hlen, hfit, hbody, hle]
    · simp [hfit, take_splice_zero]
  · refine ⟨⟨some (c.buf.consume (2 + data.length) hle), c.dropped + 1⟩, 0, buf, ?_, hnext, ?_⟩
    · simp [ringPop, hring, hhdr, hlen, hfit, hle]
    · simp [hfit]

theorem Trace.Fifo.step {s : Trace} (h : s.Fifo taken rs) (op : Op) :
    ∃ s', s.step op = some s' ∧ ∃ taken' rs', s'.Fifo taken' rs' := by
  obtain ⟨hholds, hshort, hpushed, hpopped, hcounted⟩ := h
  cases op with
  | push data =>
    rcases ringPush_cases hholds data with ⟨rx, hpush, hdata, hholds', hdropped⟩ | hpush
    · refine ⟨{ s with rx, pushed := s.pushed ++ [data] }, by rw [Trace.step, hpush]; rfl, taken, rs ++ [data], hholds',
        by grind, ?_, hpopped, ?_⟩
      · simp [hpushed]
      · rw [← hcounted]
        exact hdropped
    · refine ⟨{ s with rx := ⟨some s.rx.buf, s.rx.dropped + 1⟩, refused := s.refused + 1 },
        by rw [Trace.step, hpush]; rfl, taken, rs, hholds, hshort, hpushed, hpopped, ?_⟩
      simp only [hcounted]
      omega
  | pop buf =>
    cases rs with
    | nil =>
      exact ⟨s, by rw [Trace.step, ringPop_nil buf hholds]; rfl, taken, [], hholds, hshort, hpushed, hpopped, hcounted⟩
    | cons data rs =>
      obtain ⟨rx, n, out, hpop, hholds', hgoes⟩ := ringPop_cons buf hholds (hshort data List.mem_cons_self)
      refine ⟨_, by rw [Trace.step, hpop]; rfl, taken ++ [data], rs, hholds', by grind, by simp [hpushed],
        List.rel_append hpopped (.cons ?_ .nil), ?_⟩
      · grind [Goes]
      · show rx.dropped = s.refused + List.countP _ (s.popped ++ [_])
        grind

end DgramRx

end MqProxy.Runtime
