import MqProxy.Library.Cursor

/-!
# The relay's byte buffer

`RingBuf` of `mq-transport-api/src/ringbuf.rs`: linear, not wrapping. The bytes to
read lie between the cursors `r` and `w`, the room to write after `w`, and both
cursors return to `0` once everything is consumed. The two assertions of the source,
no commit past the capacity and no consume past the length, are arguments of
`commit` and `consume`, so that a caller has to give the reason.

Outside this module a buffer is its `readSlice`: a commit of what was written appends
to it (`readSlice_push`), a consume drops from it (`readSlice_consume`).
-/

namespace MqProxy.Runtime

open MqProxy.Library

/-- `RingBuf`: the cursors are in order and within the data. -/
structure RingBuf where
  /-- The bytes, of the capacity's number. -/
  data : List UInt8
  /-- The read cursor. -/
  r : ℕ
  /-- The write cursor. -/
  w : ℕ
  /-- Nothing is read that was not written. -/
  r_le : r ≤ w
  /-- Nothing is written past the end. -/
  w_le : w ≤ data.length

namespace RingBuf

/-- `RingBuf::new`. -/
def new (cap : ℕ) : RingBuf where
  data := List.replicate cap 0
  r := 0
  w := 0
  r_le := le_rfl
  w_le := Nat.zero_le _

/-- `RingBuf::capacity`. -/
def capacity (b : RingBuf) : ℕ := b.data.length

/-- `RingBuf::len`. -/
def len (b : RingBuf) : ℕ := b.w - b.r

/-- `RingBuf::is_empty`. -/
def isEmpty (b : RingBuf) : Bool := b.r == b.w

/-- `RingBuf::space`: the room after the write cursor. -/
def space (b : RingBuf) : ℕ := b.data.length - b.w

/-- The bytes `bs` put at the start of `RingBuf::write_slice`, as many as fit. -/
def write (b : RingBuf) (bs : List UInt8) : RingBuf where
  data := splice b.data b.w (bs.take b.space)
  r := b.r
  w := b.w
  r_le := b.r_le
  w_le := by
    have := b.w_le
    rw [length_splice (by rw [List.length_take, space]; omega)]
    exact b.w_le

/-- `RingBuf::commit`. -/
def commit (b : RingBuf) (n : ℕ) (h : n ≤ b.space) : RingBuf where
  data := b.data
  r := b.r
  w := b.w + n
  r_le := Nat.le_add_right_of_le b.r_le
  w_le := by
    have := b.w_le
    rw [space] at h
    omega

/-- `RingBuf::read_slice`. -/
def readSlice (b : RingBuf) : List UInt8 := (b.data.take b.w).drop b.r

/-- `RingBuf::consume`: compacts once everything is consumed. -/
def consume (b : RingBuf) (n : ℕ) (h : n ≤ b.len) : RingBuf :=
  if he : b.r + n = b.w then { data := b.data, r := 0, w := 0, r_le := le_rfl, w_le := Nat.zero_le _ }
  else
    { data := b.data, r := b.r + n, w := b.w, w_le := b.w_le
      r_le := by
        have := b.r_le
        rw [len] at h
        omega }

/-! ### A buffer is the bytes to read -/

@[simp] theorem length_readSlice (b : RingBuf) : b.readSlice.length = b.len := by
  rw [readSlice, List.length_drop, List.length_take, Nat.min_eq_left b.w_le, len]

@[simp] theorem readSlice_new (cap : ℕ) : (new cap).readSlice = [] := by simp [new, readSlice]

@[simp] theorem space_new (cap : ℕ) : (new cap).space = cap := by simp [new, space]

theorem isEmpty_iff (b : RingBuf) : b.isEmpty = true ↔ b.readSlice = [] := by
  have := b.r_le
  rw [← List.length_eq_zero_iff, length_readSlice, isEmpty, beq_iff_eq, len]
  omega

@[simp] theorem space_write (b : RingBuf) (bs : List UInt8) : (b.write bs).space = b.space := by
  have := b.w_le
  simp only [space, write]
  rw [length_splice (by rw [List.length_take]; omega)]

@[simp] theorem space_commit (b : RingBuf) (n : ℕ) (h : n ≤ b.space) : (b.commit n h).space = b.space - n := by
  simp only [space, commit]
  omega

/-- **A commit appends** the bytes it commits of those that were written. -/
theorem readSlice_commit_write (b : RingBuf) (bs : List UInt8) (n : ℕ) (h : n ≤ (b.write bs).space)
    (hn : n ≤ bs.length) : ((b.write bs).commit n h).readSlice = b.readSlice ++ bs.take n := by
  have hr := b.r_le
  have hw := b.w_le
  rw [space_write] at h
  have hwlen : (b.data.take b.w).length = b.w := by rw [List.length_take]; omega
  have hn' : n ≤ (bs.take b.space).length := by rw [List.length_take]; omega
  simp only [readSlice, commit, write, splice, List.append_assoc]
  -- the committed bytes lie right after the old ones
  rw [List.take_append, hwlen, List.take_of_length_le (by omega), Nat.add_sub_cancel_left,
    List.take_append_of_le_length hn', List.take_take, Nat.min_eq_left h,
    List.drop_append_of_le_length (by omega)]

/-- What was written is not there before the commit. -/
@[simp] theorem readSlice_write (b : RingBuf) (bs : List UInt8) : (b.write bs).readSlice = b.readSlice := by
  have := readSlice_commit_write b bs 0 (Nat.zero_le _) (Nat.zero_le _)
  rwa [List.take_zero, List.append_nil] at this

/-- **A consume drops** the bytes it consumes. -/
@[simp] theorem readSlice_consume (b : RingBuf) (n : ℕ) (h : n ≤ b.len) :
    (b.consume n h).readSlice = b.readSlice.drop n := by
  unfold consume
  split
  · next he =>
    have hlen : b.readSlice.length ≤ n := by rw [length_readSlice, len]; omega
    rw [List.drop_of_length_le hlen]
    simp [readSlice]
  · simp only [readSlice, List.drop_drop]

/-- `push`: bytes copied into the write slice and committed. -/
def push (b : RingBuf) (bs : List UInt8) (h : bs.length ≤ b.space) : RingBuf :=
  (b.write bs).commit bs.length (by rwa [space_write])

@[simp] theorem readSlice_push (b : RingBuf) (bs : List UInt8) (h : bs.length ≤ b.space) :
    (b.push bs h).readSlice = b.readSlice ++ bs := by
  rw [push, readSlice_commit_write _ _ _ _ le_rfl, List.take_length]

@[simp] theorem space_push (b : RingBuf) (bs : List UInt8) (h : bs.length ≤ b.space) :
    (b.push bs h).space = b.space - bs.length := by
  rw [push, space_commit, space_write]

end RingBuf

end MqProxy.Runtime
