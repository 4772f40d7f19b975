import MqProxy.Library.Vec
import Mathlib.Data.UInt

/-!
# UDP messages and their fragments

The header of a UDP payload in a QUIC datagram and the fragment split of
`mq-wire/src/udp_msg.rs`. `split` calls `emit` once for each fragment; here it gives the
list of what it emits beside its result.
-/

namespace MqProxy.Udp

open MqProxy.Library

/-- `UdpMsgHdr`. -/
structure UdpMsgHdr where
  /-- The session. -/
  sessionId : UInt32
  /-- The packet the fragment is of. -/
  packetId : UInt16
  /-- `0` on transmit, ignored on receive. -/
  flags : UInt8
  /-- The index of the fragment. -/
  fragId : UInt8
  /-- The number of fragments; `1` for an unfragmented packet. -/
  fragCount : UInt8
  deriving DecidableEq

/-- A header and what follows it. -/
abbrev Datagram := UdpMsgHdr × List UInt8

/-- `SplitError`. -/
inductive SplitError where
  /-- More than 255 fragments would be needed. -/
  | tooManyFrags
  /-- The fragment payload size is zero. -/
  | zeroMss
  deriving DecidableEq

/-- The number of fragments of a payload. -/
def nfrags (payload : List UInt8) (mss : ℕ) : ℕ := max ((payload.length + mss - 1) / mss) 1

/-- The header of a packet's `i`-th fragment. -/
def fragHdr (sid : UInt32) (packetId : UInt16) (count i : ℕ) : UdpMsgHdr where
  sessionId := sid
  packetId := packetId
  flags := 0
  fragId := UInt8.ofNat i
  fragCount := UInt8.ofNat count

/-- `split`: what is emitted, and the result. -/
def split (sid : UInt32) (packetId : UInt16) (payload : List UInt8) (mss : ℕ) : List Datagram × Except SplitError Unit :=
  if mss = 0 then ([], .error .zeroMss)
  else if 255 < nfrags payload mss then ([], .error .tooManyFrags)
  else if payload = [] then ([(fragHdr sid packetId (nfrags payload mss) 0, payload)], .ok ())
  else ((chunks mss payload).mapIdx fun i chunk => (fragHdr sid packetId (nfrags payload mss) i, chunk), .ok ())

/-- What the fragments of a packet carry, in order. -/
def pieces (payload : List UInt8) (mss : ℕ) : List (List UInt8) :=
  if payload = [] then [[]] else chunks mss payload

/-- The pieces make up the payload, and there are `nfrags` of them. -/
theorem flatten_pieces {mss : ℕ} (hmss : 0 < mss) (payload : List UInt8) : (pieces payload mss).flatten = payload := by
  unfold pieces
  split
  · next h => simp [h]
  · exact flatten_chunks hmss payload

theorem length_pieces {mss : ℕ} (hmss : 0 < mss) (payload : List UInt8) :
    (pieces payload mss).length = nfrags payload mss := by
  unfold pieces nfrags
  split
  · next h => rw [h, List.length_nil, Nat.zero_add, Nat.div_eq_of_lt (by omega)]; rfl
  · next h =>
    have hl := List.length_pos_of_ne_nil h
    have hpos : 0 < (payload.length + mss - 1) / mss := Nat.div_pos (by omega) hmss
    rw [length_chunks hmss]
    omega

/-- **What `split` emits**: each piece with its index, the count and the packet id; nothing
when there are too many. -/
theorem split_eq {sid : UInt32} {packetId : UInt16} {payload : List UInt8} {mss : ℕ} (hmss : 0 < mss)
    (hn : nfrags payload mss ≤ 255) :
    split sid packetId payload mss =
      ((pieces payload mss).mapIdx fun i piece => (fragHdr sid packetId (nfrags payload mss) i, piece), .ok ()) := by
  unfold split pieces
  rw [if_neg (by omega), if_neg (by omega)]
  split
  · next h => simp [h]
  · rfl

end MqProxy.Udp
