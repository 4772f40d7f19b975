import MqProxy.Library.History
import MqProxy.Library.Runs
import MqProxy.Tunnel.UdpTables
import MqProxy.Udp.Msg

/-!
# Sending a packet in fragments

`send_packet` of `mq-proxy/src/udp/send.rs`, with the cache of the datagram size it asks
(`MssCache`) and its caller on the client (`session_send` of `client/udp_session.rs`).

The closure that `split` calls for each fragment writes into a buffer that was made before the
split, counts into two bytes, and moves the cache. It is `sendFrag`, a step on all that it
captures, and it has no result where a slice would be out of range or a count would overflow.
What the transport says is open: each call comes with what `datagram_mss` answers if it is
asked, and with the results of `datagram_send`.

A `Sender` is the sessions of a client with the cache they share. **`fragment_send_policy`**:
no run of it fails, its history keeps to the policy (`Obeys`), and a packet id moves with the
packets that were offered.
-/

namespace MqProxy.Tunnel.Send

open MqProxy.Library MqProxy.Udp
open MqProxy.Wire (u16ToBeBytes)

/-- `UDP_MSG_HDR`. -/
def UDP_MSG_HDR : ℕ := 9

/-- `SCRATCH`. -/
def SCRATCH : ℕ := 2048

/-- `MSS_REFRESH`. -/
def MSS_REFRESH : ℕ := 64

/-! ### The cache -/

/-- `MssCache`. -/
structure MssCache where
  value : ℕ
  countdown : ℕ
  deriving DecidableEq

/-- `payload` asks for the MSS. -/
def MssCache.asks (m : MssCache) : Bool := m.value = 0 ∨ m.countdown = 0

/-- The cache after `payload`, which is told `mss` if it asks. -/
def MssCache.refresh (m : MssCache) (mss : ℕ) : MssCache := if m.asks then ⟨mss, MSS_REFRESH⟩ else m

/-- What `payload` gives, of the cache after it. -/
def MssCache.payload (m : MssCache) : ℕ := m.value - UDP_MSG_HDR

/-- `emitted`. -/
def MssCache.emitted (m : MssCache) : MssCache := { m with countdown := m.countdown - 1 }

/-- `invalidate`. -/
def MssCache.invalidate (m : MssCache) : MssCache := { m with value := 0 }

/-! ### One packet -/

/-- `u32::to_be_bytes`. -/
def u32ToBeBytes (v : UInt32) : List UInt8 := [(v >>> 24).toUInt8, (v >>> 16).toUInt8, (v >>> 8).toUInt8, v.toUInt8]

/-- `UdpMsgHdr::encode`. -/
def encode (h : UdpMsgHdr) : List UInt8 :=
  u32ToBeBytes h.sessionId ++ u16ToBeBytes h.packetId ++ [h.flags, h.fragId, h.fragCount]

theorem length_encode (h : UdpMsgHdr) : (encode h).length = UDP_MSG_HDR := rfl

/-- A fragment as it goes out: the header, then the slice. -/
def datagram (d : Datagram) : List UInt8 := encode d.1 ++ d.2

theorem length_datagram (d : Datagram) : (datagram d).length = UDP_MSG_HDR + d.2.length := by
  rw [datagram, List.length_append, length_encode]

/-- `SendOutcome`; the counts are bytes. -/
structure SendOutcome where
  fragsOk : ℕ
  failed : ℕ
  deriving DecidableEq

/-- The `Counters` that `send_packet` moves. -/
structure Counters where
  dropsSendFail : UInt32
  dropsOversize : UInt32
  fragsSent : UInt32
  deriving DecidableEq

/-- What the closure of `send_packet` works on, and what it gave `datagram_send`, with the results. -/
structure Sending where
  buf : List UInt8
  out : SendOutcome
  mss : MssCache
  counters : Counters
  offered : List (List UInt8 × Bool)

/-- `+= 1` on a byte. -/
def u8Succ (n : ℕ) : Option ℕ := if n < 255 then some (n + 1) else none

/-- `copy_from_slice` into a part of the buffer. -/
def copyInto (buf : List UInt8) (off : ℕ) (bytes : List UInt8) : Option (List UInt8) :=
  if off + bytes.length ≤ buf.length then some (splice buf off bytes) else none

/-- The closure: the `i`-th `datagram_send` of the packet succeeds if `ok i`. -/
def sendFrag (ok : ℕ → Bool) (s : Sending) (d : Datagram) : Option Sending := do
  let buf ← copyInto s.buf 0 (encode d.1)
  let buf ← copyInto buf UDP_MSG_HDR d.2
  let bytes ← slice buf 0 (UDP_MSG_HDR + d.2.length)
  let sent := ok s.offered.length
  let s := { s with buf := buf, offered := s.offered ++ [(bytes, sent)] }
  if sent then
    let n ← u8Succ s.out.fragsOk
    return { s with out := { s.out with fragsOk := n }, mss := s.mss.emitted }
  else
    let n ← u8Succ s.out.failed
    return { s with
      out := { s.out with failed := n }
      counters := { s.counters with dropsSendFail := s.counters.dropsSendFail + 1 } }

/-- The counters after the split. -/
def Counters.after (c : Counters) (out : SendOutcome) : Except SplitError Unit → Counters
  | .ok () => if 1 < out.fragsOk then { c with fragsSent := c.fragsSent + UInt32.ofNat out.fragsOk } else c
  | .error .tooManyFrags => { c with dropsOversize := c.dropsOversize + 1 }
  | .error .zeroMss => { c with dropsSendFail := c.dropsSendFail + 1 }

/-- The buffer of `send_packet`: the stack's, or one of its own. -/
def scratch (need : ℕ) : List UInt8 :=
  if need ≤ SCRATCH then (List.replicate SCRATCH 0).take need else List.replicate need 0

theorem length_scratch (need : ℕ) : (scratch need).length = need := by
  unfold scratch
  split
  · next h => rw [List.length_take, List.length_replicate, Nat.min_eq_left h]
  · exact List.length_replicate

/-- `send_packet`. -/
def sendPacket (m : MssCache) (sid : UInt32) (packetId : UInt16) (payload : List UInt8) (c : Counters) (mss : ℕ)
    (ok : ℕ → Bool) : Option Sending := do
  let m := m.refresh mss
  if m.payload = 0 then
    return ⟨[], ⟨0, 0⟩, m, { c with dropsSendFail := c.dropsSendFail + 1 }, []⟩
  let need := UDP_MSG_HDR + min m.payload payload.length
  let (frags, res) := split sid packetId payload m.payload
  let s ← frags.foldlM (sendFrag ok) ⟨scratch need, ⟨0, 0⟩, m, c, []⟩
  return { s with counters := s.counters.after s.out res }

/-- What was offered and what was counted go together; the cache saw what was sent. -/
structure Tallied (m : MssCache) (s : Sending) : Prop where
  fragsOk : s.out.fragsOk = s.offered.countP (·.2)
  failed : s.out.failed = s.offered.countP (!·.2)
  value : s.mss.value = m.value
  countdown : s.mss.countdown = m.countdown - s.offered.countP (·.2)

theorem Tallied.total {m : MssCache} {s : Sending} (h : Tallied m s) :
    s.out.fragsOk + s.out.failed = s.offered.length := by
  rw [h.fragsOk, h.failed, List.length_eq_countP_add_countP (fun x : List UInt8 × Bool => x.2)]
  simp

/-- **One fragment.** It fits and neither count overflows: it is offered. -/
theorem sendFrag_spec {m : MssCache} {s : Sending} (h : Tallied m s) (ok : ℕ → Bool) {d : Datagram}
    (hfits : UDP_MSG_HDR + d.2.length ≤ s.buf.length) (hcount : s.offered.length < 255) :
    ∃ s', sendFrag ok s d = some s' ∧ Tallied m s' ∧ s'.buf.length = s.buf.length ∧
      s'.offered.map Prod.fst = s.offered.map Prod.fst ++ [datagram d] := by
  have htotal := h.total
  have hhead : copyInto s.buf 0 (encode d.1) = some (splice s.buf 0 (encode d.1)) :=
    if_pos (by rw [length_encode]; omega)
  have hbody : copyInto (splice s.buf 0 (encode d.1)) UDP_MSG_HDR d.2 = some (splice s.buf 0 (datagram d)) := by
    have hin : 0 + (encode d.1).length + d.2.length ≤ s.buf.length := by rw [length_encode]; omega
    have hsplice := splice_splice hin
    rw [length_encode, Nat.zero_add] at hsplice
    rw [copyInto, hsplice, length_splice (by rw [length_encode]; omega), if_pos hfits]
    rfl
  have hlen : (splice s.buf 0 (datagram d)).length = s.buf.length := length_splice (by rw [length_datagram]; omega)
  have hbytes : slice (splice s.buf 0 (datagram d)) 0 (UDP_MSG_HDR + d.2.length) = some (datagram d) := by
    rw [slice_of_le (Nat.zero_le _) (by rw [hlen]; exact hfits), List.drop_zero, ← length_datagram]
    simp [splice]
  simp only [sendFrag, hhead, hbody, hbytes, Option.bind_eq_bind, Option.bind_some]
  cases hok : ok s.offered.length with
  | true =>
    rw [if_pos rfl, u8Succ, if_pos (by omega)]
    refine ⟨_, rfl, ?_, hlen, by simp⟩
    constructor <;> simp [h.fragsOk, h.failed, h.value, h.countdown, MssCache.emitted, List.countP_append, Nat.sub_sub]
  | false =>
    rw [if_neg (by decide), u8Succ, if_pos (by omega)]
    refine ⟨_, rfl, ?_, hlen, by simp⟩
    constructor <;> simp [h.fragsOk, h.failed, h.value, h.countdown, List.countP_append]

/-- **The split's loop**: every fragment is offered, in order, whatever became of those before. -/
theorem sendFrags_spec {m : MssCache} (ok : ℕ → Bool) (ds : List Datagram) {s : Sending} (h : Tallied m s)
    (hfits : ∀ d ∈ ds, UDP_MSG_HDR + d.2.length ≤ s.buf.length) (hcount : s.offered.length + ds.length ≤ 255) :
    ∃ s', ds.foldlM (sendFrag ok) s = some s' ∧ Tallied m s' ∧
      s'.offered.map Prod.fst = s.offered.map Prod.fst ++ ds.map datagram := by
  induction ds generalizing s with
  | nil => exact ⟨s, rfl, h, by simp⟩
  | cons d ds ih =>
    rw [List.length_cons] at hcount
    obtain ⟨s₁, hs, h₁, hbuf, hoff⟩ := sendFrag_spec h ok (hfits d List.mem_cons_self) (by omega)
    have hlen : s₁.offered.length = s.offered.length + 1 := by
      simpa using congrArg List.length hoff
    obtain ⟨s', hs', h', hoff'⟩ := ih h₁ (fun d' hd => hbuf ▸ hfits d' (List.mem_cons_of_mem _ hd)) (by omega)
    refine ⟨s', by rw [List.foldlM_cons, hs]; exact hs', h', ?_⟩
    rw [hoff', hoff, List.append_assoc, List.map_cons]
    rfl

/-- Nothing goes out. -/
def Unsendable (mss : ℕ) (payload : List UInt8) : Prop :=
  mss ≤ UDP_MSG_HDR ∨ 255 < nfrags payload (mss - UDP_MSG_HDR)

/-- **`send_packet`** under the MSS `mss`: what it offers, and what it counts. -/
structure Offers (mss : ℕ) (sid : UInt32) (packetId : UInt16) (payload : List UInt8)
    (offered : List (List UInt8 × Bool)) (out : SendOutcome) : Prop where
  /-- The size is unusable, or there would be too many fragments: nothing is offered. -/
  nothing : Unsendable mss payload → offered = [] ∧ out = ⟨0, 0⟩
  /-- Otherwise the fragments of the split are, in order. -/
  fragments : ¬Unsendable mss payload →
    offered.map Prod.fst = (split sid packetId payload (mss - UDP_MSG_HDR)).1.map datagram ∧
      offered.length = nfrags payload (mss - UDP_MSG_HDR)
  /-- No datagram is longer than the MSS. -/
  fits : ∀ d ∈ offered, d.1.length ≤ mss
  fragsOk : out.fragsOk = offered.countP (·.2)
  failed : out.failed = offered.countP (!·.2)
  /-- The two counts make up what was offered. -/
  total : out.fragsOk + out.failed = offered.length
  /-- Their sum is a byte. -/
  byte : out.fragsOk + out.failed ≤ 255

theorem length_le_of_mem_pieces {payload piece : List UInt8} {mss : ℕ} (h : piece ∈ pieces payload mss) :
    piece.length ≤ min mss payload.length := by
  unfold pieces at h
  split at h
  · rw [List.mem_singleton.mp h]
    exact Nat.zero_le _
  · exact length_le_of_mem_chunks h

/-- **`send_packet` does what it is for**, from any cache, whatever the transport answers. -/
theorem sendPacket_spec (m : MssCache) (sid : UInt32) (packetId : UInt16) (payload : List UInt8) (c : Counters)
    (mss : ℕ) (ok : ℕ → Bool) :
    ∃ r, sendPacket m sid packetId payload c mss ok = some r ∧ r.mss.value = (m.refresh mss).value ∧
      r.mss.countdown = (m.refresh mss).countdown - r.offered.countP (·.2) ∧
      Offers (m.refresh mss).value sid packetId payload r.offered r.out := by
  unfold sendPacket
  generalize m.refresh mss = m
  have hnone : Offers m.value sid packetId payload [] ⟨0, 0⟩ ∨ ¬Unsendable m.value payload := by
    by_cases h : Unsendable m.value payload
    · exact .inl ⟨fun _ => ⟨rfl, rfl⟩, absurd h, by simp, rfl, rfl, rfl, Nat.zero_le _⟩
    · exact .inr h
  by_cases hzero : m.payload = 0
  · refine ⟨_, if_pos hzero, rfl, rfl, hnone.resolve_right (not_not_intro (.inl ?_))⟩
    rw [MssCache.payload] at hzero
    omega
  have hroom : 0 < m.payload := Nat.pos_of_ne_zero hzero
  simp only [if_neg hzero]
  by_cases hn : nfrags payload m.payload ≤ 255
  · -- the split runs
    have hsend : ¬Unsendable m.value payload := by
      rw [MssCache.payload] at hroom hn
      rw [Unsendable]
      omega
    have hsplit : split sid packetId payload m.payload = _ := split_eq hroom hn
    have hlen : (split sid packetId payload m.payload).1.length = nfrags payload m.payload := by
      rw [hsplit, List.length_mapIdx, length_pieces hroom]
    have hpiece {d : Datagram} (hd : d ∈ (split sid packetId payload m.payload).1) :
        d.2.length ≤ min m.payload payload.length := by
      rw [hsplit] at hd
      obtain ⟨i, hi, rfl⟩ := List.mem_mapIdx.mp hd
      exact length_le_of_mem_pieces (List.getElem_mem hi)
    obtain ⟨s, hs, h, hoff⟩ := sendFrags_spec (m := m) ok (split sid packetId payload m.payload).1
      (s := ⟨scratch (UDP_MSG_HDR + min m.payload payload.length), ⟨0, 0⟩, m, c, []⟩) ⟨rfl, rfl, rfl, rfl⟩
      (fun d hd => by rw [length_scratch]; exact Nat.add_le_add_left (hpiece hd) _)
      (by rw [hlen, List.length_nil, Nat.zero_add]; exact hn)
    rw [List.map_nil, List.nil_append] at hoff
    have hcount : s.offered.length = nfrags payload m.payload := by
      rw [← hlen]
      simpa using congrArg List.length hoff
    rw [hs, Option.bind_eq_bind, Option.bind_some]
    refine ⟨_, rfl, h.value, h.countdown, ?_⟩
    refine ⟨fun hun => absurd hun hsend, fun _ => ⟨hoff, hcount⟩, ?_, h.fragsOk, h.failed, h.total, ?_⟩
    · intro d hd
      have hmem : d.1 ∈ (split sid packetId payload m.payload).1.map datagram := hoff ▸ List.mem_map_of_mem hd
      obtain ⟨e, he, hde⟩ := List.mem_map.mp hmem
      have hle := hpiece he
      rw [← hde, length_datagram]
      rw [MssCache.payload] at hle hroom
      omega
    · exact h.total.trans_le (hcount.trans_le hn)
  · -- too many fragments
    have hsplit : split sid packetId payload m.payload = ([], .error .tooManyFrags) := by
      rw [split, if_neg hzero, if_pos (by omega)]
    rw [hsplit]
    exact ⟨_, rfl, rfl, rfl, hnone.resolve_right (not_not_intro (.inr (by rw [← MssCache.payload]; omega)))⟩

/-! ### The sessions of a client -/

/-- What is to be seen: a packet that `session_send` sent, with the MSS reading it took if it took
one, and that the reading was dropped. -/
inductive Note where
  | packet (sid : UInt32) (packetId : UInt16) (payload : List UInt8) (reading : Option ℕ)
      (offered : List (List UInt8 × Bool)) (out : SendOutcome)
  | invalidated

/-- What `session_send` looks at in a session. -/
structure Flow where
  phase : UdpPhase
  packetId : UInt16

/-- What `session_send` looks at in the client. -/
structure Sender where
  bySid : AList fun _ : UInt32 => Flow
  conn : Bool
  mss : MssCache
  counters : Counters
  log : List Note

/-- A new client. -/
def Sender.new : Sender := ⟨∅, false, ⟨0, 0⟩, ⟨0, 0, 0⟩, []⟩

/-- `session_send`. -/
def Sender.sessionSend (s : Sender) (sid : UInt32) (payload : List UInt8) (mss : ℕ) (ok : ℕ → Bool) : Option Sender :=
  match s.bySid.lookup sid with
  | none => some s
  | some f =>
    match f.phase with
    | .pendingAuth queue =>
      (enqueue queue payload).map fun q => { s with bySid := s.bySid.insert sid { f with phase := .pendingAuth q } }
    | _ =>
      if s.conn then do
        let r ← sendPacket s.mss sid f.packetId payload s.counters mss ok
        -- the sum of two bytes
        guard (r.out.fragsOk + r.out.failed ≤ 255)
        let bySid :=
          if 0 < r.out.fragsOk + r.out.failed then s.bySid.insert sid { f with packetId := f.packetId + 1 } else s.bySid
        let reading := if s.mss.asks then some mss else none
        let note := .packet sid f.packetId payload reading r.offered r.out
        return { s with bySid := bySid, mss := r.mss, counters := r.counters, log := s.log ++ [note] }
      else some s

/-- What happens to a client: it sends, UDP becomes available on a new connection, a connection
comes or goes, and a session comes, changes or goes. -/
inductive Act where
  | send (sid : UInt32) (payload : List UInt8) (mss : ℕ) (ok : ℕ → Bool)
  | available
  | connection (up : Bool)
  | session (sid : UInt32) (f : Option Flow)

/-- One step. -/
def step (s : Sender) : Act → Option Sender
  | .send sid payload mss ok => s.sessionSend sid payload mss ok
  | .available => some { s with mss := s.mss.invalidate, log := s.log ++ [.invalidated] }
  | .connection up => some { s with conn := up }
  | .session sid (some f) => some { s with bySid := s.bySid.insert sid f }
  | .session sid none => some { s with bySid := s.bySid.erase sid }

/-! ### The policy -/

/-- The reading in force and the datagrams sent since it was taken, after one more note. -/
def Note.count (t : ℕ × ℕ) : Note → ℕ × ℕ
  | .packet _ _ _ reading offered _ =>
    (reading.getD t.1, (if reading = none then t.2 else 0) + offered.countP (·.2))
  | .invalidated => (0, 0)

/-- The reading in force, `0` if there is none, and the datagrams sent since it was taken. -/
def sentSince (log : List Note) : ℕ × ℕ := log.foldl Note.count (0, 0)

theorem sentSince_snoc (log : List Note) (n : Note) : sentSince (log ++ [n]) = n.count (sentSince log) := by
  simp [sentSince]

/-- **The policy.** A packet goes out under the reading it took, or under the one in force; it
takes none only if fewer than `MSS_REFRESH` datagrams were sent since that. -/
def Obeys (past : List Note) : Note → Prop
  | .packet sid packetId payload reading offered out =>
    (reading = none → 0 < (sentSince past).1 ∧ (sentSince past).2 < MSS_REFRESH) ∧
      Offers (reading.getD (sentSince past).1) sid packetId payload offered out
  | .invalidated => True

/-- The cache is what the history says. -/
structure Sender.Sound (s : Sender) : Prop where
  value : s.mss.value = (sentSince s.log).1
  countdown : s.mss.value ≠ 0 → s.mss.countdown = MSS_REFRESH - (sentSince s.log).2
  lawful : Lawful Obeys s.log

/-- Why `session_send` sends nothing: no such session, one that waits for the authentication, or no
connection. -/
def Sender.Holds (s : Sender) (sid : UInt32) : Prop :=
  s.bySid.lookup sid = none ∨ (∃ f queue, s.bySid.lookup sid = some f ∧ f.phase = .pendingAuth queue) ∨ s.conn = false

/-- The packet id of a session. -/
def Sender.packetId (s : Sender) (sid : UInt32) : Option UInt16 := (s.bySid.lookup sid).map Flow.packetId

/-- **What `session_send` comes to**: it holds the packet and no packet id moves, or it sends it,
and the packet id of the session moves if and only if a fragment was offered. -/
def Sender.Sends (s s' : Sender) (sid : UInt32) (payload : List UInt8) : Prop :=
  (s.Holds sid ∧ s'.log = s.log ∧ s'.packetId = s.packetId) ∨
    ¬s.Holds sid ∧ ∃ pid reading offered out, s.packetId sid = some pid ∧
      s'.log = s.log ++ [.packet sid pid payload reading offered out] ∧
      s'.packetId = Function.update s.packetId sid (some (if offered = [] then pid else pid + 1))

theorem Sender.packetId_insert (s : Sender) (sid : UInt32) (f : Flow) (s' : Sender)
    (h : s'.bySid = s.bySid.insert sid f) : s'.packetId = Function.update s.packetId sid (some f.packetId) := by
  funext k
  rw [Sender.packetId, h]
  by_cases hk : k = sid
  · rw [hk, AList.lookup_insert, Function.update_self]
    rfl
  · rw [AList.lookup_insert_ne hk, Function.update_of_ne hk]
    rfl

theorem enqueue_some (queue : List (List UInt8)) (payload : List UInt8) : ∃ q, enqueue queue payload = some q := by
  unfold enqueue
  split
  · exact ⟨_, rfl⟩
  · next h =>
    obtain ⟨q, hq, -⟩ := evict_fits (not_lt.mp h) queue
    exact ⟨_, by rw [hq]; rfl⟩

/-- The cache is asked for a packet: what it then holds, by the history. -/
theorem Sender.Sound.refresh {s : Sender} (h : s.Sound) (mss : ℕ) {reading : Option ℕ}
    (hreading : reading = if s.mss.asks then some mss else none) :
    (s.mss.refresh mss).value = reading.getD (sentSince s.log).1 ∧
      (s.mss.refresh mss).countdown = MSS_REFRESH - (if reading = none then (sentSince s.log).2 else 0) ∧
      (reading = none → 0 < (sentSince s.log).1 ∧ (sentSince s.log).2 < MSS_REFRESH) := by
  cases hasks : s.mss.asks with
  | true => simp [hreading, MssCache.refresh, hasks]
  | false =>
    have hne : s.mss.value ≠ 0 ∧ s.mss.countdown ≠ 0 := by simpa [MssCache.asks] using hasks
    have hcount := h.countdown hne.1
    rw [h.value] at hne
    simp only [hreading, MssCache.refresh, hasks]
    exact ⟨h.value, hcount, fun _ => by omega⟩

/-- **`session_send`** succeeds and keeps to the policy. -/
theorem Sender.Sound.sessionSend {s : Sender} (h : s.Sound) (sid : UInt32) (payload : List UInt8) (mss : ℕ)
    (ok : ℕ → Bool) :
    ∃ s', s.sessionSend sid payload mss ok = some s' ∧ s'.Sound ∧ s.Sends s' sid payload := by
  unfold Sender.sessionSend
  cases hlook : s.bySid.lookup sid with
  | none => exact ⟨s, rfl, h, .inl ⟨.inl hlook, rfl, rfl⟩⟩
  | some f =>
    dsimp only
    split
    · next queue hphase =>
      obtain ⟨q, hq⟩ := enqueue_some queue payload
      rw [hq]
      refine ⟨_, rfl, ⟨h.value, h.countdown, h.lawful⟩, .inl ⟨.inr (.inl ⟨f, queue, hlook, hphase⟩), rfl, ?_⟩⟩
      rw [Sender.packetId_insert s sid _ _ rfl, Function.update_eq_self_iff]
      rw [Sender.packetId, hlook]
      rfl
    · next hphase =>
      split
      · next hconn =>
        obtain ⟨r, hr, hvalue, hcount, hoffers⟩ := sendPacket_spec s.mss sid f.packetId payload s.counters mss ok
        generalize hreading : (if s.mss.asks then some mss else none) = reading
        obtain ⟨hforce, hleft, hrecent⟩ := h.refresh mss hreading.symm
        have hids : s.packetId sid = some f.packetId := by rw [Sender.packetId, hlook]; rfl
        rw [hr, Option.bind_eq_bind, Option.bind_some, guard, if_pos hoffers.byte]
        refine ⟨_, rfl, ⟨?_, fun _ => ?_, lawful_snoc.mpr ⟨h.lawful, hrecent, hforce ▸ hoffers⟩⟩,
          .inr ⟨?_, f.packetId, reading, r.offered, r.out, hids, rfl, ?_⟩⟩
        · rw [sentSince_snoc]
          exact hvalue.trans hforce
        · rw [sentSince_snoc]
          exact hcount.trans (by rw [hleft, Nat.sub_sub]; rfl)
        · rintro (hnone | ⟨f', queue, hf', hqueue⟩ | hdown)
          · rw [hlook] at hnone
            cases hnone
          · rw [hlook] at hf'
            cases hf'
            exact hphase queue hqueue
          · rw [hdown] at hconn
            cases hconn
        · by_cases hnil : r.offered = []
          · have hzero : r.out.fragsOk + r.out.failed = 0 := by rw [hoffers.total, hnil]; rfl
            rw [if_neg (by omega), if_pos hnil, ← hids, Function.update_eq_self]
            rfl
          · have hpos := List.length_pos_of_ne_nil hnil
            rw [← hoffers.total] at hpos
            rw [if_pos hpos, if_neg hnil]
            exact Sender.packetId_insert s sid { f with packetId := f.packetId + 1 } _ rfl
      · next hconn => exact ⟨s, rfl, h, .inl ⟨.inr (.inr (by simpa using hconn)), rfl, rfl⟩⟩

/-- A step. -/
theorem Sender.Sound.step {s : Sender} (h : s.Sound) (a : Act) : ∃ s', Send.step s a = some s' ∧ s'.Sound := by
  cases a with
  | send sid payload mss ok =>
    obtain ⟨s', hs', h', -⟩ := h.sessionSend sid payload mss ok
    exact ⟨s', hs', h'⟩
  | available =>
    refine ⟨_, rfl, ?_, fun hne => absurd rfl hne, lawful_snoc.mpr ⟨h.lawful, trivial⟩⟩
    rw [sentSince_snoc]
    rfl
  | connection up => exact ⟨_, rfl, h.value, h.countdown, h.lawful⟩
  | session sid f =>
    cases f with
    | none => exact ⟨_, rfl, h.value, h.countdown, h.lawful⟩
    | some f => exact ⟨_, rfl, h.value, h.countdown, h.lawful⟩

/-- **The fragment send policy.** In every run of a client, whatever the readings of the MSS and the
results of `datagram_send`: nothing fails, so the buffer was large enough for each fragment and no
count overflowed; each packet keeps to the policy; and the packet id of a session moves exactly
when fragments were offered. -/
theorem fragment_send_policy (as : List Act) :
    ∃ s, as.foldlM step Sender.new = some s ∧ Lawful Obeys s.log ∧
      ∀ sid payload mss ok, ∃ s', s.sessionSend sid payload mss ok = some s' ∧ s.Sends s' sid payload := by
  have hnew : Sender.new.Sound := ⟨rfl, fun h => absurd rfl h, lawful_nil⟩
  obtain ⟨s, hs, h⟩ := exists_foldlM (I := Sender.Sound) as (fun s a h => h.step a) hnew
  refine ⟨s, hs, h.lawful, fun sid payload mss ok => ?_⟩
  obtain ⟨s', hs', -, hsends⟩ := h.sessionSend sid payload mss ok
  exact ⟨s', hs', hsends⟩

end MqProxy.Tunnel.Send
