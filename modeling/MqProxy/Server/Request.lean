import MqProxy.Udp.Socks5Udp
import MqProxy.Wire.FrameReaders

/-!
# Parsing a data stream's request

`parse_request` of `mq-proxy/src/server/mod.rs`: a stream type, then a
CONNECT_TCP_REQUEST or a UDP_SESSION_OPEN. The header, type and frame, may take at
most `MAX_FRAME` bytes, complete or not. A decision once taken stays when more bytes
come or the stream ends (`parseRequest_append`), and with `MAX_FRAME` bytes or at the
end of the stream there is a decision (`parseRequest_wait`).
-/

namespace MqProxy.Server

open MqProxy.Wire MqProxy.Runtime MqProxy.Udp MqProxy.Library

/-- What the bytes so far make of the request. -/
inductive Parsed where
  /-- The header is not complete. -/
  | wait
  /-- Malformed, or over the limit. -/
  | bad
  /-- A request whose target cannot be dialled, and its length. -/
  | undialable (used : ℕ)
  /-- A request to dial, and its length. -/
  | dial (used : ℕ) (target : Target)
  /-- A UDP session: its id, its target if it can be dialled, and the idle time asked for. -/
  | udpOpen (sid : UInt32) (target : Option Target) (idle : UInt64)
  deriving DecidableEq

/-- `parse_request`. -/
def parseRequest (buf : List UInt8) (fin : Bool) : Parsed :=
  let more := if fin || MAX_FRAME ≤ buf.length then Parsed.bad else Parsed.wait
  match Varint.decode buf with
  | .error _ => more
  | .ok (ty, tl) =>
    if ty = STREAM_TYPE_CONNECT_TCP then
      match ConnectTcpReq.decode (buf.drop tl) with
      | .ok (req, used) =>
        if tl + used ≤ MAX_FRAME then
          match hostOf req.addressType req.host with
          | some host => .dial (tl + used) { host, port := req.port }
          | none => .undialable (tl + used)
        else .bad
      | .error .short => more
      | .error _ => .bad
    else if ty = STREAM_TYPE_UDP_SESSION then
      match UdpSessionOpen.decode (buf.drop tl) with
      | .ok (o, used) =>
        if tl + used ≤ MAX_FRAME then
          .udpOpen o.sessionId ((hostOf o.addressType o.host).map fun host => { host, port := o.port })
            o.idleTimeoutMs
        else .bad
      | .error .short => more
      | .error _ => .bad
    else .bad

/-! ### A decision stays -/

/-- What an incomplete header of `len` bytes means. -/
def more (len : ℕ) (fin : Bool) : Parsed := if fin || MAX_FRAME ≤ len then .bad else .wait

/-- What a decoded frame means after `tl` bytes of stream type, in a buffer of `len` bytes. -/
def ofFrame {φ : Type} (tl len : ℕ) (fin : Bool) (k : φ → ℕ → Parsed) :
    Except DecodeError (φ × ℕ) → Parsed
  | .ok (f, used) => if tl + used ≤ MAX_FRAME then k f used else .bad
  | .error .short => more len fin
  | .error _ => .bad

/-- What a request to connect asks for, when it takes `used` bytes after `tl`. -/
def ofConnect (tl : ℕ) (req : ConnectTcpReq) (used : ℕ) : Parsed :=
  match hostOf req.addressType req.host with
  | some host => .dial (tl + used) { host, port := req.port }
  | none => .undialable (tl + used)

/-- What a session open asks for. -/
def ofOpen (o : UdpSessionOpen) (_ : ℕ) : Parsed :=
  .udpOpen o.sessionId ((hostOf o.addressType o.host).map fun host => { host, port := o.port }) o.idleTimeoutMs

/-- `parse_request` by its parts: the type, then the frame the type asks for. -/
theorem parseRequest_eq (buf : List UInt8) (fin : Bool) :
    parseRequest buf fin = match Varint.decode buf with
      | .error _ => more buf.length fin
      | .ok (ty, tl) =>
        if ty = STREAM_TYPE_CONNECT_TCP then
          ofFrame tl buf.length fin (ofConnect tl) (ConnectTcpReq.decode (buf.drop tl))
        else if ty = STREAM_TYPE_UDP_SESSION then
          ofFrame tl buf.length fin ofOpen (UdpSessionOpen.decode (buf.drop tl))
        else .bad := by
  unfold parseRequest
  rcases Varint.decode buf with e | ⟨ty, tl⟩
  · rfl
  · refine if_congr Iff.rfl ?_ (if_congr Iff.rfl ?_ rfl)
    · rcases ConnectTcpReq.decode (buf.drop tl) with e | ⟨f, used⟩
      · cases e <;> rfl
      · rfl
    · rcases UdpSessionOpen.decode (buf.drop tl) with e | ⟨f, used⟩
      · cases e <;> rfl
      · rfl

theorem more_ne_wait {len : ℕ} (h : more len false ≠ .wait) : MAX_FRAME ≤ len := by
  by_contra hlt
  exact h (by simp [more, hlt])

theorem more_bad {len : ℕ} (h : MAX_FRAME ≤ len) (fin : Bool) : more len fin = .bad := by
  simp [more, h]

/-- With a coherent decoder a frame's decision stays: a frame that did not fit in
`MAX_FRAME` bytes never will. -/
theorem ofFrame_append {φ : Type} {decode : List UInt8 → Except DecodeError (φ × ℕ)}
    (hd : Coherent .short decode) {tl : ℕ} {p : List UInt8} (htl : tl ≤ p.length) {k : φ → ℕ → Parsed}
    (h : ofFrame tl p.length false k (decode (p.drop tl)) ≠ .wait) (x : List UInt8) (fin : Bool) :
    ofFrame tl (p ++ x).length fin k (decode ((p ++ x).drop tl)) =
      ofFrame tl p.length false k (decode (p.drop tl)) := by
  rw [List.drop_append_of_le_length htl]
  rcases hp : decode (p.drop tl) with e | ⟨f, used⟩
  · by_cases he : e = .short
    · subst he
      rw [hp] at h
      have hlen : MAX_FRAME ≤ p.length := more_ne_wait h
      have hlen' : MAX_FRAME ≤ (p ++ x).length := by rw [List.length_append]; omega
      simp only [ofFrame, more_bad hlen]
      rcases hpx : decode (p.drop tl ++ x) with e' | ⟨f, used⟩
      · cases e' <;> simp only [more_bad hlen']
      · -- the frame takes more than the bytes there were, and those were `MAX_FRAME` at least
        have hused := hd.short_append hp hpx
        rw [List.length_drop] at hused
        simp only
        rw [if_neg (by omega)]
    · rw [hd.error_append hp he]
      cases e <;> first | rfl | exact absurd rfl he
  · rw [hd.ok_append hp]
    rfl

/-- **A decision stays** when more bytes come or the stream ends. -/
theorem parseRequest_append {p : List UInt8} (h : parseRequest p false ≠ .wait) (x : List UInt8) (fin : Bool) :
    parseRequest (p ++ x) fin = parseRequest p false := by
  rw [parseRequest_eq] at h ⊢
  rw [parseRequest_eq]
  rcases hv : Varint.decode p with e | ⟨ty, tl⟩
  · -- no type in `MAX_FRAME` bytes: a type has eight at most
    rw [hv] at h
    have hlen : MAX_FRAME ≤ p.length := more_ne_wait h
    have := Varint.length_lt_of_decode_error hv
    simp only [MAX_FRAME] at hlen
    omega
  · have htl := (Varint.decode_le hv).2.2.2
    rw [Varint.decode_take hv ((List.take_prefix _ _).trans (List.prefix_append _ x))]
    rw [hv] at h
    simp only at h ⊢
    split_ifs at h ⊢
    · exact ofFrame_append ConnectTcpReq.decode_coherent htl h x fin
    · exact ofFrame_append UdpSessionOpen.decode_coherent htl h x fin
    · rfl

theorem ofFrame_cases {φ : Type} (tl len : ℕ) (fin : Bool) (k : φ → ℕ → Parsed) (r : Except DecodeError (φ × ℕ)) :
    ofFrame tl len fin k r = more len fin ∨ ofFrame tl len fin k r = .bad ∨
      ∃ f n, r = .ok (f, n) ∧ tl + n ≤ MAX_FRAME ∧ ofFrame tl len fin k r = k f n := by
  rcases r with e | ⟨f, used⟩
  · cases e
    case short => exact .inl rfl
    all_goals exact .inr (.inl rfl)
  · simp only [ofFrame]
    split
    · next h => exact .inr (.inr ⟨f, used, rfl, h, rfl⟩)
    · exact .inr (.inl rfl)

/-- **What a request can be**: undecided for want of bytes, bad, or a type and frame
that are in the buffer and have at most `MAX_FRAME` bytes. -/
theorem parseRequest_cases (buf : List UInt8) (fin : Bool) :
    parseRequest buf fin = more buf.length fin ∨ parseRequest buf fin = .bad ∨
      (∃ used, used ≤ MAX_FRAME ∧ used ≤ buf.length ∧ parseRequest buf fin = .undialable used) ∨
      (∃ used target, used ≤ MAX_FRAME ∧ used ≤ buf.length ∧ parseRequest buf fin = .dial used target) ∨
      ∃ sid target idle, parseRequest buf fin = .udpOpen sid target idle := by
  rw [parseRequest_eq]
  rcases hv : Varint.decode buf with e | ⟨ty, tl⟩
  · exact .inl rfl
  · have htl := (Varint.decode_le hv).2.2.2
    dsimp only
    split_ifs
    · obtain h | h | ⟨req, n, hr, hn, h⟩ := ofFrame_cases tl buf.length fin (ofConnect tl)
        (ConnectTcpReq.decode (buf.drop tl))
      · exact .inl h
      · exact .inr (.inl h)
      · have hlen := ConnectTcpReq.decode_coherent.le_length hr
        rw [List.length_drop] at hlen
        cases hh : hostOf req.addressType req.host with
        | none => exact .inr (.inr (.inl ⟨tl + n, hn, by omega, by rw [h, ofConnect, hh]⟩))
        | some host => exact .inr (.inr (.inr (.inl ⟨tl + n, _, hn, by omega, by rw [h, ofConnect, hh]⟩)))
    · obtain h | h | ⟨o, n, -, -, h⟩ := ofFrame_cases tl buf.length fin ofOpen (UdpSessionOpen.decode (buf.drop tl))
      · exact .inl h
      · exact .inr (.inl h)
      · exact .inr (.inr (.inr (.inr ⟨_, _, _, h⟩)))
    · exact .inr (.inl rfl)

/-- A request to dial has its bytes, at most `MAX_FRAME` of them. -/
theorem parseRequest_dial {buf : List UInt8} {fin : Bool} {used : ℕ} {target : Target}
    (h : parseRequest buf fin = .dial used target) : used ≤ MAX_FRAME ∧ used ≤ buf.length := by
  obtain h' | h' | ⟨_, _, _, h'⟩ | ⟨_, _, hu, hl, h'⟩ | ⟨_, _, _, h'⟩ := parseRequest_cases buf fin <;> rw [h'] at h
  · unfold more at h
    split at h <;> cases h
  all_goals cases h
  exact ⟨hu, hl⟩

end MqProxy.Server
