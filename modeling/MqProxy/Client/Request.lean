import MqProxy.Ingress.Parsers
import MqProxy.Server.Request
import MqProxy.Wire.FrameFormats

/-!
# What the client asks for

`connect_request` of `mq-proxy/src/client/mod.rs` and `open_request` of
`mq-proxy/src/client/udp_session.rs`: a stream type byte and a frame. `none` stands
for the panic of an `expect`.

`requests_mean_the_same` says that the server's `parse_request` understands both as
they were meant, for every target the ingress lets through and every destination a
SOCKS5 datagram names.
-/

namespace MqProxy.Client

open MqProxy.Wire MqProxy.Runtime MqProxy.Udp MqProxy.Library MqProxy.Server MqProxy.Ingress

/-- The stream type byte, then a frame written into the rest of a buffer of
`MAX_FRAME` bytes. -/
def withType (ty : UInt64) (encode : List UInt8 → Except EncodeError (ℕ × List UInt8)) : Option (List UInt8) :=
  let buf := (List.replicate MAX_FRAME 0).set 0 ty.toUInt8
  match encode (buf.drop 1) with
  | .ok (n, rest) => some ((buf.take 1 ++ rest).take (1 + n))
  | .error _ => none

/-- The address of a target on the wire; a name is cut at `MAX_HOST` bytes. -/
def wireAddr : Host → AddrType × List UInt8
  | .ip (.v4 a) => (.ipv4, a.val)
  | .ip (.v6 a) => (.ipv6, a.val)
  | .domain d => (.domain, (asBytes d).take (min (asBytes d).length Wire.MAX_HOST))

/-- The CONNECT_TCP_REQUEST for a target, with no flags. -/
def connectFrame (target : Target) : ConnectTcpReq where
  flags := 0
  addressType := (wireAddr target.host).1
  host := (wireAddr target.host).2
  port := target.port

/-- `connect_request`: stream type `0x01`, then the frame. -/
def connectRequest (target : Target) : Option (List UInt8) :=
  withType STREAM_TYPE_CONNECT_TCP (connectFrame target).encode

/-- The UDP_SESSION_OPEN for a destination, with the server's default idle time. -/
def openFrame (sid : UInt32) (dst : Socks5Udp.Dst) : UdpSessionOpen where
  sessionId := sid
  flags := 0
  addressType := dst.atype
  host := dst.addr
  port := dst.port
  idleTimeoutMs := 0

/-- `open_request`: stream type `0x02`, then the frame. -/
def openRequest (sid : UInt32) (dst : Socks5Udp.Dst) : Option (List UInt8) :=
  withType STREAM_TYPE_UDP_SESSION (openFrame sid dst).encode

/-! ### The bytes of a request -/

/-- A frame that fits is written behind its type byte. -/
theorem withType_eq {φ : Type} {writer : φ → Encoder ℕ} {reader : Decoder (φ × ℕ)} {bytes : φ → List UInt8}
    {Encodable : φ → Prop} (F : Format writer reader bytes Encodable MAX_FRAME) (ty : UInt64) {f : φ}
    (hf : Encodable f) (hlen : (bytes f).length < MAX_FRAME) :
    withType ty (fun out => encodeWith (writer f) out) = some (ty.toUInt8 :: bytes f) := by
  have hdrop : ((List.replicate MAX_FRAME (0 : UInt8)).set 0 ty.toUInt8).drop 1 = List.replicate 511 0 := rfl
  have htake : ((List.replicate MAX_FRAME (0 : UInt8)).set 0 ty.toUInt8).take 1 = [ty.toUInt8] := rfl
  have hout : (bytes f).length ≤ (List.replicate 511 (0 : UInt8)).length := by
    rw [List.length_replicate]
    exact Nat.le_of_lt_succ hlen
  simp only [withType, hdrop, htake, F.encodeWith_eq hf hout]
  rw [List.singleton_append, Nat.add_comm, List.take_succ_cons, take_splice_zero]

theorem hostOf_wireAddr {host : Host} (h : ∀ d, host = .domain d → (asBytes d).length ≤ Wire.MAX_HOST) :
    hostOf (wireAddr host).1 (wireAddr host).2 = some host ∧ (wireAddr host).2.length ≤ Wire.MAX_HOST := by
  match host with
  | .ip (.v4 a) =>
    simp only [wireAddr, hostOf, tryFromSlice_val, a.property, Option.map_some, Wire.MAX_HOST]
    exact ⟨trivial, by decide⟩
  | .ip (.v6 a) =>
    simp only [wireAddr, hostOf, tryFromSlice_val, a.property, Option.map_some, Wire.MAX_HOST]
    exact ⟨trivial, by decide⟩
  | .domain d =>
    have hd := h d rfl
    -- the cut does nothing: the name is within the cap
    simp only [wireAddr, hostOf, Nat.min_eq_left hd, List.take_length, fromUtf8_asBytes, Option.map_some]
    exact ⟨trivial, hd⟩

/-- A one-byte varint is its own byte. -/
theorem decode_type (ty : UInt64) (hty : ty ≤ 0x3F) (rest : List UInt8) :
    Varint.decode (ty.toUInt8 :: rest) = .ok (ty, 1) := by
  have hlen : Varint.len ty = 1 := by rw [Varint.len, if_pos hty]
  have hle : ty.toNat ≤ 0x3F := by simpa [UInt64.le_iff_toNat_le] using hty
  have hmax : ty ≤ Varint.MAX := by
    rw [UInt64.le_iff_toNat_le]
    simp only [Varint.MAX, UInt64.reduceToNat]
    omega
  have hbytes : Varint.bytes ty = [ty.toUInt8] := by
    simp only [Varint.bytes, hlen, Varint.toBeBytes, Varint.tag, Nat.reduceSub, List.drop_succ_cons, List.drop_zero,
      List.modifyHead_cons]
    congr 1
    apply UInt8.toNat_inj.mp
    rw [UInt8.toNat_or, Varint.toNat_and_3F, UInt64.toNat_toUInt8]
    simp only [UInt8.reduceToNat, Nat.or_zero]
    omega
  have := Varint.decode_bytes_append ty hmax rest
  rwa [hbytes, hlen] at this

/-! ### The server understands it -/

theorem zero_le_max : (0 : UInt64) ≤ Varint.MAX := by decide

theorem length_connectTcpReq_lt {f : ConnectTcpReq} (h : f.Encodable) : f.bytes.length < MAX_FRAME := by
  have hf := Varint.len_le_eight f.flags
  have hh := length_stringBytes_le h.2
  simp only [ConnectTcpReq.bytes, u16ToBeBytes, List.length_append, List.length_cons, List.length_nil,
    Varint.length_bytes, len_zero, MAX_FRAME, Wire.MAX_HOST] at *
  omega

theorem length_udpSessionOpen_lt {f : UdpSessionOpen} (h : f.Encodable) : f.bytes.length < MAX_FRAME := by
  have hs := Varint.len_le_eight f.sessionId.toUInt64
  have hf := Varint.len_le_eight f.flags
  have hi := Varint.len_le_eight f.idleTimeoutMs
  have hh := length_stringBytes_le h.2.1
  simp only [UdpSessionOpen.bytes, u16ToBeBytes, List.length_append, List.length_cons, List.length_nil,
    Varint.length_bytes, len_zero, MAX_FRAME, Wire.MAX_HOST] at *
  omega

theorem decode_bytes_of_format {φ : Type} {writer : φ → Encoder ℕ} {reader : Decoder (φ × ℕ)}
    {bytes : φ → List UInt8} {Encodable : φ → Prop} (F : Format writer reader bytes Encodable MAX_FRAME) {f : φ}
    (hf : Encodable f) (tail : List UInt8) : decodeWith reader (bytes f ++ tail) = .ok (f, (bytes f).length) := by
  have hout : MAX_FRAME ≤ (List.replicate MAX_FRAME (0 : UInt8)).length := by rw [List.length_replicate]
  have henc := F.encodeWith_eq hf ((F.bounded hf).trans hout)
  have := F.decode_encode hout henc tail
  rwa [take_splice_zero] at this

theorem parseRequest_connect {target : Target}
    (h : ∀ d, target.host = .domain d → (asBytes d).length ≤ Wire.MAX_HOST) :
    ∃ req, connectRequest target = some req ∧
      ∀ payload fin, parseRequest (req ++ payload) fin = .dial req.length target := by
  obtain ⟨hhost, hcap⟩ := hostOf_wireAddr h
  have henc : (connectFrame target).Encodable := ⟨zero_le_max, hcap⟩
  have hlt := length_connectTcpReq_lt henc
  refine ⟨STREAM_TYPE_CONNECT_TCP.toUInt8 :: (connectFrame target).bytes,
    withType_eq ConnectTcpReq.format STREAM_TYPE_CONNECT_TCP henc hlt, fun payload fin => ?_⟩
  have hdec : ConnectTcpReq.decode ((connectFrame target).bytes ++ payload) = .ok (connectFrame target, _) :=
    decode_bytes_of_format ConnectTcpReq.format henc payload
  have hle : (connectFrame target).bytes.length + 1 ≤ MAX_FRAME := hlt
  have hhost' : hostOf (connectFrame target).addressType (connectFrame target).host = some target.host := hhost
  have hport : (connectFrame target).port = target.port := rfl
  simp only [parseRequest, List.cons_append, decode_type STREAM_TYPE_CONNECT_TCP (by decide), List.drop_succ_cons,
    List.drop_zero, if_true, hdec, if_pos hle, hhost', hport, List.length_cons, Nat.add_comm 1]

theorem parseRequest_open {sid : UInt32} {dst : Socks5Udp.Dst} {t : Target} (hlen : dst.addr.length ≤ Wire.MAX_HOST)
    (ht : Socks5Udp.targetOf dst = some t) :
    ∃ req, openRequest sid dst = some req ∧ ∀ tail fin, parseRequest (req ++ tail) fin = .udpOpen sid (some t) 0 := by
  have henc : (openFrame sid dst).Encodable := ⟨zero_le_max, hlen, zero_le_max⟩
  have hlt := length_udpSessionOpen_lt henc
  refine ⟨STREAM_TYPE_UDP_SESSION.toUInt8 :: (openFrame sid dst).bytes,
    withType_eq UdpSessionOpen.format STREAM_TYPE_UDP_SESSION henc hlt, fun tail fin => ?_⟩
  have hdec : UdpSessionOpen.decode ((openFrame sid dst).bytes ++ tail) = .ok (openFrame sid dst, _) :=
    decode_bytes_of_format UdpSessionOpen.format henc tail
  have hle : 1 + (openFrame sid dst).bytes.length ≤ MAX_FRAME := by omega
  have hne : STREAM_TYPE_UDP_SESSION ≠ STREAM_TYPE_CONNECT_TCP := by decide
  have htarget : (hostOf (openFrame sid dst).addressType (openFrame sid dst).host).map
      (fun host => (⟨host, (openFrame sid dst).port⟩ : Target)) = some t := by
    simp only [Socks5Udp.targetOf] at ht
    split at ht
    · cases ht
    · exact ht
  simp only [parseRequest, List.cons_append, decode_type STREAM_TYPE_UDP_SESSION (by decide), List.drop_succ_cons,
    List.drop_zero, if_neg hne, if_true, hdec, if_pos hle, htarget]
  rfl

/-- **Client requests mean the same to the server.** A target that an ingress parser
produces is asked for, and the server dials that target and consumes exactly the
request; a destination that a SOCKS5 datagram names is opened as that session with
that target. Neither encoder panics. -/
theorem requests_mean_the_same :
    (∀ target, Ingests target → ∃ req, connectRequest target = some req ∧
      ∀ payload fin, parseRequest (req ++ payload) fin = .dial req.length target) ∧
    ∀ (sid : UInt32) (datagram : List UInt8) (dst : Socks5Udp.Dst) (off : ℕ) (t : Target),
      Socks5Udp.parse datagram = some (dst, off) → Socks5Udp.targetOf dst = some t →
      ∃ req, openRequest sid dst = some req ∧ ∀ tail fin, parseRequest (req ++ tail) fin = .udpOpen sid (some t) 0 :=
  ⟨fun _ h => parseRequest_connect fun _ hd => h.length_domain_le hd,
    fun _ _ _ _ _ hp ht => parseRequest_open (Socks5Udp.length_addr_of_parse hp) ht⟩

end MqProxy.Client
