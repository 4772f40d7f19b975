import MqProxy.Library.Cursor
import MqProxy.Wire.Varint

/-!
# Control frames

The AUTH, CONNECT_TCP and UDP_SESSION frames of `mq-wire/src/frames.rs`. Fixed
integers are big-endian and a string is a varint length and the bytes. A frame ends
with a varint padding length and that much padding, which readers skip and writers
leave empty. Readers take varints in any form, reject a string over its cap as soon
as its length is read, and keep `status` and `error_code` as they are, except in a
UDP_SESSION frame, whose fields are checked on both sides.

The private cursors of the source are readers and writers in the sense of
`MqProxy.Library.Cursor`. A machine word of 64 bits is assumed for `usize`.
-/

namespace MqProxy.Wire

open MqProxy.Library

/-! ### Constants and errors -/

/-- The buffer size that holds any frame. -/
def MAX_FRAME : ℕ := 512

def STREAM_TYPE_CONNECT_TCP : UInt64 := 0x01

def STREAM_TYPE_UDP_SESSION : UInt64 := 0x02

def STATUS_OK : UInt8 := 0

def STATUS_ERROR : UInt8 := 1

def MAX_CLIENT_ID : ℕ := 63

def MAX_AUTH_TOKEN : ℕ := 255

def MAX_SERVER_ID : ℕ := 63

def MAX_HOST : ℕ := 255

def MAX_MESSAGE : ℕ := 255

/-- The kind of an address on the wire. -/
inductive AddrType where
  | ipv4
  | domain
  | ipv6
  deriving DecidableEq, Repr

/-- `AddrType as u8`. -/
def AddrType.toRaw : AddrType → UInt8
  | .ipv4 => 0x01
  | .domain => 0x03
  | .ipv6 => 0x04

/-- `AddrType::from_raw`. -/
def AddrType.fromRaw (v : UInt8) : Option AddrType :=
  if v = 0x01 then some .ipv4 else if v = 0x03 then some .domain else if v = 0x04 then some .ipv6 else none

@[simp] theorem AddrType.fromRaw_toRaw (a : AddrType) : fromRaw a.toRaw = some a := by
  cases a <;> decide

/-- `TcpErr`: the error code of a CONNECT_TCP_RESP. -/
inductive TcpErr where
  | ok
  | dnsFailed
  | connRefused
  | timeout
  | policyDenied
  deriving DecidableEq, Repr

/-- `TcpErr as u64`. -/
def TcpErr.toRaw : TcpErr → UInt64
  | .ok => 0
  | .dnsFailed => 1
  | .connRefused => 2
  | .timeout => 3
  | .policyDenied => 4

/-- `UdpErr`: the error code of a UDP_SESSION_RESP. -/
inductive UdpErr where
  | dnsFailed
  | socketFailed
  | policyDenied
  | sessionLimit
  deriving DecidableEq, Repr

/-- `UdpErr as u64`. -/
def UdpErr.toRaw : UdpErr → UInt64
  | .dnsFailed => 1
  | .socketFailed => 2
  | .policyDenied => 3
  | .sessionLimit => 4

/-- Why a frame could not be read. -/
inductive DecodeError where
  /-- Not enough bytes. -/
  | short
  /-- A string over its cap, or an unknown address type. -/
  | badValue
  /-- Well-formed, but a UDP_SESSION field is rejected. -/
  | invalid
  deriving DecidableEq, Repr

/-- Why a frame could not be written. -/
inductive EncodeError where
  /-- The buffer is too short. -/
  | short
  /-- A string over its cap. -/
  | tooLong
  /-- A varint over its maximum, or an inconsistent UDP_SESSION response. -/
  | badValue
  deriving DecidableEq, Repr

/-! ### The frames -/

/-- AUTH_REQUEST. -/
structure AuthReq where
  version : UInt64
  clientId : List UInt8
  authToken : List UInt8
  features : UInt64
  deriving DecidableEq, Repr

/-- AUTH_RESPONSE. -/
structure AuthResp where
  status : UInt8
  errorCode : UInt64
  serverId : List UInt8
  features : UInt64
  deriving DecidableEq, Repr

/-- CONNECT_TCP_REQUEST. -/
structure ConnectTcpReq where
  flags : UInt64
  addressType : AddrType
  host : List UInt8
  port : UInt16
  deriving DecidableEq, Repr

/-- CONNECT_TCP_RESPONSE. -/
structure ConnectTcpResp where
  status : UInt8
  errorCode : UInt64
  message : List UInt8
  deriving DecidableEq, Repr

/-- UDP_SESSION_OPEN. -/
structure UdpSessionOpen where
  sessionId : UInt32
  flags : UInt64
  addressType : AddrType
  host : List UInt8
  port : UInt16
  /-- `0` stands for the server's default. -/
  idleTimeoutMs : UInt64
  deriving DecidableEq, Repr

/-- UDP_SESSION_RESP. -/
structure UdpSessionResp where
  status : UInt8
  errorCode : UInt64
  message : List UInt8
  /-- The value the server applies. -/
  idleTimeoutMs : UInt64
  deriving DecidableEq, Repr

/-! ### The read cursor -/

/-- A reader of frames. -/
abbrev Decoder := Cursored UInt8 DecodeError

/-- `u16::from_be_bytes`. -/
def u16FromBeBytes (hi lo : UInt8) : UInt16 := (hi.toUInt16 <<< 8) ||| lo.toUInt16

/-- `u16::to_be_bytes`. -/
def u16ToBeBytes (v : UInt16) : List UInt8 := [(v >>> 8).toUInt8, v.toUInt8]

/-- `usize::try_from` on a 64-bit machine. -/
def usizeTryFrom (v : UInt64) : Option ℕ := if v.toNat < 2 ^ 64 then some v.toNat else none

/-- `u32::try_from`. -/
def u32TryFrom (v : UInt64) : Option UInt32 := if v.toNat < 2 ^ 32 then some v.toUInt32 else none

namespace Cursor

/-- The next `n` bytes. -/
def bytes (n : ℕ) : Decoder (List UInt8) := fun c =>
  let rest := c.buf.drop c.off
  if n > rest.length then .error .short
  else .ok (rest.take n, { c with off := c.off + n })

/-- One byte. -/
def u8 : Decoder UInt8 := do
  let b ← bytes 1
  return b.getD 0 0

/-- A 16-bit integer. -/
def u16 : Decoder UInt16 := do
  let b ← bytes 2
  return u16FromBeBytes (b.getD 0 0) (b.getD 1 0)

/-- A varint in any form. -/
def varint : Decoder UInt64 := fun c =>
  match Varint.decode (c.buf.drop c.off) with
  | .ok (v, n) => .ok (v, { c with off := c.off + n })
  | .error _ => .error .short

/-- A string: a length over the cap is rejected before the bytes are required. -/
def string (cap : ℕ) : Decoder (List UInt8) := do
  let len ← varint
  if len.toNat > cap then throw .badValue
  else bytes len.toNat

/-- Skip the padding and report the frame's length. -/
def finish : Decoder ℕ := do
  let pad ← varint
  let pad ← orThrow .short (usizeTryFrom pad)
  let _ ← bytes pad
  offset

end Cursor

/-! ### The write cursor -/

/-- A writer of frames. -/
abbrev Encoder := Cursored UInt8 EncodeError

namespace CursorMut

/-- Put down bytes. -/
def bytes (b : List UInt8) : Encoder Unit := fun c =>
  if (c.buf.drop c.off).length < b.length then .error .short
  else .ok ((), ⟨splice c.buf c.off b, c.off + b.length⟩)

/-- Put down a varint in its shortest form. -/
def varint (v : UInt64) : Encoder Unit := fun c =>
  match Varint.encode (c.buf.drop c.off) v with
  | .ok (n, rest) => .ok ((), ⟨c.buf.take c.off ++ rest, c.off + n⟩)
  | .error .tooLarge => .error .badValue
  | .error .short => .error .short

/-- Put down a string. -/
def string (s : List UInt8) (cap : ℕ) : Encoder Unit := do
  if s.length > cap then throw .tooLong
  else do
    varint (UInt64.ofNat s.length)
    bytes s

/-- Put down an empty padding and report the frame's length. -/
def finish : Encoder ℕ := do
  varint 0
  offset

end CursorMut

/-! ### The codecs -/

/-- `version | client_id | auth_token | features | padding`. -/
def AuthReq.writer (f : AuthReq) : Encoder ℕ := do
  CursorMut.varint f.version
  CursorMut.string f.clientId MAX_CLIENT_ID
  CursorMut.string f.authToken MAX_AUTH_TOKEN
  CursorMut.varint f.features
  CursorMut.finish

def AuthReq.encode (f : AuthReq) (out : List UInt8) : Except EncodeError (ℕ × List UInt8) :=
  encodeWith f.writer out

def AuthReq.reader : Decoder (AuthReq × ℕ) := do
  let version ← Cursor.varint
  let clientId ← Cursor.string MAX_CLIENT_ID
  let authToken ← Cursor.string MAX_AUTH_TOKEN
  let features ← Cursor.varint
  let n ← Cursor.finish
  return ({ version, clientId, authToken, features }, n)

def AuthReq.decode (buf : List UInt8) : Except DecodeError (AuthReq × ℕ) := decodeWith reader buf

/-- `status | error_code | server_id | features | padding`. -/
def AuthResp.writer (f : AuthResp) : Encoder ℕ := do
  CursorMut.bytes [f.status]
  CursorMut.varint f.errorCode
  CursorMut.string f.serverId MAX_SERVER_ID
  CursorMut.varint f.features
  CursorMut.finish

def AuthResp.encode (f : AuthResp) (out : List UInt8) : Except EncodeError (ℕ × List UInt8) :=
  encodeWith f.writer out

def AuthResp.reader : Decoder (AuthResp × ℕ) := do
  let status ← Cursor.u8
  let errorCode ← Cursor.varint
  let serverId ← Cursor.string MAX_SERVER_ID
  let features ← Cursor.varint
  let n ← Cursor.finish
  return ({ status, errorCode, serverId, features }, n)

def AuthResp.decode (buf : List UInt8) : Except DecodeError (AuthResp × ℕ) := decodeWith reader buf

/-- `flags | address_type | host | port | padding`. -/
def ConnectTcpReq.writer (f : ConnectTcpReq) : Encoder ℕ := do
  CursorMut.varint f.flags
  CursorMut.bytes [f.addressType.toRaw]
  CursorMut.string f.host MAX_HOST
  CursorMut.bytes (u16ToBeBytes f.port)
  CursorMut.finish

def ConnectTcpReq.encode (f : ConnectTcpReq) (out : List UInt8) : Except EncodeError (ℕ × List UInt8) :=
  encodeWith f.writer out

def ConnectTcpReq.reader : Decoder (ConnectTcpReq × ℕ) := do
  let flags ← Cursor.varint
  let raw ← Cursor.u8
  let addressType ← orThrow .badValue (AddrType.fromRaw raw)
  let host ← Cursor.string MAX_HOST
  let port ← Cursor.u16
  let n ← Cursor.finish
  return ({ flags, addressType, host, port }, n)

def ConnectTcpReq.decode (buf : List UInt8) : Except DecodeError (ConnectTcpReq × ℕ) := decodeWith reader buf

/-- `status | error_code | message | padding`. -/
def ConnectTcpResp.writer (f : ConnectTcpResp) : Encoder ℕ := do
  CursorMut.bytes [f.status]
  CursorMut.varint f.errorCode
  CursorMut.string f.message MAX_MESSAGE
  CursorMut.finish

def ConnectTcpResp.encode (f : ConnectTcpResp) (out : List UInt8) : Except EncodeError (ℕ × List UInt8) :=
  encodeWith f.writer out

def ConnectTcpResp.reader : Decoder (ConnectTcpResp × ℕ) := do
  let status ← Cursor.u8
  let errorCode ← Cursor.varint
  let message ← Cursor.string MAX_MESSAGE
  let n ← Cursor.finish
  return ({ status, errorCode, message }, n)

def ConnectTcpResp.decode (buf : List UInt8) : Except DecodeError (ConnectTcpResp × ℕ) := decodeWith reader buf

/-- `session_id | flags | address_type | host | port | idle_timeout_ms | padding`. -/
def UdpSessionOpen.writer (f : UdpSessionOpen) : Encoder ℕ := do
  CursorMut.varint f.sessionId.toUInt64
  CursorMut.varint f.flags
  CursorMut.bytes [f.addressType.toRaw]
  CursorMut.string f.host MAX_HOST
  CursorMut.bytes (u16ToBeBytes f.port)
  CursorMut.varint f.idleTimeoutMs
  CursorMut.finish

def UdpSessionOpen.encode (f : UdpSessionOpen) (out : List UInt8) : Except EncodeError (ℕ × List UInt8) :=
  encodeWith f.writer out

/-- A session id over 32 bits and an unknown address type are rejected as soon as read. -/
def UdpSessionOpen.reader : Decoder (UdpSessionOpen × ℕ) := do
  let sid ← Cursor.varint
  let sessionId ← orThrow .invalid (u32TryFrom sid)
  let flags ← Cursor.varint
  let raw ← Cursor.u8
  let addressType ← orThrow .invalid (AddrType.fromRaw raw)
  let host ← Cursor.string MAX_HOST
  let port ← Cursor.u16
  let idleTimeoutMs ← Cursor.varint
  let n ← Cursor.finish
  return ({ sessionId, flags, addressType, host, port, idleTimeoutMs }, n)

def UdpSessionOpen.decode (buf : List UInt8) : Except DecodeError (UdpSessionOpen × ℕ) := decodeWith reader buf

/-- OK goes with code `0`, ERROR with the codes `1` to `4`. -/
def udpStatusCodeValid (status : UInt8) (errorCode : UInt64) : Bool :=
  (status == STATUS_OK && errorCode == 0) || (status == STATUS_ERROR && 1 ≤ errorCode && errorCode ≤ 4)

/-- `status | error_code | message | idle_timeout_ms | padding`, for a legal pair only. -/
def UdpSessionResp.writer (f : UdpSessionResp) : Encoder ℕ := do
  if !udpStatusCodeValid f.status f.errorCode then throw .badValue
  else do
    CursorMut.bytes [f.status]
    CursorMut.varint f.errorCode
    CursorMut.string f.message MAX_MESSAGE
    CursorMut.varint f.idleTimeoutMs
    CursorMut.finish

def UdpSessionResp.encode (f : UdpSessionResp) (out : List UInt8) : Except EncodeError (ℕ × List UInt8) :=
  encodeWith f.writer out

/-- The pairing of `status` and `error_code` is checked before the message is read. -/
def UdpSessionResp.reader : Decoder (UdpSessionResp × ℕ) := do
  let status ← Cursor.u8
  let errorCode ← Cursor.varint
  if !udpStatusCodeValid status errorCode then throw .invalid
  else do
    let message ← Cursor.string MAX_MESSAGE
    let idleTimeoutMs ← Cursor.varint
    let n ← Cursor.finish
    return ({ status, errorCode, message, idleTimeoutMs }, n)

def UdpSessionResp.decode (buf : List UInt8) : Except DecodeError (UdpSessionResp × ℕ) := decodeWith reader buf

end MqProxy.Wire
