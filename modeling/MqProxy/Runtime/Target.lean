import Mathlib.Data.List.Basic

/-!
# Dial targets

`Host` and `Target` of `mq-runtime/src/app.rs`, with the parts of the standard
library they rest on: IP addresses as their octets, and strings as their UTF-8
bytes. A Rust `String` is a Lean `String`; `fromUtf8` and `asBytes` go between
strings and bytes, and undo each other.
-/

namespace MqProxy.Runtime

/-- Four octets. -/
abbrev Ipv4Addr := { octets : List UInt8 // octets.length = 4 }

/-- Sixteen octets. -/
abbrev Ipv6Addr := { octets : List UInt8 // octets.length = 16 }

/-- `<[u8; n]>::try_from` on a slice. -/
def tryFromSlice (n : ℕ) (b : List UInt8) : Option { l : List UInt8 // l.length = n } :=
  if h : b.length = n then some ⟨b, h⟩ else none

theorem tryFromSlice_val {n : ℕ} (a : { l : List UInt8 // l.length = n }) : tryFromSlice n a.val = some a := by
  rw [tryFromSlice, dif_pos a.property]

/-- An IP address. -/
inductive IpAddr where
  | v4 (a : Ipv4Addr)
  | v6 (a : Ipv6Addr)
  deriving DecidableEq

/-- `SocketAddr`. -/
inductive SocketAddr where
  | v4 (ip : Ipv4Addr) (port : UInt16)
  | v6 (ip : Ipv6Addr) (port : UInt16) (flowinfo scopeId : UInt32)
  deriving DecidableEq

/-- The host of a dial target. -/
inductive Host where
  | ip (a : IpAddr)
  | domain (d : String)
  deriving DecidableEq

/-- A dial target. -/
structure Target where
  host : Host
  port : UInt16
  deriving DecidableEq

/-- `std::str::from_utf8`. -/
def fromUtf8 (b : List UInt8) : Option String := String.fromUTF8? ⟨b.toArray⟩

/-- `str::as_bytes`. -/
def asBytes (s : String) : List UInt8 := s.toByteArray.data.toList

theorem fromUtf8_asBytes (s : String) : fromUtf8 (asBytes s) = some s := by
  have h : (⟨(asBytes s).toArray⟩ : ByteArray) = s.toByteArray := by rw [asBytes, Array.toArray_toList]
  rw [fromUtf8, h, String.fromUTF8?, dif_pos s.isValidUTF8]
  rfl

theorem asBytes_of_fromUtf8 {b : List UInt8} {s : String} (h : fromUtf8 b = some s) : asBytes s = b := by
  simp only [fromUtf8, String.fromUTF8?] at h
  split at h
  · cases h
    rfl
  · cases h

end MqProxy.Runtime
