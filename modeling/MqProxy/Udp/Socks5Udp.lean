import MqProxy.Wire.Frames
import MqProxy.Runtime.Target

/-!
# The SOCKS5 UDP header

`host_of` of `mq-proxy/src/udp/mod.rs`, what an address on the wire names, and
`mq-proxy/src/udp/socks5udp.rs`, the header in front of every datagram of a SOCKS5
association: `RSV u16 | FRAG u8 | ATYP | DST.ADDR | DST.PORT`.
-/

namespace MqProxy.Udp

open MqProxy.Wire MqProxy.Runtime

/-- The host that wire address bytes name: none for a wrong address length or a name
that is not UTF-8. An empty name is left to the caller. -/
def hostOf (atype : AddrType) (addr : List UInt8) : Option Host :=
  match atype with
  | .ipv4 => (tryFromSlice 4 addr).map fun a => .ip (.v4 a)
  | .ipv6 => (tryFromSlice 16 addr).map fun a => .ip (.v6 a)
  | .domain => (fromUtf8 addr).map .domain

namespace Socks5Udp

/-- A destination as it sits on the wire: for a domain, the name without its length byte. -/
structure Dst where
  atype : AddrType
  addr : List UInt8
  port : UInt16
  deriving DecidableEq, Repr

/-- `buf.get(a..b)`: the bytes of a range, if it lies inside the buffer. -/
def getRange (buf : List UInt8) (a b : ℕ) : Option (List UInt8) :=
  if a ≤ b ∧ b ≤ buf.length then some ((buf.take b).drop a) else none

theorem length_getRange {buf r : List UInt8} {a b : ℕ} (h : getRange buf a b = some r) : r.length = b - a := by
  simp only [getRange] at h
  split at h
  · cases h
    rw [List.length_drop, List.length_take]
    omega
  · cases h

/-- Where the address starts and how long it is; a domain has its length in front. -/
def addrSpan (atype : AddrType) (rest : List UInt8) : Option (ℕ × ℕ) :=
  match atype with
  | .ipv4 => some (4, 4)
  | .ipv6 => some (4, 16)
  | .domain => rest.head?.map fun n => (5, n.toNat)

theorem addrSpan_le {atype : AddrType} {rest : List UInt8} {off len : ℕ} (h : addrSpan atype rest = some (off, len)) :
    len ≤ 255 := by
  cases atype with
  | ipv4 => cases h; decide
  | ipv6 => cases h; decide
  | domain =>
    cases rest with
    | nil => cases h
    | cons n _ =>
      cases h
      have := n.toNat_lt
      omega

/-- `socks5udp::parse`: the destination and where the payload starts. A short header,
`RSV ≠ 0`, `FRAG ≠ 0` and an unknown `ATYP` are dropped alike. -/
def parse (buf : List UInt8) : Option (Dst × ℕ) :=
  match buf with
  | 0 :: 0 :: 0 :: atyp :: rest => do
    let atype ← AddrType.fromRaw atyp
    let (off, len) ← addrSpan atype rest
    let addr ← getRange buf off (off + len)
    let port ← getRange buf (off + len) (off + len + 2)
    let port := u16FromBeBytes (port.getD 0 0) (port.getD 1 0)
    return ({ atype, addr, port }, off + len + 2)
  | _ => none

/-- `socks5udp::target_of`: none for an empty name or one that is not UTF-8. -/
def targetOf (dst : Dst) : Option Target :=
  if dst.atype = .domain ∧ dst.addr = [] then none
  else (hostOf dst.atype dst.addr).map fun host => { host, port := dst.port }

/-- An accepted destination has an address of at most 255 bytes. -/
theorem length_addr_of_parse {buf : List UInt8} {dst : Dst} {off : ℕ} (h : parse buf = some (dst, off)) :
    dst.addr.length ≤ 255 := by
  unfold parse at h
  split at h
  · next atyp rest =>
    simp only [Option.bind_eq_bind, Option.bind_eq_some_iff, Option.pure_def, Option.some.injEq] at h
    obtain ⟨atype, -, ⟨o, len⟩, hlen, addr, haddr, port, -, h⟩ := h
    simp only [Prod.mk.injEq] at h
    obtain ⟨rfl, -⟩ := h
    have hle := addrSpan_le hlen
    have := length_getRange haddr
    simp only at this ⊢
    omega
  · cases h

end Socks5Udp

end MqProxy.Udp
