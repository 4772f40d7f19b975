import MqProxy.Runtime.Target

/-!
# Textual IP addresses

`str::parse::<Ipv4Addr>` and `str::parse::<Ipv6Addr>` of the standard library, which
the ingress uses to tell an address from a name: dotted decimal without leading
zeros, and colon-separated hexadecimal groups with at most one `::` and an optional
dotted tail. A parser takes a prefix of its input or fails and leaves it as it was.
-/

namespace MqProxy.Ingress.NetParser

open MqProxy.Runtime

/-- A parser: a value and what is left, or none. -/
abbrev Parser := StateT (List UInt8) Option

/-- `char::to_digit`. -/
def toDigit (radix : ℕ) (b : UInt8) : Option ℕ :=
  let d :=
    if 0x30 ≤ b ∧ b ≤ 0x39 then b.toNat - 0x30
    else if 0x61 ≤ b ∧ b ≤ 0x7A then b.toNat - 0x61 + 10
    else if 0x41 ≤ b ∧ b ≤ 0x5A then b.toNat - 0x41 + 10
    else radix
  if d < radix then some d else none

/-- `Parser::read_given_char`. -/
def readGivenChar (c : UInt8) : Parser Unit
  | b :: s => if b = c then some ((), s) else none
  | [] => none

/-- `Parser::read_separator`: the separator stands in front of all but the first. -/
def readSeparator {α : Type} (sep : UInt8) (index : ℕ) (inner : Parser α) : Parser α := do
  if index > 0 then readGivenChar sep
  inner

/-- `Parser::read_number`, of a value below `bound`. -/
def readNumber (radix maxDigits : ℕ) (allowZeroPrefix : Bool) (bound : ℕ) : Parser ℕ := fun s =>
  let digits := s.takeWhile fun b => (toDigit radix b).isSome
  let result := digits.foldl (fun r b => r * radix + (toDigit radix b).getD 0) 0
  if digits.length > maxDigits then none
  else if digits.length = 0 then none
  else if !allowZeroPrefix ∧ s.head? = some 0x30 ∧ digits.length > 1 then none
  else if result < bound then some (result, s.drop digits.length)
  else none

/-- `Parser::read_ipv4_addr`. -/
def readIpv4Addr : Parser Ipv4Addr := do
  let group := fun i => readSeparator 0x2E i (readNumber 10 3 false 256)
  let a ← group 0
  let b ← group 1
  let c ← group 2
  let d ← group 3
  return ⟨[UInt8.ofNat a, UInt8.ofNat b, UInt8.ofNat c, UInt8.ofNat d], rfl⟩

/-- `read_groups`: up to `k` more groups after `acc`, out of at most `limit`, and whether
the last two came from a dotted tail. -/
def readGroups (limit : ℕ) : ℕ → List ℕ → List UInt8 → (List ℕ × Bool) × List UInt8
  | 0, acc, s => ((acc, false), s)
  | k + 1, acc, s =>
    -- a dotted tail needs two groups
    match if acc.length + 1 < limit then readSeparator 0x3A acc.length readIpv4Addr s else none with
    | some (v4, s') =>
      let o := v4.val.map UInt8.toNat
      ((acc ++ [o.getD 0 0 * 256 + o.getD 1 0, o.getD 2 0 * 256 + o.getD 3 0], true), s')
    | none =>
      match readSeparator 0x3A acc.length (readNumber 16 4 true 65536) s with
      | some (g, s') => readGroups limit k (acc ++ [g]) s'
      | none => ((acc, false), s)

/-- The address of eight groups. -/
def ofGroups (groups : List ℕ) : Option Ipv6Addr :=
  tryFromSlice 16 (groups.flatMap fun g => [UInt8.ofNat (g / 256), UInt8.ofNat (g % 256)])

/-- `Parser::read_ipv6_addr`: eight groups, or fewer on both sides of a `::`. -/
def readIpv6Addr : Parser Ipv6Addr := fun s => do
  let ((head, headIpv4), s) := readGroups 8 8 [] s
  if head.length = 8 then
    return (← ofGroups head, s)
  else if headIpv4 then none
  else
    let ((), s) ← readGivenChar 0x3A s
    let ((), s) ← readGivenChar 0x3A s
    let limit := 8 - (head.length + 1)
    let ((tail, _), s) := readGroups limit limit [] s
    return (← ofGroups (head ++ List.replicate (8 - head.length - tail.length) 0 ++ tail), s)

/-- `Parser::parse_with`: nothing may be left. -/
def parseWith {α : Type} (p : Parser α) (s : List UInt8) : Option α :=
  match p s with
  | some (a, []) => some a
  | _ => none

/-- `str::parse::<Ipv4Addr>`. -/
def parseIpv4 (s : List UInt8) : Option Ipv4Addr := if s.length > 15 then none else parseWith readIpv4Addr s

/-- `str::parse::<Ipv6Addr>`. -/
def parseIpv6 (s : List UInt8) : Option Ipv6Addr := parseWith readIpv6Addr s

end MqProxy.Ingress.NetParser
