import MqProxy.Ingress.NetParser
import MqProxy.Wire.Frames

/-!
# Ingress parsers

The two parsers of `mq-proxy/src/ingress`: SOCKS5 (a greeting, then one request) and
HTTP CONNECT in authority form. Each `feed` looks at the whole of what is buffered
and says what to do next (`Progress`); a parser sees at most `INGRESS_CAP` bytes, and
a full buffer without a complete request closes the socket.

`Ingests target` — some parser produces `target` from some bytes. Whatever the bytes,
a name it produces has at most 255 bytes (`Ingests.length_domain_le`), which is what
the wire format needs.
-/

namespace MqProxy.Ingress

open MqProxy.Wire MqProxy.Runtime

/-- How much of its input a parser looks at. -/
def INGRESS_CAP : ℕ := 8192

/-- What one `feed` over the buffered bytes produced. -/
inductive Progress where
  /-- Incomplete: feed again with more bytes. -/
  | need
  /-- A complete request for `target`. -/
  | done (consumed : ℕ) (target : Target)
  /-- A complete SOCKS5 UDP ASSOCIATE request. -/
  | associate (consumed : ℕ)
  /-- Write `bytes`, then close, or drop `consumed` bytes and feed again. -/
  | reply (consumed : ℕ) (bytes : List UInt8) (close : Bool)
  /-- Close without writing anything. -/
  | close
  deriving DecidableEq

/-- `capped`: a full cap without a complete request closes without a reply. -/
def capped (buf : List UInt8) (parse : List UInt8 → Progress) : Progress :=
  match parse (buf.take (min buf.length INGRESS_CAP)) with
  | .need => if INGRESS_CAP ≤ buf.length then .close else .need
  | p => p

theorem capped_done {buf : List UInt8} {parse : List UInt8 → Progress} {n : ℕ} {t : Target}
    (h : capped buf parse = .done n t) : ∃ b, parse b = .done n t := by
  refine ⟨buf.take (min buf.length INGRESS_CAP), ?_⟩
  simp only [capped] at h
  split at h
  · split at h <;> cases h
  · exact h

/-! ### SOCKS5 -/

namespace Socks5

def VER : UInt8 := 0x05

def CMD_CONNECT : UInt8 := 0x01

def CMD_ASSOCIATE : UInt8 := 0x03

def METHOD_NOAUTH : UInt8 := 0x00

/-- `VER REP RSV ATYP=1 BND.ADDR=0.0.0.0 BND.PORT=0`. -/
def reply (rep : UInt8) : List UInt8 := [VER, rep, 0x00, 0x01, 0, 0, 0, 0, 0, 0]

/-- Write a refusal and close. -/
def refuse (bytes : List UInt8) : Progress := .reply 0 bytes true

/-- `VER | NMETHODS | METHODS`: what to do, and whether the greeting is over. -/
def greeting (b : List UInt8) : Progress × Bool :=
  if b.length < 2 then (.need, false)
  else if b.getD 0 0 ≠ VER then (.close, false)
  else
    let total := 2 + (b.getD 1 0).toNat
    if b.length < total then (.need, false)
    else if METHOD_NOAUTH ∉ (b.take total).drop 2 then (.reply 0 [VER, 0xFF] true, false)
    else (.reply total [VER, 0x00] false, true)

/-- Where the address of a request is. -/
inductive Span where
  /-- Where it starts and how long it is. -/
  | found (off len : ℕ)
  /-- The length of the name is still to come. -/
  | more
  /-- Not an address type of the protocol. -/
  | unsupported

/-- The address of a request, by its `ATYP`. -/
def addrSpan (b : List UInt8) : Span :=
  let atyp := b.getD 3 0
  if atyp = 0x01 then .found 4 4
  else if atyp = 0x04 then .found 4 16
  else if atyp = 0x03 then
    match b[4]? with
    | some n => .found 5 n.toNat
    | none => .more
  else .unsupported

/-- The host an address names. A name that is not UTF-8 is refused. -/
def host (atyp : UInt8) (addr : List UInt8) : Option Host :=
  if atyp = 0x01 then (tryFromSlice 4 addr).map fun a => .ip (.v4 a)
  else if atyp = 0x04 then (tryFromSlice 16 addr).map fun a => .ip (.v6 a)
  else (fromUtf8 addr).map .domain

/-- `VER | CMD | RSV | ATYP | DST.ADDR | DST.PORT`. -/
def request (b : List UInt8) : Progress :=
  if b.length < 4 then .need
  else if b.getD 0 0 ≠ VER then .close
  else
    let cmd := b.getD 1 0
    if cmd ≠ CMD_CONNECT ∧ cmd ≠ CMD_ASSOCIATE then refuse (reply 0x07)
    else
      match addrSpan b with
      | .more => .need
      | .unsupported => refuse (reply 0x08)
      | .found off len =>
        let total := off + len + 2
        if b.length < total then .need
        else if cmd = CMD_ASSOCIATE then .associate total
        else
          match host (b.getD 3 0) ((b.take (off + len)).drop off) with
          | some h => .done total { host := h, port := u16FromBeBytes (b.getD (total - 2) 0) (b.getD (total - 1) 0) }
          | none => refuse (reply 0x08)

/-- The parser's state: whether the greeting is over. -/
structure Socks5Parser where
  greeted : Bool
  deriving DecidableEq

/-- `Socks5Parser::feed`: what to do, and the parser after it. -/
def Socks5Parser.feed (p : Socks5Parser) (buf : List UInt8) : Progress × Socks5Parser :=
  if p.greeted then (capped buf request, p)
  else
    (capped buf fun b => (greeting b).1, ⟨(greeting (buf.take (min buf.length INGRESS_CAP))).2⟩)

end Socks5

/-! ### HTTP CONNECT -/

namespace HttpConnect

def MAX_HOST : ℕ := 255

/-- The ASCII bytes of a text. -/
def ascii (s : String) : List UInt8 := s.toList.map fun c => UInt8.ofNat c.toNat

/-- `buf.windows(pat.len()).position(|w| w == pat)`, for a pattern that is not empty. -/
def windowPosition (pat : List UInt8) : List UInt8 → Option ℕ
  | [] => none
  | b :: bs => if (b :: bs).take pat.length = pat then some 0 else (windowPosition pat bs).map (· + 1)

/-- `slice::splitn`: at most `n` pieces, the last one with the rest. -/
def splitn (sep : UInt8) : ℕ → List UInt8 → List (List UInt8)
  | 0, _ => []
  | 1, bs => [bs]
  | n + 2, bs =>
    match bs.dropWhile (· ≠ sep) with
    | [] => [bs]
    | _ :: rest => bs.takeWhile (· ≠ sep) :: splitn sep (n + 1) rest

/-- `iter().rposition(|&c| c == x)`. -/
def rposition (x : UInt8) (bs : List UInt8) : Option ℕ :=
  (bs.reverse.findIdx? (· = x)).map fun i => bs.length - 1 - i

theorem findIdx?_eq_none {x : UInt8} {bs : List UInt8} : bs.findIdx? (· = x) = none ↔ x ∉ bs := by
  rw [List.findIdx?_eq_none_iff]
  constructor
  · intro h hmem
    exact absurd rfl (of_decide_eq_false (h x hmem))
  · rintro h b hb
    exact decide_eq_false fun he => h (he ▸ hb)

theorem findIdx?_append_cons {x : UInt8} {l : List UInt8} (hl : x ∉ l) (r : List UInt8) :
    (l ++ x :: r).findIdx? (· = x) = some l.length := by
  rw [List.findIdx?_append, findIdx?_eq_none.mpr hl, List.findIdx?_cons]
  simp

theorem rposition_eq_none {x : UInt8} {bs : List UInt8} : rposition x bs = none ↔ x ∉ bs := by
  rw [rposition, Option.map_eq_none_iff, findIdx?_eq_none, List.mem_reverse]

theorem rposition_append_cons {x : UInt8} (l : List UInt8) {r : List UInt8} (hr : x ∉ r) :
    rposition x (l ++ x :: r) = some l.length := by
  have hrev : (l ++ x :: r).reverse = r.reverse ++ x :: l.reverse := by simp
  rw [rposition, hrev, findIdx?_append_cons (by rwa [List.mem_reverse]), Option.map_some]
  simp

/-- **The last place of a byte** splits the text. -/
theorem rposition_eq_some {x : UInt8} {bs : List UInt8} {i : ℕ} (h : rposition x bs = some i) :
    ∃ l r, bs = l ++ x :: r ∧ l.length = i ∧ x ∉ r := by
  have hmem : x ∈ bs.reverse := by
    rw [List.mem_reverse]
    by_contra hx
    rw [rposition_eq_none.mpr hx] at h
    cases h
  obtain ⟨r, l, hrev, hr⟩ := List.eq_append_cons_of_mem hmem
  have hbs : bs = l.reverse ++ x :: r.reverse := by
    rw [← List.reverse_reverse bs, hrev]
    simp
  have hr' : x ∉ r.reverse := by rwa [List.mem_reverse]
  rw [hbs, rposition_append_cons _ hr'] at h
  exact ⟨l.reverse, r.reverse, hbs, Option.some.inj h, hr'⟩

/-- One to five decimal digits, from 1 to 65535. -/
def parsePort (t : List UInt8) : Option UInt16 :=
  if t = [] ∨ t.length > 5 ∨ !t.all (fun c => 0x30 ≤ c && c ≤ 0x39) then none
  else
    let v := t.foldl (fun v c => v * 10 + (c.toNat - 0x30)) 0
    if v < 65536 ∧ v ≠ 0 then some (UInt16.ofNat v) else none

/-- `str::strip_suffix(']')`. -/
def stripBracket (s : List UInt8) : Option (List UInt8) :=
  if s.getLast? = some 0x5D then some s.dropLast else none

/-- `parse_host`: a bracketed IPv6 address, an IPv4 address or a name. -/
def parseHost (h : List UInt8) : Option Host := do
  let s ← fromUtf8 h
  if h.head? = some 0x5B then
    -- a bracket must close and hold an IPv6 literal
    let ip ← NetParser.parseIpv6 (← stripBracket h.tail)
    return .ip (.v6 ip)
  else if h = [] ∨ h.length > MAX_HOST then none
  else
    match NetParser.parseIpv4 h with
    | some ip => some (.ip (.v4 ip))
    | none => some (.domain s)

def R405 : List UInt8 := ascii "HTTP/1.1 405 Method Not Allowed\r\n\r\n"

def R400 : List UInt8 := ascii "HTTP/1.1 400 Bad Request\r\n\r\n"

def bad : Progress := .reply 0 R400 true

/-- `host:port`, split on the last colon. -/
def parseAuthority (target : List UInt8) : Option Target := do
  let colon ← rposition 0x3A target
  let port ← parsePort (target.drop (colon + 1))
  let host ← parseHost (target.take colon)
  return { host, port }

/-- The request line of a complete head: `method SP target SP version`. -/
def parseLine (hend : ℕ) (line : List UInt8) : Progress :=
  match splitn 0x20 3 line with
  | [] | [_] => bad
  | method :: target :: rest =>
    if method = [] then bad
    else if method ≠ ascii "CONNECT" then .reply 0 R405 true
    else
      match rest with
      | [] => bad
      | version :: _ =>
        if target = [] ∨ version.take 5 ≠ ascii "HTTP/" then bad
        else
          match parseAuthority target with
          | some t => .done hend t
          | none => bad

/-- `parse`: nothing is looked at before the head is complete. -/
def parse (buf : List UInt8) : Progress :=
  match windowPosition [0x0D, 0x0A, 0x0D, 0x0A] buf with
  | none => .need
  | some hend => parseLine (hend + 4) (buf.take ((windowPosition [0x0D, 0x0A] buf).getD 0))

/-- `HttpConnectParser::feed`. -/
def feed (buf : List UInt8) : Progress := capped buf parse

end HttpConnect

/-! ### What the parsers can produce -/

/-- Some ingress parser, in some state, produces `target` from some bytes. -/
inductive Ingests (target : Target) : Prop where
  | socks5 (p : Socks5.Socks5Parser) (buf : List UInt8) (n : ℕ) (h : (p.feed buf).1 = .done n target)
  | httpConnect (buf : List UInt8) (n : ℕ) (h : HttpConnect.feed buf = .done n target)

theorem Socks5.addrSpan_le {b : List UInt8} {off len : ℕ} (h : addrSpan b = .found off len) : len ≤ 255 := by
  simp only [addrSpan] at h
  split_ifs at h
  · cases h; decide
  · cases h; decide
  · split at h
    · next n _ =>
      cases h
      have := n.toNat_lt
      omega
    · cases h

theorem Socks5.greeting_ne_done (b : List UInt8) (n : ℕ) (t : Target) : (greeting b).1 ≠ .done n t := by
  simp only [greeting]
  split_ifs <;> simp

theorem Socks5.length_domain_of_request {b : List UInt8} {n : ℕ} {t : Target} {d : String}
    (h : request b = .done n t) (hd : t.host = .domain d) : (asBytes d).length ≤ 255 := by
  simp only [request] at h
  split at h
  · cases h
  split at h
  · cases h
  split at h
  · cases h
  split at h
  · cases h
  · cases h
  · next off len hspan =>
    split at h
    · cases h
    split at h
    · cases h
    split at h
    · next host hhost =>
      cases h
      simp only at hd
      subst hd
      simp only [Socks5.host] at hhost
      split_ifs at hhost
      · simp at hhost
      · simp at hhost
      · simp only [Option.map_eq_some_iff, Host.domain.injEq, exists_eq_right] at hhost
        rw [asBytes_of_fromUtf8 hhost, List.length_drop, List.length_take]
        have := Socks5.addrSpan_le hspan
        omega
    · cases h

theorem HttpConnect.length_domain_of_parseHost {h : List UInt8} {d : String}
    (hh : parseHost h = some (.domain d)) : (asBytes d).length ≤ 255 := by
  simp only [parseHost, Option.bind_eq_bind, Option.bind_eq_some_iff] at hh
  obtain ⟨s, hs, hh⟩ := hh
  split_ifs at hh with hb hlen
  · simp [Option.bind_eq_some_iff] at hh
  · rw [not_or] at hlen
    split at hh
    · cases hh
    · cases hh
      rw [asBytes_of_fromUtf8 hs]
      exact Nat.le_of_not_lt hlen.2

theorem HttpConnect.exists_authority_of_parse {b : List UInt8} {n : ℕ} {t : Target} (h : parse b = .done n t) :
    ∃ a, parseAuthority a = some t := by
  simp only [parse] at h
  split at h
  · cases h
  · simp only [parseLine, bad] at h
    split at h
    · cases h
    · cases h
    · split_ifs at h
      split at h
      · cases h
      · split_ifs at h
        split at h
        · next ha => cases h; exact ⟨_, ha⟩
        · cases h

/-- A name that an ingress parser produces fits the wire format. -/
theorem Ingests.length_domain_le {t : Target} (h : Ingests t) {d : String} (hd : t.host = .domain d) :
    (asBytes d).length ≤ Wire.MAX_HOST := by
  cases h with
  | socks5 p buf n h =>
    rw [Socks5.Socks5Parser.feed] at h
    split_ifs at h
    · obtain ⟨b, hb⟩ := capped_done h
      exact Socks5.length_domain_of_request hb hd
    · simp only at h
      obtain ⟨b, hb⟩ := capped_done h
      exact absurd hb (Socks5.greeting_ne_done b n t)
  | httpConnect buf n h =>
    obtain ⟨b, hb⟩ := capped_done h
    obtain ⟨a, ha⟩ := HttpConnect.exists_authority_of_parse hb
    simp only [HttpConnect.parseAuthority, Option.bind_eq_bind, Option.bind_eq_some_iff, Option.pure_def,
      Option.some.injEq] at ha
    obtain ⟨colon, -, port, -, host, hhost, rfl⟩ := ha
    simp only at hd
    subst hd
    exact HttpConnect.length_domain_of_parseHost hhost

end MqProxy.Ingress
