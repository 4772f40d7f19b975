import MqProxy.Server.GatewayIntake

/-!
# The MITM front's request heads

`mq-proxy/src/client/mitm/head.rs` and `policy.rs`: the head of a browser's h2 request is
mapped to a request of the exchange core (`map_request`) and rendered as the header section
that goes to the server (`render` of `client/exchange/wire.rs`). The parts of a request are
what the `http` crate gives: the text of the authority and of the path as received, and the
fields of a `HeaderMap`, whose names are lower-case tokens.

**`mitm_confined`** says that a connection that was intercepted for one name only leads to
that name: if the head is mapped and the server takes the authority apart, the host is a
domain name, and the same one as the SNI.
-/

namespace MqProxy.Client

open MqProxy.Http MqProxy.Server
open MqProxy.Runtime (Host IpAddr fromUtf8 asBytes)
open MqProxy.Ingress (NetParser.Parser)
open MqProxy.Ingress.HttpConnect (ascii rposition rposition_eq_some findIdx?_eq_none parseHost)

/-! ### Request heads -/

/-- `BodyLen`. -/
inductive BodyLen where
  | empty
  | known (n : ℕ)
  | unknown
  deriving DecidableEq

/-- `ReqHead`. -/
structure ReqHead where
  method : Method
  target : Target
  auth : List UInt8
  cls : Option (List UInt8)
  originProto : Option (HttpVer × List UInt8)
  cache : Option (List UInt8)
  acceptEncoding : Option (List UInt8)
  headers : List Field
  body : BodyLen

/-- `Reject`. -/
inductive Reject where
  | dupControl
  | missingAuth
  | badAuthFormat
  | badTarget
  | badMethod
  | badOriginProto
  | badCacheTtl
  | headerTooLong
  | tunnelUnavailable
  | internalError
  | upstreamReset
  | upstreamProtocol
  deriving DecidableEq

/-- The fields of a section are charged one by one. -/
def withinLimits (fs : List Field) : Bool :=
  (fs.foldl (fun (b : Option SectionBudget) (f : Field) => b.bind fun b => b.add f.1 f.2) (some .default)).isSome

/-- The fields that `render` writes. -/
def ReqHead.fields (h : ReqHead) : List Field :=
  let opt := fun (n : String) (v : Option (List UInt8)) => (v.map fun v => (ascii n, v)).toList
  [(ascii ":method", h.method), (ascii ":scheme", h.target.scheme), (ascii ":authority", h.target.authority),
      (ascii ":path", h.target.path), (ascii "x-mq-auth", h.auth)] ++
    opt "x-mq-class" h.cls ++ opt "x-mq-origin-protocol" (h.originProto.map Prod.snd) ++ opt "x-mq-cache" h.cache ++
    opt "accept-encoding" h.acceptEncoding ++
    (match h.body with
      | .known (n + 1) => [(ascii "content-length", ascii (toString (n + 1)))]
      | _ => []) ++
    h.headers.map fun f => (f.1.map toAsciiLowercase, f.2)

/-- `render`. -/
def render (h : ReqHead) : Except Reject (List Field) :=
  if withinLimits h.fields then .ok h.fields else .error .headerTooLong

/-! ### Names -/

/-- `str::parse::<IpAddr>`. -/
def parseIpAddr (s : List UInt8) : Option IpAddr :=
  let v4 : NetParser.Parser IpAddr := (Ingress.NetParser.readIpv4Addr).map .v4
  let v6 : NetParser.Parser IpAddr := (Ingress.NetParser.readIpv6Addr).map .v6
  Ingress.NetParser.parseWith (v4 <|> v6) s

/-- `strip_suffix(b".").unwrap_or(b)`. -/
def stripDot (b : List UInt8) : List UInt8 := if b.getLast? = some 0x2E then b.dropLast else b

/-- A label of a host name. -/
def labelOk (l : List UInt8) : Bool :=
  1 ≤ l.length && l.length ≤ 63 && l.all fun c => isAsciiAlphanumeric c || c == 0x2D

/-- `Sni::canonical`; an `Sni` is its text. -/
def canonical (b : List UInt8) : Option (List UInt8) :=
  let b := stripDot b
  if b = [] ∨ b.length > 253 then none
  else
    (fromUtf8 b).bind fun _ =>
      let s := b.map toAsciiLowercase
      if !(s.splitOn 0x2E).all labelOk ∨ (parseIpAddr s).isSome then none else some s

/-! ### The head of a browser's request -/

/-- `HeaderMap`: a name is a lower-case token. -/
structure HeaderMap where
  fields : List Field
  names : ∀ f ∈ fields, f.1 ≠ [] ∧ ∀ c ∈ f.1, isTchar c = true ∧ toAsciiLowercase c = c

/-- The values of a name. -/
def HeaderMap.getAll (m : HeaderMap) (name : String) : List (List UInt8) :=
  (m.fields.filter fun f => f.1 = ascii name).map Prod.snd

/-- `http::request::Parts`. -/
structure Parts where
  method : List UInt8
  scheme : Option (List UInt8)
  authority : Option (List UInt8)
  pathAndQuery : Option (List UInt8)
  headers : HeaderMap

/-- `MapErr`. -/
inductive MapErr where
  | reject (r : Reject)
  | misdirected
  | malformed
  deriving DecidableEq

/-- `auth_value`. -/
def authValue (token : List UInt8) : List UInt8 := if BEARER.isPrefixOf token then token else BEARER ++ token

/-- One field more of `forwarded_headers`: the cookies are joined at the place of the first. -/
def forwardField (map : HeaderMap) (out : List Field) (f : Field) : List Field :=
  if f.1 = ascii "cookie" then
    if out.any (·.1 = ascii "cookie") then out
    else out ++ [(ascii "cookie", (ascii "; ").intercalate (map.getAll "cookie"))]
  else if stripClient f.1 true then out
  else out ++ [f]

/-- `forwarded_headers`. -/
def forwardedHeaders (map : HeaderMap) : List Field := map.fields.foldl (forwardField map) []

/-- One value more of a content-length: a number, and the one before. -/
def lengthValue (cl : Option ℕ) (v : List UInt8) : Except MapErr (Option ℕ) :=
  match parseContentLength v with
  | none => .error .malformed
  | some n => if cl.getD n = n then .ok (some n) else .error .malformed

/-- `body_len`. -/
def bodyLen (map : HeaderMap) (endStream : Bool) : Except MapErr BodyLen :=
  match (map.getAll "content-length").foldlM lengthValue none with
  | .error e => .error e
  | .ok cl =>
    match cl, endStream with
    | some n, true => if n > 0 then .error .malformed else .ok .empty
    | none, true => .ok .empty
    | some n, false => .ok (.known n)
    | none, false => .ok .unknown

/-- A declared length fits an `i64`. -/
theorem lt_of_bodyLen {map : HeaderMap} {endStream : Bool} {n : ℕ} (h : bodyLen map endStream = .ok (.known n)) :
    n < 2 ^ 63 := by
  have hvalues (vs : List (List UInt8)) (cl : Option ℕ) (hcl : ∀ k, cl = some k → k < 2 ^ 63) :
      ∀ k, vs.foldlM lengthValue cl = .ok (some k) → k < 2 ^ 63 := by
    induction vs generalizing cl with
    | nil =>
      intro k hk
      cases hk
      exact hcl k rfl
    | cons v vs ih =>
      intro k hk
      rw [List.foldlM_cons] at hk
      cases hparse : parseContentLength v with
      | none =>
        simp only [lengthValue, hparse] at hk
        cases hk
      | some j =>
        simp only [lengthValue, hparse] at hk
        split at hk
        · refine ih (some j) (fun i hi => ?_) k hk
          cases hi
          exact lt_of_parseContentLength hparse
        · cases hk
  unfold bodyLen at h
  split at h
  · cases h
  · next cl hcl =>
    split at h
    · split at h <;> cases h
    · cases h
    · cases h
      exact hvalues _ none nofun n hcl
    · cases h

/-- The authority of a request: `:authority`, else a `host` that is one. -/
def authorityOf (http : HttpCrate) (parts : Parts) : Option (List UInt8) :=
  match parts.authority with
  | some a => some a
  | none =>
    match (parts.headers.getAll "host").head? with
    | none => none
    | some h => if h.any (fun c => c == 0x2F || c == 0x3F || c == 0x23) || !http.authority h then none else some h

/-- The host part of an authority that was validated. -/
def hostPart (a : List UInt8) : List UInt8 :=
  match rposition 0x3A a with
  | some i => if a.getLast? = some 0x5D then a else a.take i
  | none => a

/-- `map_request`. -/
def mapRequest (http : HttpCrate) (parts : Parts) (endStream : Bool) (sni auth : List UInt8) :
    Except MapErr ReqHead :=
  if parts.method = ascii "CONNECT" then .error (.reject .badMethod)
  else
    match parseMethod parts.method with
    | none => .error (.reject .badMethod)
    | some method =>
      let path := parts.pathAndQuery.getD []
      if path.head? ≠ some 0x2F then .error (.reject .badTarget)
      else
        match authorityOf http parts with
        | none => .error (.reject .badTarget)
        | some authority =>
          if parts.scheme.any fun s => !eqIgnoreAsciiCase s (ascii "https") then .error (.reject .badTarget)
          else
            match parseTarget (ascii "https://" ++ authority ++ path) with
            | none => .error (.reject .badTarget)
            | some target =>
              if canonical (hostPart target.authority) ≠ some sni then .error .misdirected
              else
                (bodyLen parts.headers endStream).map fun body =>
                  ⟨method, target, auth, none, none, none, none, forwardedHeaders parts.headers, body⟩

/-! ### What a canonical name is -/

/-- A byte of a split text is a separator or in one of the pieces. -/
theorem mem_splitOn {x c : UInt8} {s : List UInt8} (h : c ∈ s) : c = x ∨ ∃ l ∈ s.splitOn x, c ∈ l := by
  have hpieces : ∀ ls : List (List UInt8), c ∈ [x].intercalate ls → c = x ∨ ∃ l ∈ ls, c ∈ l := by
    intro ls
    induction ls with
    | nil => simp [List.intercalate]
    | cons l ls ih =>
      cases ls with
      | nil => exact fun hc => .inr ⟨l, List.mem_cons_self, by simpa [List.intercalate] using hc⟩
      | cons l' ls =>
        rw [List.intercalate_cons_cons, List.mem_append, List.mem_append]
        rintro ((hc | hc) | hc)
        · exact .inr ⟨l, List.mem_cons_self, hc⟩
        · exact .inl (List.mem_singleton.mp hc)
        · rcases ih hc with rfl | ⟨m, hm, hcm⟩
          · exact .inl rfl
          · exact .inr ⟨m, List.mem_cons_of_mem _ hm, hcm⟩
  exact hpieces _ (by rwa [List.intercalate_splitOn])

variable {b s : List UInt8} {c : UInt8}

/-- The bytes of a canonical name are those of labels, and dots. -/
theorem canonical_bytes (h : canonical b = some s) (hc : c ∈ stripDot b) :
    toAsciiLowercase c = 0x2E ∨ isAsciiAlphanumeric (toAsciiLowercase c) = true ∨ toAsciiLowercase c = 0x2D := by
  simp only [canonical] at h
  split at h
  · cases h
  · obtain ⟨_, -, h⟩ := Option.bind_eq_some_iff.mp h
    split at h
    · cases h
    · next hok =>
      rw [not_or, Bool.not_eq_true', Bool.not_eq_false, List.all_eq_true] at hok
      rcases mem_splitOn (x := 0x2E) (List.mem_map_of_mem hc) with hdot | ⟨l, hl, hcl⟩
      · exact .inl hdot
      · have hlabel := hok.1 l hl
        simp only [labelOk, Bool.and_eq_true, List.all_eq_true] at hlabel
        have := hlabel.2 _ hcl
        rw [Bool.or_eq_true, beq_iff_eq] at this
        exact .inr this

theorem mem_stripDot (h : c ∈ b) (hc : c ≠ 0x2E) : c ∈ stripDot b := by
  rw [stripDot]
  split
  · next hlast =>
    obtain ⟨l, rfl⟩ := List.getLast?_eq_some_iff.mp hlast
    rw [List.dropLast_concat]
    rcases List.mem_append.mp h with h | h
    · exact h
    · exact absurd (List.mem_singleton.mp h) hc
  · exact h

/-- A bracket is in no canonical name. -/
theorem canonical_bracket (h : 0x5B ∈ b) : canonical b = none := by
  cases hcan : canonical b with
  | none => rfl
  | some s => exact absurd (canonical_bytes hcan (mem_stripDot h (by decide))) (by decide)

/-- An address is no canonical name. -/
theorem canonical_ip (h : canonical b = some s) : parseIpAddr ((stripDot b).map toAsciiLowercase) = none := by
  simp only [canonical] at h
  split at h
  · cases h
  · obtain ⟨_, -, h⟩ := Option.bind_eq_some_iff.mp h
    split at h
    · cases h
    · next hok => simpa using (not_or.mp hok).2

/-! ### Dotted addresses -/

/-- Decimal digits in front of the rest. -/
def Digits (s rest : List UInt8) : Prop := ∃ ds, s = ds ++ rest ∧ ds ≠ [] ∧ ∀ c ∈ ds, isAsciiDigit c = true

theorem isAsciiDigit_of_toDigit (h : (Ingress.NetParser.toDigit 10 c).isSome = true) : isAsciiDigit c = true := by
  rw [Ingress.NetParser.toDigit] at h
  simp only [isAsciiDigit, Bool.and_eq_true, decide_eq_true_eq]
  by_contra hnot
  rw [if_neg hnot] at h
  split_ifs at h <;> first | omega | cases h

variable {rest : List UInt8}

theorem digits_of_readNumber {maxDigits bound v : ℕ}
    (h : Ingress.NetParser.readNumber 10 maxDigits false bound s = some (v, rest)) : Digits s rest := by
  simp only [Ingress.NetParser.readNumber] at h
  split_ifs at h with h1 h2
  cases h
  refine ⟨s.takeWhile fun b => (Ingress.NetParser.toDigit 10 b).isSome, ?_, ?_, fun c hc => ?_⟩
  · exact (List.prefix_iff_eq_append.mp (List.takeWhile_prefix _)).symm
  · exact fun hnil => h2 (by rw [hnil]; rfl)
  · exact isAsciiDigit_of_toDigit (List.all_eq_true.mp List.all_takeWhile c hc)

/-- Digits and dots in front of the rest, the last of them a digit. -/
def Dotted (s rest : List UInt8) : Prop :=
  ∃ ds d, s = ds ++ d :: rest ∧ isAsciiDigit d = true ∧ ∀ c ∈ ds, isAsciiDigit c = true ∨ c = 0x2E

theorem Digits.dotted (h : Digits s rest) : Dotted s rest := by
  obtain ⟨ds, rfl, hne, hds⟩ := h
  refine ⟨ds.dropLast, ds.getLast hne, ?_, hds _ (List.getLast_mem hne), fun c hc => .inl (hds c (List.mem_of_mem_dropLast hc))⟩
  rw [List.append_cons, List.dropLast_concat_getLast]

theorem Dotted.trans {r : List UInt8} (h : Dotted s r) (h' : Dotted r rest) : Dotted s rest := by
  obtain ⟨ds, d, rfl, hd, hds⟩ := h
  obtain ⟨es, e, rfl, he, hes⟩ := h'
  refine ⟨ds ++ d :: es, e, by simp, he, fun c hc => ?_⟩
  rcases List.mem_append.mp hc with hc | hc
  · exact hds c hc
  · rcases List.mem_cons.mp hc with rfl | hc
    · exact .inl hd
    · exact hes c hc

/-- One group of a dotted address. -/
theorem dotted_of_readSeparator {i v : ℕ}
    (h : Ingress.NetParser.readSeparator 0x2E i (Ingress.NetParser.readNumber 10 3 false 256) s = some (v, rest)) :
    Dotted s rest := by
  rw [Ingress.NetParser.readSeparator] at h
  by_cases hi : i > 0
  · rw [if_pos hi] at h
    obtain ⟨⟨u, r⟩, hsep, hnum⟩ := Option.bind_eq_some_iff.mp h
    cases s with
    | nil => cases hsep
    | cons c s =>
      simp only [Ingress.NetParser.readGivenChar] at hsep
      split at hsep
      · next hc =>
        cases hsep
        obtain ⟨ds, d, rfl, hd, hds⟩ := (digits_of_readNumber hnum).dotted
        refine ⟨c :: ds, d, rfl, hd, fun x hx => ?_⟩
        rcases List.mem_cons.mp hx with rfl | hx
        · exact .inr hc
        · exact hds x hx
      · cases hsep
  · rw [if_neg hi] at h
    exact (digits_of_readNumber h).dotted

variable {a : Runtime.Ipv4Addr}

theorem dotted_of_readIpv4 (h : Ingress.NetParser.readIpv4Addr s = some (a, rest)) : Dotted s rest := by
  obtain ⟨⟨v₁, s₁⟩, h₁, h⟩ := Option.bind_eq_some_iff.mp h
  obtain ⟨⟨v₂, s₂⟩, h₂, h⟩ := Option.bind_eq_some_iff.mp h
  obtain ⟨⟨v₃, s₃⟩, h₃, h⟩ := Option.bind_eq_some_iff.mp h
  obtain ⟨⟨v₄, s₄⟩, h₄, h⟩ := Option.bind_eq_some_iff.mp h
  cases h
  exact (((dotted_of_readSeparator h₁).trans (dotted_of_readSeparator h₂)).trans (dotted_of_readSeparator h₃)).trans
    (dotted_of_readSeparator h₄)

theorem toAsciiLowercase_of_digit (h : isAsciiDigit c = true) : toAsciiLowercase c = c := by
  rw [isAsciiDigit] at h
  rw [toAsciiLowercase]
  grind

theorem parseIpAddr_of_ipv4
    (h : Ingress.NetParser.readIpv4Addr s = some (a, [])) : parseIpAddr s = some (.v4 a) := by
  have hv4 : StateT.map IpAddr.v4 Ingress.NetParser.readIpv4Addr s = some (.v4 a, []) := by
    simp [StateT.map, h]
  have horElse : ∀ p q : NetParser.Parser IpAddr, p s = some (.v4 a, []) → (p <|> q) s = some (.v4 a, []) := by
    intro p q hp
    show (p s <|> q s) = _
    rw [hp]
    rfl
  rw [parseIpAddr, Ingress.NetParser.parseWith, horElse _ _ hv4]

/-- **A dotted address is no canonical name.** -/
theorem canonical_of_ipv4 (h : Ingress.NetParser.parseIpv4 b = some a) : canonical b ≠ some s := by
  intro hcan
  rw [Ingress.NetParser.parseIpv4] at h
  split at h
  · cases h
  · have hread : Ingress.NetParser.readIpv4Addr b = some (a, []) := by
      rw [Ingress.NetParser.parseWith] at h
      split at h
      · next hp =>
        cases h
        exact hp
      · cases h
    obtain ⟨ds, d, hb, hd, hds⟩ := dotted_of_readIpv4 hread
    -- neither its last dot nor its case changes
    have hstrip : stripDot b = b := by
      rw [stripDot, if_neg]
      rw [hb, List.getLast?_append_cons]
      rintro h
      cases h
      exact absurd hd (by decide)
    have hlower : b.map toAsciiLowercase = b := by
      rw [hb]
      refine List.map_congr_left (g := id) (fun c hc => ?_) |>.trans (List.map_id _)
      rcases List.mem_append.mp hc with hc | hc
      · rcases hds c hc with hc | rfl
        · exact toAsciiLowercase_of_digit hc
        · rfl
      · rw [List.mem_singleton.mp hc]
        exact toAsciiLowercase_of_digit hd
    have hip := canonical_ip hcan
    rw [hstrip, hlower, parseIpAddr_of_ipv4 hread] at hip
    cases hip

/-! ### Confinement -/

/-- The client and the server take the same host from an authority without brackets. -/
theorem hostPort_eq {a : List UInt8} (h : 0x5D ∉ a) : ∃ port, hostPort a = some (hostPart a, port) := by
  have hlast : a.getLast? ≠ some 0x5D := fun hl => h (List.mem_of_getLast? hl)
  rw [hostPort, findIdx?_eq_none.mpr h, hostPart]
  simp only
  cases rposition 0x3A a with
  | none => exact ⟨none, rfl⟩
  | some i => exact ⟨some (a.drop (i + 1)), by simp only [if_neg hlast]⟩

theorem getElem?_of_rposition {x : UInt8} {a : List UInt8} {i : ℕ} (h : rposition x a = some i) : a[i]? = some x := by
  obtain ⟨l, r, rfl, rfl, -⟩ := rposition_eq_some h
  simp

theorem mem_hostPart {a : List UInt8} (h : a.head? = some 0x5B) : 0x5B ∈ hostPart a := by
  obtain ⟨a, rfl⟩ := List.head?_eq_some_iff.mp h
  rw [hostPart]
  split
  · next i hi =>
    split
    · exact List.mem_cons_self
    · have hget := getElem?_of_rposition hi
      cases i with
      | zero => cases hget
      | succ i => exact List.mem_cons_self
  · exact List.mem_cons_self

/-- What `map_request` checked. -/
theorem mapRequest_ok {http : HttpCrate} {parts : Parts} {endStream : Bool} {sni auth : List UInt8} {h : ReqHead}
    (hmap : mapRequest http parts endStream sni auth = .ok h) :
    h.auth = auth ∧ h.headers = forwardedHeaders parts.headers ∧ h.target.scheme = ascii "https" ∧
      Authority h.target.authority ∧ canonical (hostPart h.target.authority) = some sni ∧ h.method = parts.method ∧
      bodyLen parts.headers endStream = .ok h.body ∧ h.method ≠ ascii "CONNECT" ∧ parseMethod parts.method = some h.method ∧
      ∃ s, parseTarget s = some h.target := by
  simp only [mapRequest] at hmap
  split at hmap
  · cases hmap
  · next hconnect =>
    split at hmap
    · cases hmap
    · next method hmethod =>
      split at hmap
      · cases hmap
      · split at hmap
        · cases hmap
        · split at hmap
          · cases hmap
          · split at hmap
            · cases hmap
            · next target htarget =>
              split at hmap
              · cases hmap
              · next hcan =>
                cases hbody : bodyLen parts.headers endStream with
                | error e =>
                  rw [hbody] at hmap
                  cases hmap
                | ok body =>
                  rw [hbody] at hmap
                  cases hmap
                  obtain ⟨hscheme, hauthority⟩ := parseTarget_authority (by simp) htarget
                  have heq := eq_of_parseMethod hmethod
                  exact ⟨rfl, rfl, hscheme, hauthority, not_not.mp hcan, heq, rfl, heq ▸ hconnect, hmethod, _, htarget⟩

/-- **A connection that was intercepted for one name leads to no other.** -/
theorem mitm_confined (http : HttpCrate) (parts : Parts) (endStream : Bool) {sni : List UInt8} (auth : List UInt8)
    {h : ReqHead} {host : Host} {port : UInt16} (hmap : mapRequest http parts endStream sni auth = .ok h)
    (hsplit : splitAuthority .https h.target.authority = some (host, port)) :
    ∃ d, host = .domain d ∧ canonical (asBytes d) = some sni := by
  obtain ⟨-, -, -, hauthority, hcan, -⟩ := mapRequest_ok hmap
  -- an authority in brackets has no canonical host part
  have hopen : h.target.authority.head? ≠ some 0x5B := by
    intro hb
    rw [canonical_bracket (mem_hostPart hb)] at hcan
    cases hcan
  obtain ⟨p, hhost⟩ := hostPort_eq (hauthority.closed hopen)
  rw [splitAuthority] at hsplit
  split at hsplit
  · cases hsplit
  · rw [hhost] at hsplit
    simp only at hsplit
    split at hsplit
    · cases hsplit
    · obtain ⟨host', hparse, heq⟩ := Option.map_eq_some_iff.mp hsplit
      cases heq
      simp only [parseHost, Option.bind_eq_bind, Option.bind_eq_some_iff] at hparse
      obtain ⟨d, hd, hparse⟩ := hparse
      split_ifs at hparse with hb hlen
      · rw [canonical_bracket (List.mem_of_mem_head? hb)] at hcan
        cases hcan
      · split at hparse
        · next ip hip => exact absurd hcan (canonical_of_ipv4 hip)
        · cases hparse
          exact ⟨d, rfl, by rw [Runtime.asBytes_of_fromUtf8 hd]; exact hcan⟩

/-- A name with capitals, a trailing dot and a port. -/
theorem mitm_confined_dot :
    ∃ h host port,
      mapRequest ⟨fun _ => true, fun _ => true, fun _ => true⟩
        ⟨ascii "GET", some (ascii "https"), some (ascii "A.b.:8443"), some (ascii "/"), ⟨[], by simp⟩⟩ true
        (ascii "a.b") (ascii "Bearer t") = .ok h ∧
      splitAuthority .https h.target.authority = some (host, port) ∧
      ∃ d, host = .domain d ∧ canonical (asBytes d) = some (ascii "a.b") :=
  ⟨_, _, _, rfl, rfl, mitm_confined ⟨fun _ => true, fun _ => true, fun _ => true⟩
    ⟨ascii "GET", some (ascii "https"), some (ascii "A.b.:8443"), some (ascii "/"), ⟨[], by simp⟩⟩ true
    (ascii "Bearer t") rfl rfl⟩

end MqProxy.Client
