import MqProxy.Ingress.Parsers
import Mathlib.Algebra.Order.BigOperators.Group.List

/-!
# Header rules

`mq-http/src/headers.rs`, `mq-http/src/limits.rs` and the byte classes of
`mq-http/src/h1.rs`: what both ends of the gateway check on the fields of a request, and
the target a request names. Texts are lists of bytes.

The authority that `parse_target` lets through is what the later modules rest on: it is
not empty, has no `@`, and a `]` only if a `[` opens it (`parseTarget_authority`).
-/

namespace MqProxy.Http

open MqProxy.Ingress.HttpConnect (ascii rposition)

/-! ### Bytes -/

/-- `u8::to_ascii_lowercase`. -/
def toAsciiLowercase (c : UInt8) : UInt8 := if 0x41 ≤ c && c ≤ 0x5A then c + 0x20 else c

/-- `eq_ignore_ascii_case`. -/
def eqIgnoreAsciiCase (a b : List UInt8) : Bool := a.map toAsciiLowercase == b.map toAsciiLowercase

/-- `u8::is_ascii_digit`. -/
def isAsciiDigit (c : UInt8) : Bool := 0x30 ≤ c && c ≤ 0x39

/-- `u8::is_ascii_alphanumeric`. -/
def isAsciiAlphanumeric (c : UInt8) : Bool :=
  isAsciiDigit c || (0x41 ≤ c && c ≤ 0x5A) || (0x61 ≤ c && c ≤ 0x7A)

/-- `is_tchar`. -/
def isTchar (c : UInt8) : Bool := isAsciiAlphanumeric c || (ascii "!#$%&'*+-.^_`|~").contains c

/-- `forbidden_uri_byte`: control bytes, DEL and SP. -/
def forbiddenUriByte (c : UInt8) : Bool := c < 0x20 || c == 0x7F || c == 0x20

/-- `name_ok`. -/
def nameOk (s : List UInt8) : Bool := s.all fun c => 0x20 ≤ c && c != 0x7F

/-- `value_ok`. -/
def valueOk (s : List UInt8) : Bool := s.all fun c => c == 0x09 || (0x20 ≤ c && c != 0x7F)

/-- `uri_field_ok`. -/
def uriFieldOk (s : List UInt8) : Bool := !s.any forbiddenUriByte

/-! ### Limits -/

def FIELD_MAX : ℕ := 8192

def SECTION_MAX : ℕ := 32768

def COUNT_MAX : ℕ := 256

def TARGET_PATH_MAX : ℕ := FIELD_MAX - 5

def METHOD_MAX : ℕ := 32

def AUTHORITY_MAX : ℕ := 255

/-- A field of a header section: its name and its value. -/
abbrev Field := List UInt8 × List UInt8

/-- `SectionBudget`. -/
structure SectionBudget where
  count : ℕ
  size : ℕ
  deriving DecidableEq

/-- `SectionBudget::default`. -/
def SectionBudget.default : SectionBudget := ⟨0, 0⟩

/-- `SectionBudget::add`; `none` is an `Overflow`. -/
def SectionBudget.add (b : SectionBudget) (name value : List UInt8) : Option SectionBudget :=
  let field := name.length + value.length
  if field > FIELD_MAX ∨ b.count = COUNT_MAX ∨ b.size + field + 32 > SECTION_MAX then none
  else some ⟨b.count + 1, b.size + field + 32⟩

/-! ### Names -/

/-- `has_prefix_ci`. -/
def hasPrefixCi (n pfx : List UInt8) : Bool := pfx.length ≤ n.length && eqIgnoreAsciiCase (n.take pfx.length) pfx

/-- `is_xmq`. -/
def isXmq (n : List UInt8) : Bool := hasPrefixCi n (ascii "x-mq-")

/-- `is_hop_by_hop`. -/
def isHopByHop (name : List UInt8) : Bool :=
  [ascii "connection", ascii "keep-alive", ascii "proxy-authenticate", ascii "proxy-authorization",
    ascii "proxy-connection", ascii "te", ascii "trailer", ascii "transfer-encoding", ascii "upgrade"].any
    (eqIgnoreAsciiCase name)

/-- `strip_client`. -/
def stripClient (name : List UInt8) (forwardCookie : Bool) : Bool :=
  isHopByHop name || isXmq name || eqIgnoreAsciiCase name (ascii "host") ||
    eqIgnoreAsciiCase name (ascii "content-length") || (!forwardCookie && eqIgnoreAsciiCase name (ascii "cookie"))

/-- `strip_server`. -/
def stripServer (name : List UInt8) : Bool := isHopByHop name || isXmq name

/-! ### Methods, versions and lengths -/

/-- `Method`: its bytes, as `as_bytes` gives them. -/
abbrev Method := List UInt8

/-- `parse_method`. -/
def parseMethod (s : List UInt8) : Option Method :=
  if s = [] ∨ s.length > METHOD_MAX ∨ !s.all isTchar then none else some s

theorem eq_of_parseMethod {s : List UInt8} {m : Method} (h : parseMethod s = some m) : m = s := by
  unfold parseMethod at h
  split at h
  · cases h
  · cases h
    rfl

/-- `HttpVer`. -/
inductive HttpVer where
  | default
  | h1
  | h2
  | h3
  deriving DecidableEq

/-- `parse_http_ver`. -/
def parseHttpVer (v : List UInt8) : HttpVer :=
  if eqIgnoreAsciiCase v (ascii "h3") then .h3
  else if eqIgnoreAsciiCase v (ascii "h2") then .h2
  else if eqIgnoreAsciiCase v (ascii "h1") then .h1
  else .default

/-- One digit more of a length of at most `i64::MAX`. What is past `u64` is past `i64::MAX` too. -/
def lengthDigit (n : Option ℕ) (c : UInt8) : Option ℕ :=
  n.bind fun n =>
    if !isAsciiDigit c then none
    else if n * 10 + (c.toNat - 0x30) > 2 ^ 63 - 1 then none
    else some (n * 10 + (c.toNat - 0x30))

/-- `parse_content_length`. -/
def parseContentLength (v : List UInt8) : Option ℕ := if v = [] then none else v.foldl lengthDigit (some 0)

/-- A length fits an `i64`. -/
theorem lt_of_parseContentLength {v : List UInt8} {n : ℕ} (h : parseContentLength v = some n) : n < 2 ^ 63 := by
  have hdigits (v : List UInt8) (acc : Option ℕ) (hacc : ∀ k, acc = some k → k < 2 ^ 63) :
      ∀ k, v.foldl lengthDigit acc = some k → k < 2 ^ 63 := by
    induction v generalizing acc with
    | nil => exact hacc
    | cons c v ih =>
      refine ih (lengthDigit acc c) fun k hk => ?_
      obtain ⟨j, -, hk⟩ := Option.bind_eq_some_iff.mp hk
      split_ifs at hk with hdigit hmax
      cases hk
      omega
  unfold parseContentLength at h
  split at h
  · cases h
  · exact hdigits v (some 0) (by simp) n h

/-! ### Targets -/

/-- `Target`: the parsed `X-Mq-Target`. -/
structure Target where
  scheme : List UInt8
  authority : List UInt8
  path : List UInt8
  deriving DecidableEq

/-- The authority and what follows it. It ends at the first `/` or `?` outside brackets, and a
bracket opens only at its start. -/
def scanAuthority : (start inBrackets : Bool) → List UInt8 → Option (List UInt8 × List UInt8)
  | _, _, [] => some ([], [])
  | start, inBrackets, c :: s =>
    if c = 0x5B then
      if start then (scanAuthority false true s).map fun r => (c :: r.1, r.2) else none
    else if c = 0x5D then (scanAuthority false false s).map fun r => (c :: r.1, r.2)
    else if (c = 0x2F ∨ c = 0x3F) ∧ !inBrackets then some ([], c :: s)
    else (scanAuthority false inBrackets s).map fun r => (c :: r.1, r.2)

/-- The bytes an authority may have. -/
def authorityByteOk (bracketed : Bool) (c : UInt8) : Bool :=
  !(c == 0x40 || c == 0x23 || forbiddenUriByte c || (c == 0x5D && !bracketed))

/-- Where the search for a port starts: after the `]` of an IPv6 literal. -/
def scanFrom (auth : List UInt8) (bracketed : Bool) : Option ℕ :=
  if bracketed then
    match (auth.drop 1).findIdx? (· = 0x5D) with
    | none => none
    | some p =>
      let rb := 1 + p
      if rb = 1 then none
      else if rb + 1 < auth.length ∧ auth[rb + 1]? ≠ some 0x3A then none
      else some (rb + 1)
  else some 0

/-- The port of an authority, if it has one, is digits behind a host. -/
def portOk (auth : List UInt8) (bracketed : Bool) (start : ℕ) : Bool :=
  match (rposition 0x3A (auth.drop start)).map (· + start) with
  | none => true
  | some pc =>
    let port := auth.drop (pc + 1)
    port ≠ [] && port.all isAsciiDigit && pc ≠ 0 && (bracketed || !(auth.take pc).contains 0x3A)

/-- What `parse_target` checks on an authority. -/
def authorityOk (auth : List UInt8) : Bool :=
  let bracketed := auth.head? == some 0x5B
  auth ≠ [] && auth.length ≤ AUTHORITY_MAX && auth.all (authorityByteOk bracketed) &&
    match scanFrom auth bracketed with
    | none => false
    | some i => portOk auth bracketed i

/-- The path: `/` if there is none, and in front of a query. -/
def pathOf : List UInt8 → List UInt8
  | [] => [0x2F]
  | c :: s => if c = 0x3F then 0x2F :: c :: s else c :: s

/-- `parse_target` behind its scheme. -/
def parseTargetRest (scheme s : List UInt8) : Option Target :=
  match scanAuthority true false s with
  | none => none
  | some (authority, rest) =>
    if !authorityOk authority then none
    else if rest.any fun c => c == 0x23 || forbiddenUriByte c then none
    else if (pathOf rest).length > TARGET_PATH_MAX then none
    else some ⟨scheme, authority, pathOf rest⟩

/-- `parse_target`. -/
def parseTarget (s : List UInt8) : Option Target :=
  if (ascii "https://").isPrefixOf s then parseTargetRest (ascii "https") (s.drop 8)
  else if (ascii "http://").isPrefixOf s then parseTargetRest (ascii "http") (s.drop 7)
  else none

/-- What an accepted authority is like. -/
structure Authority (a : List UInt8) : Prop where
  ne_nil : a ≠ []
  noUserinfo : 0x40 ∉ a
  closed : a.head? ≠ some 0x5B → 0x5D ∉ a

theorem authority_of_ok {a : List UInt8} (h : authorityOk a = true) : Authority a := by
  simp only [authorityOk, Bool.and_eq_true, decide_eq_true_eq, List.all_eq_true, ne_eq] at h
  obtain ⟨⟨⟨hne, -⟩, hbytes⟩, -⟩ := h
  refine ⟨hne, fun hat => ?_, fun hopen hclose => ?_⟩
  · exact absurd (hbytes _ hat) (by simp [authorityByteOk])
  · exact absurd (hbytes _ hclose) (by simp [authorityByteOk, hopen])

theorem parseTargetRest_eq_some {scheme s : List UInt8} {t : Target} (h : parseTargetRest scheme s = some t) :
    t.scheme = scheme ∧ authorityOk t.authority = true := by
  rw [parseTargetRest] at h
  split at h
  · cases h
  · split_ifs at h with hok
    cases h
    exact ⟨rfl, by simpa using hok⟩

/-- **What `parse_target` says of an https target.** -/
theorem parseTarget_authority {s : List UInt8} {t : Target} (hs : (ascii "https://").isPrefixOf s = true)
    (h : parseTarget s = some t) : t.scheme = ascii "https" ∧ Authority t.authority := by
  rw [parseTarget, if_pos hs] at h
  obtain ⟨hscheme, hok⟩ := parseTargetRest_eq_some h
  exact ⟨hscheme, authority_of_ok hok⟩

/-! ### Header sections within the limits -/

/-- The size of a section: 32 more than its bytes for each field. -/
def sectionSize (fs : List Field) : ℕ := (fs.map fun f => f.1.length + f.2.length + 32).sum

/-- **A section is within the limits.** -/
structure Fits (fs : List Field) : Prop where
  field : ∀ f ∈ fs, f.1.length + f.2.length ≤ FIELD_MAX
  count : fs.length ≤ COUNT_MAX
  size : sectionSize fs ≤ SECTION_MAX

/-- The budget that fields have used. -/
def SectionBudget.of (fs : List Field) : SectionBudget := ⟨fs.length, sectionSize fs⟩

theorem sectionSize_append (fs : List Field) (f : Field) :
    sectionSize (fs ++ [f]) = sectionSize fs + (f.1.length + f.2.length) + 32 := by
  simp [sectionSize]
  omega

/-- **One field more fits exactly when the budget takes it.** -/
theorem SectionBudget.add_of {fs : List Field} (h : Fits fs) (f : Field) :
    (Fits (fs ++ [f]) ∧ (SectionBudget.of fs).add f.1 f.2 = some (.of (fs ++ [f]))) ∨
      (¬Fits (fs ++ [f]) ∧ (SectionBudget.of fs).add f.1 f.2 = none) := by
  have hcount := h.count
  have hsize := sectionSize_append fs f
  by_cases hfit : f.1.length + f.2.length ≤ FIELD_MAX ∧ fs.length ≠ COUNT_MAX ∧ sectionSize (fs ++ [f]) ≤ SECTION_MAX
  · obtain ⟨hfield, hne, hle⟩ := hfit
    refine .inl ⟨⟨fun g hg => ?_, ?_, hle⟩, ?_⟩
    · rcases List.mem_append.mp hg with hg | hg
      · exact h.field g hg
      · rw [List.mem_singleton.mp hg]
        exact hfield
    · rw [List.length_append, List.length_singleton]
      omega
    · rw [SectionBudget.add, if_neg (by simp only [SectionBudget.of]; omega), SectionBudget.of, SectionBudget.of,
        List.length_append, List.length_singleton, hsize]
  · refine .inr ⟨fun hfits => hfit ⟨?_, ?_, hfits.size⟩, ?_⟩
    · exact hfits.field f (by simp)
    · have := hfits.count
      rw [List.length_append, List.length_singleton] at this
      omega
    · rw [SectionBudget.add, if_pos (by simp only [SectionBudget.of]; omega)]

theorem fits_nil : Fits [] := ⟨by simp, Nat.zero_le _, Nat.zero_le _⟩

/-- Some of the fields of a section within the limits are within them too. -/
theorem Fits.sublist {fs gs : List Field} (h : Fits gs) (hsub : fs.Sublist gs) : Fits fs := by
  refine ⟨fun f hf => h.field f (hsub.subset hf), hsub.length_le.trans h.count, le_trans ?_ h.size⟩
  exact (hsub.map _).sum_le_sum fun n _ => Nat.zero_le n

theorem Fits.of_append_left {fs gs : List Field} (h : Fits (fs ++ gs)) : Fits fs :=
  h.sublist (List.sublist_append_left fs gs)

end MqProxy.Http
