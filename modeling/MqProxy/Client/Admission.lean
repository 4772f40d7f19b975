import MqProxy.Client.Tokens
import MqProxy.Client.Exchange

/-!
# What the client renders, the server admits

The two ends of the gateway were written apart: `render` of
`mq-proxy/src/client/exchange/wire.rs` writes the header section of a request, `Capture::each`
and `decide` of `mq-proxy/src/server/gateway/intake.rs` read it. They share the limits and the
names, but each has its own order, its own filter and its own treatment of the control fields.

A front hands over a head that it has filtered (`Fronted`); both fronts do: `fetch_head` of
`mq-proxy/src/client/gateway/head.rs` and `map_request`.

**`rendered_admitted`**: a rendered head is charged to the server's limits without ever going
over them, and the request that is admitted is the one of the head, field by field.
-/

namespace MqProxy.Client

open MqProxy.Http MqProxy.Server
open MqProxy.Ingress.HttpConnect (ascii)

/-! ### The head of a fetch request -/

/-- `h1::Head`, as far as `fetch_head` reads it. A length is at most `i64::MAX`. -/
structure H1Head where
  headers : List Field
  contentLength : Option ℕ
  bounded : ∀ n, contentLength = some n → n < 2 ^ 63

/-- `CTL_VAL_MAX`. -/
def CTL_VAL_MAX : ℕ := 1024

/-- `CACHE_TTL_MAX`. -/
def CACHE_TTL_MAX : ℕ := 31536000

/-- `parse_cache_ttl`; no step overflows a `u32`. -/
def parseCacheTtl (v : List UInt8) : ℕ :=
  (v.foldl (fun (n : Option ℕ) c => n.bind fun n =>
    if !isAsciiDigit c ∨ n * 10 + (c.toNat - 0x30) > CACHE_TTL_MAX then none else some (n * 10 + (c.toNat - 0x30)))
    (some 0)).getD 0

/-- `parse_method_upper`. -/
def parseMethodUpper (s : List UInt8) : Option Method :=
  parseMethod (s.map fun c => if 0x61 ≤ c && c ≤ 0x7A then c - 0x20 else c)

/-- `has_dup_xmq`. -/
def hasDupXmq (names : List (List UInt8)) : Bool :=
  !decide ((names.filter isXmq).Pairwise fun a b => eqIgnoreAsciiCase a b = false)

/-- The value of the first field with a name. -/
def H1Head.find (h : H1Head) (s : String) : Option (List UInt8) := (h.headers.find? (named s)).map Prod.snd

/-- `forward_cookie_requested`. -/
def H1Head.forwardCookie (h : H1Head) : Bool :=
  (h.find "x-mq-forward-cookie").any fun v => eqIgnoreAsciiCase v (ascii "true")

/-- The method of a fetch. -/
def fetchMethod : Option (List UInt8) → Except Reject Method
  | none => .ok (ascii "GET")
  | some m =>
    match (parseMethodUpper m).filter (· ≠ ascii "CONNECT") with
    | some m => .ok m
    | none => .error .badMethod

/-- The origin protocol of a fetch. -/
def fetchOriginProto : Option (List UInt8) → Except Reject (Option (HttpVer × List UInt8))
  | none | some [] => .ok none
  | some v => if parseHttpVer v = .default then .error .badOriginProto else .ok (some (parseHttpVer v, v))

/-- The cache time of a fetch. -/
def fetchCache : Option (List UInt8) → Except Reject (Option (List UInt8))
  | none | some [] => .ok none
  | some v => if parseCacheTtl v = 0 then .error .badCacheTtl else .ok (some v)

/-- The fields of a fetch that are forwarded: a control value replaces the `accept-encoding`. -/
def fetchHeaders (h : H1Head) (ae : Option (List UInt8)) : List Field :=
  h.headers.filter fun f =>
    !stripClient f.1 h.forwardCookie && !(ae.isSome && eqIgnoreAsciiCase f.1 (ascii "accept-encoding"))

/-- The body of a fetch. -/
def fetchBody : Option ℕ → BodyLen
  | none | some 0 => .empty
  | some n => .known n

/-- `fetch_head`. -/
def fetchHead (h : H1Head) : Except Reject ReqHead :=
  if hasDupXmq (h.headers.map Prod.fst) then .error .dupControl
  else
    match h.find "x-mq-auth" with
    | none => .error .missingAuth
    | some auth =>
      if auth.length ≤ 7 ∨ !BEARER.isPrefixOf auth then .error .badAuthFormat
      else
        match (h.find "x-mq-target").bind parseTarget with
        | none => .error .badTarget
        | some target => do
          let method ← fetchMethod (h.find "x-mq-method")
          let originProto ← fetchOriginProto (h.find "x-mq-origin-protocol")
          let cache ← fetchCache (h.find "x-mq-cache")
          let cls := h.find "x-mq-class"
          let ae := h.find "x-mq-accept-encoding"
          if [some auth, cls, ae].any (·.any fun v => CTL_VAL_MAX ≤ v.length) then .error .headerTooLong
          else
            let ae := ae.filter (· ≠ [])
            .ok ⟨method, target, auth, cls, originProto, cache, ae, fetchHeaders h ae, fetchBody h.contentLength⟩

/-! ### What a front hands over -/

/-- **What both fronts make sure of.** The method and the target passed their parsers, and no field
is one that the client strips. -/
structure Fronted (h : ReqHead) : Prop where
  method : ∃ s, parseMethod s = some h.method
  connect : h.method ≠ ascii "CONNECT"
  target : ∃ s, parseTarget s = some h.target
  filtered : ∃ cookie, ∀ f ∈ h.headers, stripClient f.1 cookie = false

/-- A length fits an `i64`, as both fronts make sure of too. -/
def BodyLen.Bounded (b : BodyLen) : Prop := ∀ n, b = .known n → n < 2 ^ 63

/-- A head of the MITM front. -/
theorem fronted_mapRequest {http : HttpCrate} {parts : Parts} {endStream : Bool} {sni auth : List UInt8} {h : ReqHead}
    (hmap : mapRequest http parts endStream sni auth = .ok h) : Fronted h ∧ h.body.Bounded := by
  obtain ⟨-, hheaders, -, -, -, -, hbody, hconnect, hmethod, htarget⟩ := mapRequest_ok hmap
  refine ⟨⟨⟨_, hmethod⟩, hconnect, htarget, ⟨true, ?_⟩⟩, fun n hn => lt_of_bodyLen (hn ▸ hbody)⟩
  rw [hheaders]
  exact fun f => stripClient_of_forwarded

/-- The budget that is left over when all fields were charged. -/
theorem fits_of_charged (fs : List Field) : ∀ b,
    fs.foldl (fun (b : Option SectionBudget) (f : Field) => b.bind fun b => b.add f.1 f.2) (some .default) = some b →
      Fits fs ∧ b = .of fs := by
  induction fs using List.reverseRecOn with
  | nil =>
    rintro b ⟨⟩
    exact ⟨fits_nil, rfl⟩
  | append_singleton fs f ih =>
    intro b hb
    rw [List.foldl_append, List.foldl_cons, List.foldl_nil, Option.bind_eq_some_iff] at hb
    obtain ⟨b', hb', hadd⟩ := hb
    obtain ⟨hfits, rfl⟩ := ih b' hb'
    rcases SectionBudget.add_of hfits f with ⟨hmore, heq⟩ | ⟨-, heq⟩
    · rw [heq] at hadd
      cases hadd
      exact ⟨hmore, rfl⟩
    · rw [heq] at hadd
      cases hadd

/-- A section that is rendered is the head's, and within the limits. -/
theorem render_ok {h : ReqHead} {fs : List Field} (hrender : render h = .ok fs) : fs = h.fields ∧ Fits fs := by
  rw [render] at hrender
  split at hrender
  · next hlimits =>
    cases hrender
    obtain ⟨b, hb⟩ := Option.isSome_iff_exists.mp hlimits
    exact ⟨rfl, (fits_of_charged _ b hb).1⟩
  · cases hrender

/-! ### A length as it is written and read -/

/-- One digit of a number. -/
theorem lengthDigit_digitChar {n d : ℕ} (hd : d < 10) (h : n * 10 + d < 2 ^ 63) :
    lengthDigit (some n) (UInt8.ofNat (Nat.digitChar d).toNat) = some (n * 10 + d) := by
  have hdigit : ∀ d < 10, isAsciiDigit (UInt8.ofNat (Nat.digitChar d).toNat) = true ∧
      (UInt8.ofNat (Nat.digitChar d).toNat).toNat - 0x30 = d := by decide
  obtain ⟨hok, hvalue⟩ := hdigit d hd
  rw [lengthDigit, Option.bind_some, hok, hvalue, if_neg (by decide), if_neg (by omega)]

/-- All digits of a number. -/
theorem foldl_lengthDigit (n : ℕ) (h : n < 2 ^ 63) :
    ((Nat.toDigits 10 n).map fun c => UInt8.ofNat c.toNat).foldl lengthDigit (some 0) = some n := by
  induction n using Nat.strongRecOn with
  | ind n ih =>
    rw [Nat.toDigits_eq_if (by decide)]
    split
    · next hlt =>
      have hdigit := lengthDigit_digitChar (n := 0) hlt (by omega)
      rwa [Nat.zero_mul, Nat.zero_add] at hdigit
    · next hge =>
      rw [List.map_append, List.foldl_append, ih (n / 10) (by omega) (by omega)]
      have hdigit := lengthDigit_digitChar (n := n / 10) (d := n % 10) (Nat.mod_lt _ (by decide)) (by omega)
      rwa [show n / 10 * 10 + n % 10 = n by omega] at hdigit

/-- **A length is read back as it was written.** -/
theorem parseContentLength_toString {n : ℕ} (h : n < 2 ^ 63) : parseContentLength (ascii (toString n)) = some n := by
  have hdigits : ascii (toString n) = (Nat.toDigits 10 n).map fun c => UInt8.ofNat c.toNat := by
    rw [ascii, Nat.toString_eq_ofList_toDigits, String.toList_ofList]
  have hne : (Nat.toDigits 10 n).map (fun c => UInt8.ofNat c.toNat) ≠ [] := by
    intro hnil
    have hpos := @Nat.length_toDigits_pos 10 n
    rw [List.map_eq_nil_iff.mp hnil] at hpos
    cases hpos
  rw [hdigits, parseContentLength, if_neg hne, foldl_lengthDigit n h]

/-! ### What a capture keeps -/

/-- What the capture of a section keeps besides the values and the limits: the version, the fields
to forward and the length. -/
structure Keeps (fs : List Field) (c : Capture) : Prop where
  ver : c.ver = (lastValue "x-mq-origin-protocol" fs).map parseHttpVer
  headers : c.badHeader = false → c.headers = fs.filter fun f => kindOf f.1 = .forwarded
  length : c.badCl = false → c.cl = (lastValue "content-length" fs).bind parseContentLength

variable {http : HttpCrate} {fs : List Field} {c : Capture}

/-- A pseudo-header is charged, and nothing else is kept of it here. -/
theorem Keeps.charge (h : Keeps fs c) (n v : List UInt8) : Keeps fs (c.charge n v) := by
  rw [Capture.charge]
  split
  · exact ⟨h.ver, h.headers, h.length⟩
  · refine ⟨h.ver, fun hbad => ?_, h.length⟩
    cases hbad

/-- **One field more.** -/
theorem Keeps.each (h : Keeps fs c) (f : Field) : Keeps (fs ++ [f]) (c.each http f.1 f.2) := by
  have hver := lastValue_snoc (k := .ver) rfl fs f
  have hlength := lastValue_snoc (k := .length) rfl fs f
  have hheaders : (fs ++ [f]).filter (fun f => kindOf f.1 = .forwarded) =
      (fs.filter fun f => kindOf f.1 = .forwarded) ++ if kindOf f.1 = .forwarded then [f] else [] := by
    rw [List.filter_append, List.filter_singleton, Bool.cond_decide]
  rw [Capture.each_eq]
  cases hkind : kindOf f.1
  all_goals
    simp only [hkind, reduceCtorEq, if_true, if_false, List.append_nil] at hver hlength hheaders
    simp only
  case method | scheme | authority | path =>
    have hcharge := h.charge f.1 f.2
    exact ⟨by rw [hver, hcharge.ver], fun hbad => (hcharge.headers hbad).trans hheaders.symm,
      fun hbad => by rw [hlength, hcharge.length hbad]⟩
  case auth | cls | otherPseudo | stripped =>
    exact ⟨by rw [hver, h.ver], fun hbad => (h.headers hbad).trans hheaders.symm,
      fun hbad => by rw [hlength, h.length hbad]⟩
  case ver =>
    exact ⟨by rw [hver, Option.map_some], fun hbad => (h.headers hbad).trans hheaders.symm,
      fun hbad => by rw [hlength, h.length hbad]⟩
  case length =>
    split
    · next cl hcl =>
      split
      · exact ⟨by rw [hver, h.ver], fun hbad => (h.headers hbad).trans hheaders.symm, (nomatch ·)⟩
      · exact ⟨by rw [hver, h.ver], fun hbad => (h.headers hbad).trans hheaders.symm,
          fun _ => by rw [hlength, Option.bind_some, hcl]⟩
    · exact ⟨by rw [hver, h.ver], fun hbad => (h.headers hbad).trans hheaders.symm, (nomatch ·)⟩
  case forwarded =>
    split
    · exact ⟨by rw [hver, h.ver], (nomatch ·), fun hbad => by rw [hlength, h.length hbad]⟩
    · split
      · exact ⟨by rw [hver, h.ver], (nomatch ·), fun hbad => by rw [hlength, h.length hbad]⟩
      · exact ⟨by rw [hver, h.ver], fun hbad => by rw [hheaders, ← h.headers hbad],
          fun hbad => by rw [hlength, h.length hbad]⟩

/-- **What the capture of a section keeps.** -/
theorem keeps_captured (http : HttpCrate) (fs : List Field) : Keeps fs (Capture.captured http fs) := by
  induction fs using List.reverseRecOn with
  | nil => exact ⟨rfl, fun _ => rfl, fun _ => rfl⟩
  | append_singleton fs f ih =>
    rw [Capture.captured, List.foldl_append]
    exact ih.each f

/-! ### The kinds of the rendered fields -/

theorem eqIgnoreAsciiCase_lower (n m : List UInt8) :
    eqIgnoreAsciiCase (n.map toAsciiLowercase) m = eqIgnoreAsciiCase n m := by
  rw [eqIgnoreAsciiCase, eqIgnoreAsciiCase, List.map_map]
  exact congrArg (· == _) (List.map_congr_left fun c _ => toAsciiLowercase_idem c)

/-- Names that are equal but for their case are stripped together. -/
theorem stripClient_congr {n m : List UInt8} (h : eqIgnoreAsciiCase n m = true) (cookie : Bool) :
    stripClient n cookie = stripClient m cookie := by
  have hname : ∀ k, eqIgnoreAsciiCase n k = eqIgnoreAsciiCase m k := by
    intro k
    rw [eqIgnoreAsciiCase, beq_iff_eq] at h
    rw [eqIgnoreAsciiCase, eqIgnoreAsciiCase, h]
  rw [stripClient, stripClient, isXmq_congr h, isHopByHop, isHopByHop]
  simp only [List.any_cons, List.any_nil, hname]

theorem eqIgnoreAsciiCase_lower_self (n : List UInt8) : eqIgnoreAsciiCase (n.map toAsciiLowercase) n = true := by
  rw [eqIgnoreAsciiCase_lower, eqIgnoreAsciiCase, beq_self_eq_true]

/-- A name that the client does not strip is none that it strips. -/
theorem not_eqIgnoreAsciiCase {n : List UInt8} {cookie : Bool} (h : stripClient n cookie = false) {s : String}
    (hs : stripClient (ascii s) cookie = true) : eqIgnoreAsciiCase n (ascii s) = false := by
  rw [← Bool.not_eq_true]
  intro heq
  rw [stripClient_congr heq, hs] at h
  cases h

/-- **A field that a front sends is one that the server forwards.** -/
theorem kindOf_lowered {n : List UInt8} {cookie : Bool} (hstrip : stripClient n cookie = false)
    (htoken : ∀ c ∈ n, isTchar c = true) : kindOf (n.map toAsciiLowercase) = .forwarded := by
  have hcolon : (n.map toAsciiLowercase).head? ≠ some 0x3A := by
    cases n with
    | nil => simp
    | cons c n =>
      rw [List.map_cons, List.head?_cons, ne_eq, Option.some.injEq, toAsciiLowercase_eq_colon]
      rintro rfl
      exact absurd (htoken 0x3A List.mem_cons_self) (by decide)
  have hlower : stripClient (n.map toAsciiLowercase) cookie = false := by
    rw [stripClient_congr (eqIgnoreAsciiCase_lower_self n), hstrip]
  have hnot := fun (s : String) hs => not_eqIgnoreAsciiCase hlower (s := s) hs
  have hserver : stripServer (n.map toAsciiLowercase) = false := by
    simp only [stripClient, Bool.or_eq_false_iff] at hlower
    rw [stripServer, hlower.1.1.1.1, hlower.1.1.1.2, Bool.or_self]
  simp only [kindOf, if_neg hcolon, hserver, hnot "x-mq-auth" (by cases cookie <;> decide),
    hnot "x-mq-class" (by cases cookie <;> decide), hnot "x-mq-origin-protocol" (by cases cookie <;> decide),
    hnot "content-length" (by cases cookie <;> decide), hnot "host" (by cases cookie <;> decide), Bool.or_self,
    Bool.false_eq_true, if_false]

/-! ### The target -/

/-- What follows an authority is empty, a path or a query. -/
theorem head_of_scanAuthority {start inBrackets : Bool} {s a rest : List UInt8}
    (h : scanAuthority start inBrackets s = some (a, rest)) :
    rest = [] ∨ rest.head? = some 0x2F ∨ rest.head? = some 0x3F := by
  induction s generalizing start inBrackets a with
  | nil =>
    cases h
    exact .inl rfl
  | cons c s ih =>
    rw [scanAuthority] at h
    split_ifs at h with hopen hstart hclose hend
    · obtain ⟨r, hr, heq⟩ := Option.map_eq_some_iff.mp h
      cases heq
      exact ih hr
    · obtain ⟨r, hr, heq⟩ := Option.map_eq_some_iff.mp h
      cases heq
      exact ih hr
    · cases h
      rcases hend.1 with rfl | rfl
      · exact .inr (.inl rfl)
      · exact .inr (.inr rfl)
    · obtain ⟨r, hr, heq⟩ := Option.map_eq_some_iff.mp h
      cases heq
      exact ih hr

/-- A path starts with `/` and has no bytes but those behind the authority. -/
theorem pathOf_spec {rest : List UInt8} (h : rest = [] ∨ rest.head? = some 0x2F ∨ rest.head? = some 0x3F) :
    (pathOf rest).head? = some 0x2F ∧ ∀ c ∈ pathOf rest, c = 0x2F ∨ c ∈ rest := by
  cases rest with
  | nil => exact ⟨rfl, fun c hc => .inl (List.mem_singleton.mp hc)⟩
  | cons c s =>
    rw [pathOf]
    split
    · exact ⟨rfl, fun d hd => List.mem_cons.mp hd⟩
    · next hquery =>
      rcases h with h | h | h
      · cases h
      · exact ⟨h, fun d hd => .inr hd⟩
      · exact absurd (Option.some.inj h) hquery

/-- **What `parse_target` says of a target.** -/
theorem parseTarget_ok {s : List UInt8} {t : Target} (h : parseTarget s = some t) :
    (t.scheme = ascii "http" ∨ t.scheme = ascii "https") ∧ authorityOk t.authority = true ∧
      t.path.head? = some 0x2F ∧ uriFieldOk t.path = true ∧ t.path.length ≤ TARGET_PATH_MAX := by
  have hrest : ∀ scheme s, parseTargetRest scheme s = some t → t.path.head? = some 0x2F ∧ uriFieldOk t.path = true ∧
      t.path.length ≤ TARGET_PATH_MAX := by
    intro scheme s h
    rw [parseTargetRest] at h
    split at h
    · cases h
    · next authority rest hscan =>
      split_ifs at h with hok hbytes hlength
      cases h
      obtain ⟨hhead, hmem⟩ := pathOf_spec (head_of_scanAuthority hscan)
      refine ⟨hhead, ?_, Nat.le_of_not_lt hlength⟩
      simp only [List.any_eq_true, not_exists, not_and, Bool.or_eq_true, not_or, Bool.not_eq_true] at hbytes
      rw [uriFieldOk, Bool.not_eq_true', List.any_eq_false]
      intro c hc
      rw [Bool.not_eq_true]
      rcases hmem c hc with rfl | hc
      · decide
      · exact (hbytes c hc).2
  rw [parseTarget] at h
  split_ifs at h
  · exact ⟨.inr (parseTargetRest_eq_some h).1, (parseTargetRest_eq_some h).2, hrest _ _ h⟩
  · exact ⟨.inl (parseTargetRest_eq_some h).1, (parseTargetRest_eq_some h).2, hrest _ _ h⟩

/-- The bytes of an authority that was accepted. -/
theorem uriFieldOk_of_authorityOk {a : List UInt8} (h : authorityOk a = true) :
    a ≠ [] ∧ a.length ≤ AUTHORITY_MAX ∧ uriFieldOk a = true := by
  simp only [authorityOk, Bool.and_eq_true, decide_eq_true_eq, List.all_eq_true] at h
  obtain ⟨⟨⟨hne, hlength⟩, hbytes⟩, -⟩ := h
  refine ⟨hne, hlength, ?_⟩
  rw [uriFieldOk, Bool.not_eq_true', List.any_eq_false]
  intro c hc
  have hbyte := hbytes c hc
  simp only [authorityByteOk, Bool.not_eq_true', Bool.or_eq_false_iff] at hbyte
  rw [hbyte.1.2]
  exact Bool.false_ne_true

/-! ### Admission -/

/-- What the server admits of a body. -/
def sentBody : BodyLen → BodyKind
  | .empty | .known 0 => .none
  | .known n => .known n
  | .unknown => .unknown

/-- The upload of a new exchange is over at once exactly when there is no body. -/
theorem upOf_eq_done (b : BodyLen) : Exchanges.upOf b = .done ↔ sentBody b = .none := by
  cases b with
  | empty => exact ⟨fun _ => rfl, fun _ => rfl⟩
  | unknown => exact ⟨(nomatch ·), (nomatch ·)⟩
  | known n =>
    cases n with
    | zero => exact ⟨fun _ => rfl, fun _ => rfl⟩
    | succ n => simp [Exchanges.upOf, sentBody]

/-- The names and values of a head that are valid: names are tokens, values have no control bytes. -/
structure ValidFields (h : ReqHead) : Prop where
  names : ∀ f ∈ h.headers, f.1 ≠ [] ∧ ∀ c ∈ f.1, isTchar c = true
  values : ∀ f ∈ h.headers, valueOk f.2 = true
  acceptEncoding : ∀ v, h.acceptEncoding = some v → valueOk v = true

/-- The path check of the server. -/
def pathAllowed (http : HttpCrate) (path : List UInt8) : Bool :=
  !path.any (PATH_REFUSED.contains ·) && http.pathAndQuery path

/-- The `http` crate takes every token that is not too long for a name. -/
def TakesTokens (http : HttpCrate) : Prop :=
  ∀ n : List UInt8, n ≠ [] → (∀ c ∈ n, isTchar c = true) → n.length < 2 ^ 16 → http.headerName n = true

/-- The fields that are forwarded: the optional `accept-encoding`, then those of the front. -/
def ReqHead.forwarded (h : ReqHead) : List Field := optional "accept-encoding" h.acceptEncoding ++ h.lowered

/-- A token stays one in lower case, and has no control bytes. -/
theorem tchar_lower {c : UInt8} (h : isTchar c = true) :
    isTchar (toAsciiLowercase c) = true ∧ (0x20 ≤ toAsciiLowercase c && toAsciiLowercase c != 0x7F) = true := by
  have hbytes : ∀ b < 256, isTchar (UInt8.ofNat b) = true → isTchar (toAsciiLowercase (UInt8.ofNat b)) = true ∧
      (0x20 ≤ toAsciiLowercase (UInt8.ofNat b) && toAsciiLowercase (UInt8.ofNat b) != 0x7F) = true := by decide +kernel
  have hc := hbytes c.toNat c.toNat_lt
  rw [UInt8.ofNat_toNat] at hc
  exact hc h

/-- A field that may be there is of the kind of its name. -/
theorem filter_kind_optional (s : String) (v : Option (List UInt8)) :
    (optional s v).filter (fun f => kindOf f.1 = .forwarded) =
      if kindOf (ascii s) = .forwarded then optional s v else [] := by
  cases v with
  | none => rw [optional, Option.map_none, Option.toList_none, List.filter_nil, ite_self]
  | some v => rw [optional, Option.map_some, Option.toList_some, List.filter_singleton, Bool.cond_decide]

section Admitted

variable {h : ReqHead} {cookie : Bool}

/-- The fields of a rendered head that are to be forwarded. -/
theorem filter_forwarded (hstrip : ∀ f ∈ h.headers, stripClient f.1 cookie = false) (hvalid : ValidFields h) :
    h.fields.filter (fun f => kindOf f.1 = .forwarded) = h.forwarded := by
  have hlowered : h.lowered.filter (fun f => kindOf f.1 = .forwarded) = h.lowered := by
    rw [List.filter_eq_self]
    intro f hf
    obtain ⟨g, hg, rfl⟩ := List.mem_map.mp hf
    exact decide_eq_true (kindOf_lowered (hstrip g hg) (hvalid.names g hg).2)
  rw [fields_eq]
  simp only [List.filter_append, hlowered, filter_kind_optional]
  rw [if_neg (by decide), if_neg (by decide), if_neg (by decide), if_pos (by decide), if_neg (by decide),
    List.append_nil]
  rfl

/-- None of them is refused. -/
theorem not_refused (hstrip : ∀ f ∈ h.headers, stripClient f.1 cookie = false) (hvalid : ValidFields h)
    (htokens : TakesTokens http) (hfits : Fits h.fields) {f : Field} (hf : f ∈ h.fields) : ¬Refused http f := by
  rintro ⟨hkind, hbad⟩
  have hmem : f ∈ h.forwarded := by
    rw [← filter_forwarded hstrip hvalid]
    exact List.mem_filter.mpr ⟨hf, decide_eq_true hkind⟩
  have hsize := hfits.field f hf
  rw [FIELD_MAX] at hsize
  -- the name is a token and the value is valid, for the control field as for the front's
  have hname : f.1 ≠ [] ∧ (∀ c ∈ f.1, isTchar c = true) ∧ nameOk f.1 = true ∧ valueOk f.2 = true := by
    rcases List.mem_append.mp hmem with hmem | hmem
    · rw [optional, Option.mem_toList, Option.map_eq_some_iff] at hmem
      obtain ⟨v, hv, rfl⟩ := hmem
      have hname : ascii "accept-encoding" ≠ [] ∧ (∀ c ∈ ascii "accept-encoding", isTchar c = true) ∧
          nameOk (ascii "accept-encoding") = true := by decide +kernel
      exact ⟨hname.1, hname.2.1, hname.2.2, hvalid.acceptEncoding v hv⟩
    · obtain ⟨g, hg, rfl⟩ := List.mem_map.mp hmem
      obtain ⟨hne, htoken⟩ := hvalid.names g hg
      refine ⟨by simpa using hne, ?_, ?_, hvalid.values g hg⟩
      · intro c hc
        obtain ⟨d, hd, rfl⟩ := List.mem_map.mp hc
        exact (tchar_lower (htoken d hd)).1
      · rw [nameOk, List.all_eq_true]
        intro c hc
        obtain ⟨d, hd, rfl⟩ := List.mem_map.mp hc
        exact (tchar_lower (htoken d hd)).2
  obtain ⟨hne, htoken, hok, hvalue⟩ := hname
  rw [hok, hvalue, htokens f.1 hne htoken (by omega)] at hbad
  cases hbad

/-- The values of a rendered head. -/
theorem lastValue_rendered (hstrip : ∀ f ∈ h.headers, stripClient f.1 cookie = false) (hvalid : ValidFields h) :
    lastValue ":method" h.fields = some h.method ∧ lastValue ":scheme" h.fields = some h.target.scheme ∧
      lastValue ":authority" h.fields = some h.target.authority ∧ lastValue ":path" h.fields = some h.target.path ∧
      lastValue "x-mq-origin-protocol" h.fields = h.originProto.map Prod.snd ∧
      h.fields.filter (named "content-length") = optional "content-length" (lengthField h.body) := by
  have hlowered : ∀ {k : Kind} {s : String}, k.name = some s → h.lowered.filter (named s) = [] := by
    intro k s hk
    rw [List.filter_eq_nil_iff]
    intro f hf hnamed
    obtain ⟨g, hg, rfl⟩ := List.mem_map.mp hf
    have hkind := (kindOf_eq_iff hk _).mpr hnamed
    rw [kindOf_lowered (hstrip g hg) (hvalid.names g hg).2] at hkind
    subst hkind
    cases hk
  simp only [lastValue]
  rw [fields_eq]
  simp only [List.filter_append, filter_optional, hlowered (k := .method) rfl, hlowered (k := .scheme) rfl,
    hlowered (k := .authority) rfl, hlowered (k := .path) rfl, hlowered (k := .ver) rfl, hlowered (k := .length) rfl]
  refine ⟨rfl, rfl, rfl, rfl, ?_, ?_⟩
  · cases h.originProto <;> rfl
  · exact List.append_nil _

/-- The length of a rendered head is read back as it was written. -/
theorem goodLength_rendered (hlength : h.fields.filter (named "content-length") =
      optional "content-length" (lengthField h.body)) (hbound : h.body.Bounded) :
    GoodLength h.fields ∧
      (if sentBody h.body = .none then BodyKind.none
        else ((lastValue "content-length" h.fields).bind parseContentLength).elim .unknown .known) = sentBody h.body := by
  have hnumber : ∀ v, lengthField h.body = some v → ∃ n, parseContentLength v = some n ∧ sentBody h.body = .known n := by
    intro v hv
    cases hbody : h.body with
    | empty | unknown =>
      rw [hbody] at hv
      cases hv
    | known n =>
      rw [hbody] at hv
      cases n with
      | zero => cases hv
      | succ n =>
        cases hv
        exact ⟨n + 1, parseContentLength_toString (hbound _ hbody), rfl⟩
  have hnone : lengthField h.body = none → sentBody h.body = .none ∨ sentBody h.body = .unknown := by
    intro hv
    cases hbody : h.body with
    | empty => exact .inl rfl
    | unknown => exact .inr rfl
    | known n =>
      rw [hbody] at hv
      cases n with
      | zero => exact .inl rfl
      | succ n => cases hv
  rw [lastValue, hlength]
  cases hfield : lengthField h.body with
  | none =>
    rw [hfield] at hlength
    refine ⟨⟨by rw [hlength]; exact Nat.zero_le _, fun f hf hname => ?_⟩, ?_⟩
    · have hmem := List.mem_filter.mpr ⟨hf, hname⟩
      rw [hlength] at hmem
      cases hmem
    · rcases hnone hfield with hbody | hbody <;> rw [hbody] <;> rfl
  | some v =>
    obtain ⟨n, hn, hbody⟩ := hnumber v hfield
    rw [hfield] at hlength
    refine ⟨⟨by rw [hlength]; exact le_refl 1, fun f hf hname => ?_⟩, ?_⟩
    · have hmem := List.mem_filter.mpr ⟨hf, hname⟩
      rw [hlength] at hmem
      rw [List.mem_singleton.mp hmem, hn]
      rfl
    · rw [hbody, if_neg BodyKind.noConfusion]
      change ((some v).bind parseContentLength).elim _ _ = _
      rw [Option.bind_some, hn]
      rfl

end Admitted

/-- A capture that passes every check is admitted. -/
theorem decide_admits {token m s authority path : List UInt8} {scheme : Scheme} (hbad : c.badHeader = false)
    (hcl : c.badCl = false) (htoken : tokenOk c.auth token = true) (hm : field c.method = some m)
    (hs : field c.scheme = some s) (ha : field c.authority = some authority) (hp : field c.path = some path)
    (hscheme : schemeOf s = some scheme) (hmethod : methodOf m path = some m)
    (htarget : badTarget http authority path = false) :
    c.decide http token =
      { authed := true
        reqMeta := some ⟨m, authority, path, scheme = .https⟩
        outcome := .ok
          { scheme, authority, path, method := m, headers := c.headers, ver := c.ver.getD .default
            body := if c.fin then .none else c.cl.elim .unknown .known } } := by
  rw [Capture.decide, hbad, hcl, htoken, if_neg Bool.false_ne_true, if_neg Bool.false_ne_true, if_neg (by decide),
    Capture.decideAuthed, hm, hs, ha, hp]
  simp only [hscheme, hmethod, htarget, Bool.false_eq_true, if_false]

/-- **What the client renders, the server admits unchanged.** The section that goes out with a FIN
exactly when there is no body never goes over the server's limits, and the request that `decide`
admits has the method, the target, the fields and the body of the head. -/
theorem rendered_admitted {http : HttpCrate} (htokens : TakesTokens http) {h : ReqHead} {fs : List Field}
    {token : List UInt8} (hrender : render h = .ok fs) (hfront : Fronted h) (hvalid : ValidFields h) (hbound : h.body.Bounded)
    (hpath : pathAllowed http h.target.path = true) (hne : token ≠ []) (hauth : h.auth = BEARER ++ serverToken token) :
    (∀ {O : Type} (t : Exchanges O) conn owner id sent,
      XCall.sendHeaders id fs (sentBody h.body = .none) ∈ (t.openReq conn h owner (some id) sent).2.1) ∧
    (∀ gs, gs <+: fs → (Capture.captured http gs).badHeader = false) ∧
    ∃ scheme, schemeOf h.target.scheme = some scheme ∧
      (Capture.ofSection http fs (sentBody h.body = .none)).decide http (serverToken token) =
        { authed := true
          reqMeta := some ⟨h.method, h.target.authority, h.target.path, scheme = .https⟩
          outcome := .ok
            { scheme, authority := h.target.authority, path := h.target.path, method := h.method
              headers := h.forwarded, ver := (h.originProto.map fun v => parseHttpVer v.2).getD .default
              body := sentBody h.body } } := by
  have hsection := hrender
  obtain ⟨rfl, hfits⟩ := render_ok hrender
  obtain ⟨cookie, hstrip⟩ := hfront.filtered
  obtain ⟨hmethod, hscheme, hauthority, hpath', hver, hlength⟩ := lastValue_rendered hstrip hvalid
  obtain ⟨hgood, hbody⟩ := goodLength_rendered hlength hbound
  have hfields : GoodFields http h.fields :=
    ⟨fun f => not_refused hstrip hvalid htokens hfits, hfits.sublist List.filter_sublist⟩
  have hclean : ∀ gs, gs <+: h.fields → (Capture.captured http gs).badHeader = false := by
    intro gs hgs
    have hgood : GoodFields http gs :=
      ⟨fun f hf => hfields.accepted f (hgs.subset hf), hfields.fits.sublist (hgs.sublist.filter _)⟩
    rcases (captured_spec http gs false).fields with ⟨hbad, -⟩ | ⟨-, hnot⟩
    · exact hbad
    · exact absurd hgood hnot
  refine ⟨fun t conn owner id sent => ?_, hclean, ?_⟩
  · rw [Exchanges.openReq, hsection]
    simp only [upOf_eq_done]
    cases sent <;> simp
  -- the capture, value by value
  have hcaptured := captured_spec http h.fields (sentBody h.body = .none)
  have hkeeps := keeps_captured http h.fields
  have hbad := hclean h.fields List.prefix_rfl
  have hcl : (Capture.captured http h.fields).badCl = false := hcaptured.length.mpr hgood
  have htoken : tokenOk (Capture.ofSection http h.fields (sentBody h.body = .none)).auth (serverToken token) = true := by
    rw [tokenOk_iff, hcaptured.auth, lastValue_fields fun f hf => isXmq_of_stripClient (hstrip f hf), hauth,
      Option.map_some, List.take_of_length_le]
    · exact ⟨serverToken_ne_nil hne, rfl⟩
    · rw [List.length_append, length_BEARER, serverToken_eq, List.length_take, AUTH_CAP, MAX_TOKEN]
      omega
  -- the target passes the server's checks
  obtain ⟨s, hs⟩ := hfront.target
  obtain ⟨hschemes, hok, hhead, huri, hsize⟩ := parseTarget_ok hs
  obtain ⟨hauthorityNe, hauthoritySize, hauthorityUri⟩ := uriFieldOk_of_authorityOk hok
  obtain ⟨m, hm⟩ := hfront.method
  obtain ⟨scheme, hschemeOf⟩ : ∃ scheme, schemeOf h.target.scheme = some scheme := by
    rcases hschemes with hscheme | hscheme <;> rw [hscheme]
    · exact ⟨.http, rfl⟩
    · exact ⟨.https, rfl⟩
  refine ⟨scheme, hschemeOf, ?_⟩
  have hschemeNe : h.target.scheme ≠ [] := by
    rcases hschemes with hscheme | hscheme <;> rw [hscheme] <;> decide
  have hparse : parseMethod h.method = some h.method := by rwa [← eq_of_parseMethod hm] at hm
  have hmethodNe : h.method ≠ [] := by
    intro hnil
    rw [hnil] at hparse
    cases hparse
  have hpathNe : h.target.path ≠ [] := by
    intro hnil
    rw [hnil] at hhead
    cases hhead
  have hmethodOf : methodOf h.method h.target.path = some h.method := by
    rw [methodOf, hparse, Option.filter_eq_some_iff, hhead]
    exact ⟨rfl, by simpa using hfront.connect⟩
  have htarget : badTarget http h.target.authority h.target.path = false := by
    rw [pathAllowed, Bool.and_eq_true, Bool.not_eq_true'] at hpath
    rw [badTarget, hauthorityUri, huri, hpath.1, hpath.2, decide_eq_false (Nat.not_lt.mpr hauthoritySize),
      decide_eq_false (Nat.not_lt.mpr hsize)]
    rfl
  have hdecide := decide_admits (c := Capture.ofSection http h.fields (sentBody h.body = .none)) hbad hcl htoken
    (field_eq_some.mpr ⟨hcaptured.method.trans hmethod, hmethodNe⟩)
    (field_eq_some.mpr ⟨hcaptured.scheme.trans hscheme, hschemeNe⟩)
    (field_eq_some.mpr ⟨hcaptured.authority.trans hauthority, hauthorityNe⟩)
    (field_eq_some.mpr ⟨hcaptured.path.trans hpath', hpathNe⟩) hschemeOf hmethodOf htarget
  have hheaders : (Capture.captured http h.fields).headers = h.forwarded :=
    (hkeeps.headers hbad).trans (filter_forwarded hstrip hvalid)
  have hversion : (Capture.captured http h.fields).ver = h.originProto.map fun v => parseHttpVer v.2 := by
    rw [hkeeps.ver, hver, Option.map_map]
    rfl
  rw [hdecide]
  simp only [Capture.ofSection, hheaders, hversion, hkeeps.length hcl, decide_eq_true_eq, hbody]

/-- A request for `https://a.b/x` with a field of the caller and one of the front. -/
def formHead (auth : List UInt8) (body : BodyLen) : ReqHead :=
  ⟨ascii "POST", ⟨ascii "https", ascii "a.b", ascii "/x"⟩, auth, none, none, none, some (ascii "gzip"),
    [(ascii "Accept", ascii "*/*")], body⟩

theorem fronted_formHead (auth : List UInt8) (body : BodyLen) : Fronted (formHead auth body) := by
  refine ⟨⟨ascii "POST", rfl⟩, ?_, ⟨ascii "https://a.b/x", rfl⟩, ⟨false, ?_⟩⟩
  · show ascii "POST" ≠ ascii "CONNECT"
    decide
  · show ∀ f ∈ [(ascii "Accept", ascii "*/*")], stripClient f.1 false = false
    decide

theorem validFields_formHead (auth : List UInt8) (body : BodyLen) : ValidFields (formHead auth body) := by
  have hfields : ∀ f ∈ [(ascii "Accept", ascii "*/*")],
      (f.1 ≠ [] ∧ ∀ c ∈ f.1, isTchar c = true) ∧ valueOk f.2 = true := by decide +kernel
  refine ⟨fun f hf => (hfields f hf).1, fun f hf => (hfields f hf).2, ?_⟩
  rintro v ⟨⟩
  decide

/-- A form of twelve bytes is admitted. -/
theorem rendered_admitted_form :
    ∃ fs, render (formHead (ascii "Bearer t") (.known 12)) = .ok fs ∧
      ∃ scheme, schemeOf (ascii "https") = some scheme ∧
        (Capture.ofSection ⟨fun _ => true, fun _ => true, fun _ => true⟩ fs false).decide
          ⟨fun _ => true, fun _ => true, fun _ => true⟩ (serverToken (ascii "t")) =
          { authed := true
            reqMeta := some ⟨ascii "POST", ascii "a.b", ascii "/x", scheme = .https⟩
            outcome := .ok
              { scheme, authority := ascii "a.b", path := ascii "/x", method := ascii "POST"
                headers := (formHead (ascii "Bearer t") (.known 12)).forwarded, ver := .default
                body := .known 12 } } := by
  have htokens : TakesTokens ⟨fun _ => true, fun _ => true, fun _ => true⟩ := fun _ _ _ _ => rfl
  have hrender : render (formHead (ascii "Bearer t") (.known 12)) = .ok _ := if_pos (by decide)
  have hne : ascii "t" ≠ [] := by decide
  have hadmitted := rendered_admitted htokens hrender (fronted_formHead _ _) (validFields_formHead _ _)
    (by intro n hn; cases hn; decide) (by decide) hne (by decide)
  exact ⟨_, hrender, hadmitted.2.2⟩

/-- A head that meets what is asked of a front, is rendered, and is refused. -/
def TurnedAway (token : List UInt8) (h : ReqHead) : Prop :=
  Fronted h ∧ ValidFields h ∧ pathAllowed ⟨fun _ => true, fun _ => true, fun _ => true⟩ h.target.path = true ∧
    h.auth = BEARER ++ serverToken token ∧
    ∃ fs, render h = .ok fs ∧
      ((Capture.ofSection ⟨fun _ => true, fun _ => true, fun _ => true⟩ fs (sentBody h.body = .none)).decide
        ⟨fun _ => true, fun _ => true, fun _ => true⟩ (serverToken token)).authed = false

/-- Neither the empty token passes nor a length past `i64::MAX`. -/
theorem head_refused : TurnedAway [] (formHead BEARER .empty) ∧
    TurnedAway (ascii "t") (formHead (ascii "Bearer t") (.known (2 ^ 63))) :=
  ⟨⟨fronted_formHead _ _, validFields_formHead _ _, by decide, by decide, _, if_pos (by decide), by decide +kernel⟩,
    ⟨fronted_formHead _ _, validFields_formHead _ _, by decide, by decide, _, if_pos (by decide +kernel),
      by decide +kernel⟩⟩

end MqProxy.Client
