import MqProxy.Client.Admission

/-!
# The request path before it was split

`fetch_head` parses the head of a fetch, `render` writes its fields and charges them to the limits.
Before the two were split one pass did both, on a head that kept the raw control values. That pass is
kept in the tests of `mq-proxy/src/client/gateway/head.rs` (`sp3`), as what the split path is
compared with. It also cut its list off after 72 fields.

**`split_path_frozen`**: for every head of at most 64 fields both give the same reject or the same
list of fields, and the list is never cut off: the token and the target are two fields that are not
forwarded, which leaves room for the ten that may be written ahead of the forwarded ones.
-/

namespace MqProxy.Client

open MqProxy.Http MqProxy.Server
open MqProxy.Ingress.HttpConnect (ascii)

/-! ### The frozen path -/

namespace Sp3

/-- `h1::MAX_HEADERS`. -/
def MAX_HEADERS : ℕ := 64

/-- `MAX_FWD`. -/
def MAX_FWD : ℕ := MAX_HEADERS + 8

/-- `Head`: the control values are raw. -/
structure Head where
  method : Option (List UInt8)
  target : Option (List UInt8)
  headers : List Field
  contentLength : ℕ
  auth : Option (List UInt8)
  originProto : Option (List UInt8)
  cache : Option (List UInt8)
  cls : Option (List UInt8)
  acceptEncoding : Option (List UInt8)
  forwardCookie : Bool

/-- `Head::from_h1`. -/
def Head.fromH1 (h : H1Head) : Head :=
  ⟨h.find "x-mq-method", h.find "x-mq-target", h.headers, h.contentLength.getD 0, h.find "x-mq-auth",
    h.find "x-mq-origin-protocol", h.find "x-mq-cache", h.find "x-mq-class", h.find "x-mq-accept-encoding",
    h.forwardCookie⟩

/-- `Checked`. -/
structure Checked where
  method : Method
  target : Target
  httpVer : HttpVer
  cacheTtl : ℕ
  auth : List UInt8

/-- The version of a fetch. -/
def version : Option (List UInt8) → Except Reject HttpVer
  | none | some [] => .ok .default
  | some v => if parseHttpVer v = .default then .error .badOriginProto else .ok (parseHttpVer v)

/-- The cache time of a fetch. -/
def ttl : Option (List UInt8) → Except Reject ℕ
  | none | some [] => .ok 0
  | some v => if parseCacheTtl v = 0 then .error .badCacheTtl else .ok (parseCacheTtl v)

/-- `forwarded_headers`, before it is cut off. -/
def listed (head : Head) (c : Checked) : List Field :=
  let ae := head.acceptEncoding.filter (· ≠ [])
  [(ascii ":method", c.method), (ascii ":scheme", c.target.scheme), (ascii ":authority", c.target.authority),
      (ascii ":path", c.target.path), (ascii "x-mq-auth", c.auth)] ++
    optional "x-mq-class" head.cls ++
    (if c.httpVer ≠ .default then optional "x-mq-origin-protocol" head.originProto else []) ++
    (if c.cacheTtl ≠ 0 then optional "x-mq-cache" head.cache else []) ++
    optional "accept-encoding" ae ++
    optional "content-length" (if head.contentLength > 0 then some (ascii (toString head.contentLength)) else none) ++
    (head.headers.filter fun f => !(stripClient f.1 head.forwardCookie ||
      (ae.isSome && eqIgnoreAsciiCase f.1 (ascii "accept-encoding")))).map fun f => (f.1.map toAsciiLowercase, f.2)

/-- `forwarded_headers`. -/
def forwardedHeaders (head : Head) (c : Checked) : List Field := (listed head c).take MAX_FWD

/-- `check`, up to the size of the section. -/
def parsed (head : Head) : Except Reject Checked :=
  if hasDupXmq (head.headers.map Prod.fst) then .error .dupControl
  else
    match head.auth with
    | none => .error .missingAuth
    | some auth =>
      if auth.length ≤ 7 ∨ !BEARER.isPrefixOf auth then .error .badAuthFormat
      else
        match head.target.bind parseTarget with
        | none => .error .badTarget
        | some target => do
          let method ← fetchMethod head.method
          let httpVer ← version head.originProto
          let cacheTtl ← ttl head.cache
          if [head.auth, head.cls, head.acceptEncoding].any (·.any fun v => CTL_VAL_MAX ≤ v.length) then
            .error .headerTooLong
          else .ok ⟨method, target, httpVer, cacheTtl, auth⟩

/-- `check`. -/
def check (head : Head) : Except Reject Checked := do
  let checked ← parsed head
  if withinLimits (forwardedHeaders head checked) then .ok checked else .error .headerTooLong

/-- The reject or the fields of the frozen path. -/
def wire (h : H1Head) : Except Reject (List Field) := do
  let checked ← check (.fromH1 h)
  .ok (forwardedHeaders (.fromH1 h) checked)

end Sp3

/-! ### The values of the two paths -/

open Sp3

/-- Two paths that refuse for the same reason, or go on with values that belong together. -/
def Agree {α β : Type} (R : α → β → Prop) : Except Reject α → Except Reject β → Prop
  | .ok a, .ok b => R a b
  | .error e, .error e' => e = e'
  | _, _ => False

section Agree

variable {α β γ δ : Type} {R : α → β → Prop} {S : γ → δ → Prop}

/-- **Paths that agree step by step agree.** -/
theorem Agree.bind {x : Except Reject α} {y : Except Reject β} {f : α → Except Reject γ} {g : β → Except Reject δ}
    (h : Agree R x y) (hnext : ∀ a b, R a b → Agree S (f a) (g b)) : Agree S (x >>= f) (y >>= g) := by
  cases x <;> cases y
  case ok.ok a b => exact hnext a b h
  case error.error => exact h
  all_goals cases h

/-- A check that both paths make. -/
theorem Agree.check {p : Prop} [Decidable p] {e : Reject} {x : Except Reject α} {y : Except Reject β}
    (h : Agree R x y) : Agree R (if p then .error e else x) (if p then .error e else y) := by
  split
  · rfl
  · exact h

theorem Agree.eq {x y : Except Reject α} (h : Agree Eq x y) : x = y := by
  cases x <;> cases y
  case ok.ok | error.error => exact congrArg _ h
  all_goals cases h

theorem agree_refl (x : Except Reject α) : Agree Eq x x := by
  cases x <;> rfl

end Agree

/-- The split path keeps the version that it renders, the frozen one tells from the parsed version
whether to list the raw one. -/
theorem agree_originProto (v : Option (List UInt8)) :
    Agree (fun proto ver => proto.map Prod.snd = if ver ≠ .default then v else none) (fetchOriginProto v)
      (version v) := by
  rcases v with - | - | ⟨c, v⟩
  · rfl
  · rfl
  · simp only [fetchOriginProto, version]
    split
    · rfl
    · next hver => exact (if_pos hver).symm

/-- The same of the cache time. -/
theorem agree_cache (v : Option (List UInt8)) :
    Agree (fun cache time => cache = if time ≠ 0 then v else none) (fetchCache v) (ttl v) := by
  rcases v with - | - | ⟨c, v⟩
  · rfl
  · rfl
  · simp only [fetchCache, ttl]
    split
    · rfl
    · next httl => exact (if_pos httl).symm

theorem optional_ite (s : String) (v : Option (List UInt8)) (p : Prop) [Decidable p] :
    (if p then optional s v else []) = optional s (if p then v else none) := by
  split <;> rfl

theorem length_optional_le (s : String) (v : Option (List UInt8)) : (optional s v).length ≤ 1 := by
  cases v <;> simp [optional]

/-- The length of a fetch is announced by both paths, or by none. -/
theorem lengthField_fetchBody (cl : Option ℕ) :
    lengthField (fetchBody cl) = if cl.getD 0 > 0 then some (ascii (toString (cl.getD 0))) else none := by
  rcases cl with - | - | n <;> rfl

/-- **The lists are the same** where the values are. -/
theorem fields_eq_listed {h : H1Head} {method : Method} {target : Target} {auth : List UInt8}
    {proto : Option (HttpVer × List UInt8)} {cache : Option (List UInt8)} {ver : HttpVer} {time : ℕ}
    (hproto : proto.map Prod.snd = if ver ≠ .default then h.find "x-mq-origin-protocol" else none)
    (hcache : cache = if time ≠ 0 then h.find "x-mq-cache" else none) :
    let ae := (h.find "x-mq-accept-encoding").filter (· ≠ [])
    ReqHead.fields ⟨method, target, auth, h.find "x-mq-class", proto, cache, ae, fetchHeaders h ae,
      fetchBody h.contentLength⟩ = listed (.fromH1 h) ⟨method, target, ver, time, auth⟩ := by
  simp only [fields_eq, listed, Head.fromH1, ReqHead.first, ReqHead.lowered, fetchHeaders, hproto, hcache, optional_ite,
    lengthField_fetchBody, Bool.not_or]
  rfl

/-! ### Nothing is cut off -/

/-- Both fields that every fetch needs are stripped. -/
theorem length_forwarded_add_two {h : H1Head} {auth target : List UInt8} (hauth : h.find "x-mq-auth" = some auth)
    (htarget : h.find "x-mq-target" = some target) (p : Field → Bool)
    (hp : ∀ f ∈ h.headers, isXmq f.1 = true → p f = false) : (h.headers.filter p).length + 2 ≤ h.headers.length := by
  obtain ⟨f, hf, -⟩ := Option.map_eq_some_iff.mp hauth
  obtain ⟨g, hg, -⟩ := Option.map_eq_some_iff.mp htarget
  have hfname : eqIgnoreAsciiCase f.1 (ascii "x-mq-auth") = true := List.find?_some (p := named _) hf
  have hgname : eqIgnoreAsciiCase g.1 (ascii "x-mq-target") = true := List.find?_some (p := named _) hg
  have hne : f ≠ g := by
    rintro rfl
    rw [eqIgnoreAsciiCase, beq_iff_eq] at hfname hgname
    exact absurd (hfname.symm.trans hgname) (by decide)
  have hmem : [f, g] ⊆ h.headers :=
    List.cons_subset.mpr ⟨List.mem_of_find?_eq_some hf, List.cons_subset.mpr ⟨List.mem_of_find?_eq_some hg, List.nil_subset _⟩⟩
  have htwo := (List.subperm_of_subset (by simpa using hne) hmem).countP_le (fun f : Field => isXmq f.1)
  have hfown : isXmq f.1 = true := isXmq_congr hfname
  have hgown : isXmq g.1 = true := isXmq_congr hgname
  have hall := List.length_eq_countP_add_countP p (l := h.headers)
  have hstripped : h.headers.countP (fun f : Field => isXmq f.1) ≤ h.headers.countP fun f => !p f :=
    List.countP_mono_left fun f hf hown => by rw [hp f hf hown]; rfl
  rw [← List.countP_eq_length_filter]
  simp only [List.countP_cons, List.countP_nil, hfown, hgown, if_true, Bool.not_eq_true, Bool.decide_eq_false] at *
  omega

/-- **A list is never cut off.** -/
theorem length_listed_le {h : H1Head} {auth target : List UInt8} (hauth : h.find "x-mq-auth" = some auth)
    (htarget : h.find "x-mq-target" = some target) (hcount : h.headers.length ≤ MAX_HEADERS) (c : Checked) :
    (listed (.fromH1 h) c).length ≤ MAX_FWD := by
  have hforwarded := length_forwarded_add_two hauth htarget
    (fun f => !(stripClient f.1 h.forwardCookie ||
      (((h.find "x-mq-accept-encoding").filter (· ≠ [])).isSome && eqIgnoreAsciiCase f.1 (ascii "accept-encoding"))))
    (fun f _ hown => by simp [stripClient, hown])
  have hlength := length_optional_le "content-length"
    (if (Head.fromH1 h).contentLength > 0 then some (ascii (toString (Head.fromH1 h).contentLength)) else none)
  have hcls := length_optional_le "x-mq-class" (h.find "x-mq-class")
  have hproto := length_optional_le "x-mq-origin-protocol"
    (if c.httpVer ≠ .default then h.find "x-mq-origin-protocol" else none)
  have hcache := length_optional_le "x-mq-cache" (if c.cacheTtl ≠ 0 then h.find "x-mq-cache" else none)
  have hae := length_optional_le "accept-encoding" ((h.find "x-mq-accept-encoding").filter (· ≠ []))
  simp only [listed, Head.fromH1, optional_ite, List.length_append, List.length_map, List.length_cons,
    List.length_nil] at hlength ⊢
  rw [MAX_HEADERS] at hcount
  rw [MAX_FWD, MAX_HEADERS]
  omega

/-! ### The paths agree -/

/-- Step by step, both paths refuse for the same reason or go on to the same list. -/
theorem agree_parsed {h : H1Head} (hcount : h.headers.length ≤ MAX_HEADERS) :
    Agree (fun head c => head.fields = listed (.fromH1 h) c ∧ (listed (.fromH1 h) c).length ≤ MAX_FWD) (fetchHead h)
      (parsed (.fromH1 h)) := by
  rw [fetchHead, parsed]
  refine Agree.check ?_
  cases hauth : h.find "x-mq-auth" with
  | none =>
    simp only [Head.fromH1, hauth]
    rfl
  | some auth =>
    simp only [Head.fromH1, hauth]
    refine Agree.check ?_
    cases htarget : (h.find "x-mq-target").bind parseTarget with
    | none => rfl
    | some target =>
      obtain ⟨t, hfind, -⟩ := Option.bind_eq_some_iff.mp htarget
      refine (agree_refl _).bind ?_
      rintro method _ rfl
      refine (agree_originProto _).bind fun proto ver hproto => ?_
      refine (agree_cache _).bind fun cache time hcache => ?_
      refine Agree.check ?_
      exact ⟨fields_eq_listed hproto hcache, length_listed_le hauth hfind hcount _⟩

/-- **The split request path is the frozen one.** For every head of at most 64 fields, as many as
`parse_head` takes, `fetch_head` and `render` give the reject or the fields that the frozen path gives,
and no list that the frozen path makes of such a head is long enough to be cut off. -/
theorem split_path_frozen (h : H1Head) (hcount : h.headers.length ≤ MAX_HEADERS) :
    (fetchHead h >>= render) = wire h ∧
      ∀ c, parsed (.fromH1 h) = .ok c → (listed (.fromH1 h) c).length ≤ MAX_FWD := by
  have hagree := agree_parsed hcount
  constructor
  · rw [wire, check, bind_assoc]
    refine (hagree.bind fun head c hc => ?_).eq
    have hall : Sp3.forwardedHeaders (.fromH1 h) c = head.fields := by
      rw [Sp3.forwardedHeaders, List.take_of_length_le hc.2, hc.1]
    rw [render, hall]
    split
    · exact hall.symm
    · rfl
  · intro c hc
    rw [hc] at hagree
    cases hfetch : fetchHead h with
    | error e =>
      rw [hfetch] at hagree
      cases hagree
    | ok head =>
      rw [hfetch] at hagree
      exact hagree.2

/-- A fetch with a token, a target and a field to forward. -/
def plainFetch : H1Head :=
  ⟨[(ascii "X-Mq-Auth", ascii "Bearer k"), (ascii "X-Mq-Target", ascii "https://h/p"), (ascii "Accept", ascii "a")], none,
    by simp⟩

theorem split_path_frozen_plain : plainFetch.headers.length ≤ MAX_HEADERS ∧
    (fetchHead plainFetch >>= render) = wire plainFetch ∧ (wire plainFetch).toOption.map List.length = some 6 :=
  ⟨by decide, (split_path_frozen plainFetch (by decide)).1, by decide +kernel⟩

end MqProxy.Client
