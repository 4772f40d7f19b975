import MqProxy.Http.Headers

/-!
# The header section of a gateway request

`Capture::each` and `decide` of `mq-proxy/src/server/gateway/intake.rs`: the fields of an
H3 request are captured one by one, then judged in a fixed order. `split_authority` of
`mq-proxy/src/server/origin/key.rs` takes the authority of an admitted request apart.

What the `http` crate accepts as a header name and as a path is a parameter (`HttpCrate`).

`capture_spec` says what the capture of a whole section is, whatever its fields, their
order and repetition: the last value of each pseudo-header and of the token, and whether
some field was refused. `decide_ok` says what an admitted request passed.
-/

namespace MqProxy.Server

open MqProxy.Http
open MqProxy.Runtime (Host)
open MqProxy.Ingress.HttpConnect (ascii rposition parseHost)

/-- What the `http` crate accepts. -/
structure HttpCrate where
  /-- `HeaderName::from_bytes`. -/
  headerName : List UInt8 → Bool
  /-- `PathAndQuery::try_from`. -/
  pathAndQuery : List UInt8 → Bool
  /-- `Authority::try_from`. -/
  authority : List UInt8 → Bool

/-- `AUTH_CAP`. -/
def AUTH_CAP : ℕ := 511

/-- `CLASS_CAP`. -/
def CLASS_CAP : ℕ := 127

/-- `Capture`: what a header section said, before any judgement. -/
structure Capture where
  /-- FIN on the header section. -/
  fin : Bool
  method : Option (List UInt8)
  scheme : Option (List UInt8)
  authority : Option (List UInt8)
  path : Option (List UInt8)
  auth : Option (List UInt8)
  cls : Option (List UInt8)
  ver : Option HttpVer
  cl : Option ℕ
  clSeen : Bool
  badCl : Bool
  /-- The forwarded fields, in order. -/
  headers : List Field
  badHeader : Bool
  budget : SectionBudget

namespace Capture

/-- `Capture::default`. -/
def default : Capture :=
  ⟨false, none, none, none, none, none, none, none, none, false, false, [], false, .default⟩

/-- A pseudo-header counts as a field; one too many is a bad header. -/
def charge (c : Capture) (n v : List UInt8) : Capture :=
  match c.budget.add n v with
  | some budget => { c with budget }
  | none => { c with badHeader := true }

/-- `Capture::each`. -/
def each (http : HttpCrate) (c : Capture) (n v : List UInt8) : Capture :=
  let is := fun s => eqIgnoreAsciiCase n (ascii s)
  if n.head? = some 0x3A then
    if is ":method" then { c.charge n v with method := some v }
    else if is ":scheme" then { c.charge n v with scheme := some v }
    else if is ":authority" then { c.charge n v with authority := some v }
    else if is ":path" then { c.charge n v with path := some v }
    else c
  else if is "x-mq-auth" then { c with auth := some (v.take AUTH_CAP) }
  else if is "x-mq-class" then { c with cls := some (v.take CLASS_CAP) }
  else if is "x-mq-origin-protocol" then { c with ver := some (parseHttpVer v) }
  else if is "content-length" then
    match parseContentLength v with
    | some cl => if c.clSeen then { c with badCl := true } else { c with cl := some cl, clSeen := true }
    | none => { c with badCl := true, clSeen := true }
  else if is "host" || stripServer n then c
  else if !nameOk n || !valueOk v || !http.headerName n then { c with badHeader := true }
  else
    match c.budget.add n v with
    | none => { c with badHeader := true }
    | some budget => { c with budget, headers := c.headers ++ [(n, v)] }

/-- The fields of a header section, one by one. -/
def captured (http : HttpCrate) (fs : List Field) : Capture :=
  fs.foldl (fun (c : Capture) (f : Field) => c.each http f.1 f.2) Capture.default

/-- The capture of a header section. -/
def ofSection (http : HttpCrate) (fs : List Field) (fin : Bool) : Capture := { captured http fs with fin }

end Capture

/-! ### Judgement -/

/-- `Scheme`. -/
inductive Scheme where
  | http
  | https
  deriving DecidableEq

/-- `BodyKind`. -/
inductive BodyKind where
  | none
  | known (n : ℕ)
  | unknown
  deriving DecidableEq

/-- `Admitted`: what `origin.start` needs. -/
structure Admitted where
  scheme : Scheme
  authority : List UInt8
  path : List UInt8
  method : Method
  headers : List Field
  ver : HttpVer
  body : BodyKind

/-- `ReqMeta`. -/
structure ReqMeta where
  method : Method
  authority : List UInt8
  path : List UInt8
  originIsTls : Bool

/-- `Decision`. -/
structure Decision where
  /-- The token check passed. -/
  authed : Bool
  reqMeta : Option ReqMeta
  /-- The request, or a status and the text of `x-mq-error`. -/
  outcome : Except (ℕ × List UInt8) Admitted

/-- A request that is refused. -/
def Decision.reject (authed : Bool) (status : ℕ) (xmq : String) : Decision :=
  ⟨authed, none, .error (status, ascii xmq)⟩

/-- `b"Bearer "`. -/
def BEARER : List UInt8 := ascii "Bearer "

/-- `slice::strip_prefix`. -/
def stripPrefix (pfx s : List UInt8) : Option (List UInt8) :=
  if pfx.isPrefixOf s then some (s.drop pfx.length) else none

/-- The token check of `decide`. -/
def tokenOk (auth : Option (List UInt8)) (token : List UInt8) : Bool :=
  ((auth.bind (stripPrefix BEARER)).any fun t => t ≠ [] && t == token)

/-- A captured value that is not empty. -/
def field (f : Option (List UInt8)) : Option (List UInt8) := f.filter (· ≠ [])

/-- The scheme of a request. -/
def schemeOf (s : List UInt8) : Option Scheme :=
  if s = ascii "http" then some .http else if s = ascii "https" then some .https else none

/-- The bytes that a path must not have although `PathAndQuery` lets them through. -/
def PATH_REFUSED : List UInt8 := ascii "#\"<>\x7b\x7d`"

/-- The target of a request is not acceptable. -/
def badTarget (http : HttpCrate) (authority path : List UInt8) : Bool :=
  authority.length > AUTHORITY_MAX || path.length > TARGET_PATH_MAX || !uriFieldOk authority || !uriFieldOk path ||
    path.any (PATH_REFUSED.contains ·) || !http.pathAndQuery path

/-- The method of a request: not `CONNECT`, and with a path that starts with `/`. -/
def methodOf (m path : List UInt8) : Option Method :=
  (parseMethod m).filter fun m => m ≠ ascii "CONNECT" && path.head? = some 0x2F

/-- What follows the token check. -/
def Capture.decideAuthed (http : HttpCrate) (c : Capture) : Decision :=
  match field c.method, field c.scheme, field c.authority, field c.path with
  | some m, some scheme, some authority, some path =>
    match schemeOf scheme with
    | none => .reject true 400 "bad-request"
    | some scheme =>
      match methodOf m path with
      | none => .reject true 400 "bad-request"
      | some method =>
        if badTarget http authority path then .reject true 400 "bad-target"
        else
          { authed := true
            reqMeta := some ⟨method, authority, path, scheme = .https⟩
            outcome := .ok
              { scheme, authority, path, method, headers := c.headers, ver := c.ver.getD .default
                body := if c.fin then .none else c.cl.elim .unknown .known } }
  | _, _, _, _ => .reject true 400 "bad-request"

/-- `decide`. -/
def Capture.decide (http : HttpCrate) (c : Capture) (token : List UInt8) : Decision :=
  if c.badHeader then .reject false 400 "bad-header"
  else if c.badCl then .reject false 400 "bad-request"
  else if !tokenOk c.auth token then .reject false 403 "auth-failed"
  else c.decideAuthed http

/-! ### The authority of an admitted request -/

/-- The port of an authority: one to five digits, at most 65535. -/
def portOf (scheme : Scheme) : Option (List UInt8) → Option UInt16
  | none => some (if scheme = .https then 443 else 80)
  | some p =>
    if 1 ≤ p.length ∧ p.length ≤ 5 ∧ p.all isAsciiDigit then
      let v := p.foldl (fun v c => v * 10 + (c.toNat - 0x30)) 0
      if v < 65536 then some (UInt16.ofNat v) else none
    else none

/-- An authority as its host and its port: `[v6]` with only a port behind it, or the last colon. -/
def hostPort (a : List UInt8) : Option (List UInt8 × Option (List UInt8)) :=
  match a.findIdx? (· = 0x5D), a.head? == some 0x5B with
  | some close, true =>
    match a.drop (close + 1) with
    | [] => some (a.take (close + 1), none)
    | c :: p => if c = 0x3A then some (a.take (close + 1), some p) else none
  | _, _ =>
    match rposition 0x3A a with
    | some i => some (a.take i, some (a.drop (i + 1)))
    | none => some (a, none)

/-- `split_authority`. -/
def splitAuthority (scheme : Scheme) (a : List UInt8) : Option (Host × UInt16) :=
  if a.contains 0x40 then none
  else
    match hostPort a with
    | none => none
    | some (host, port) =>
      match portOf scheme port with
      | none => none
      | some port => (parseHost host).map fun host => (host, port)
/-! ### What kind of field a name is -/

/-- The kinds of fields that `Capture::each` tells apart. -/
inductive Kind where
  | method
  | scheme
  | authority
  | path
  | otherPseudo
  | auth
  | cls
  | ver
  | length
  | stripped
  | forwarded
  deriving DecidableEq

/-- The kind of a name. -/
def kindOf (n : List UInt8) : Kind :=
  let is := fun s => eqIgnoreAsciiCase n (ascii s)
  if n.head? = some 0x3A then
    if is ":method" then .method
    else if is ":scheme" then .scheme
    else if is ":authority" then .authority
    else if is ":path" then .path
    else .otherPseudo
  else if is "x-mq-auth" then .auth
  else if is "x-mq-class" then .cls
  else if is "x-mq-origin-protocol" then .ver
  else if is "content-length" then .length
  else if is "host" || stripServer n then .stripped
  else .forwarded

theorem toAsciiLowercase_eq_colon {c : UInt8} : toAsciiLowercase c = 0x3A ↔ c = 0x3A := by
  rw [toAsciiLowercase]
  grind

/-- Names that are equal but for their case start with a colon together. -/
theorem head?_of_eqIgnoreAsciiCase {n m : List UInt8} (h : eqIgnoreAsciiCase n m = true) :
    n.head? = some 0x3A ↔ m.head? = some 0x3A := by
  have hmap : n.map toAsciiLowercase = m.map toAsciiLowercase := by simpa [eqIgnoreAsciiCase] using h
  cases n with
  | nil => simp_all
  | cons a n =>
    cases m with
    | nil => simp at hmap
    | cons b m =>
      rw [List.map_cons, List.map_cons, List.cons.injEq] at hmap
      rw [List.head?_cons, List.head?_cons, Option.some.injEq, Option.some.injEq, ← toAsciiLowercase_eq_colon,
        hmap.1, toAsciiLowercase_eq_colon]

/-- A field with this name, whatever its case. -/
def named (s : String) (f : Field) : Bool := eqIgnoreAsciiCase f.1 (ascii s)

/-- Two names that differ by more than their case are not those of one field. -/
theorem named_ne {s t : String} {f : Field} (hne : eqIgnoreAsciiCase (ascii s) (ascii t) = false)
    (h : named s f = true) : eqIgnoreAsciiCase f.1 (ascii t) = false := by
  rw [← Bool.not_eq_true]
  intro ht
  simp only [named, eqIgnoreAsciiCase, beq_iff_eq] at h ht
  rw [eqIgnoreAsciiCase, ← h, ht, beq_self_eq_true] at hne
  cases hne

/-- The name that makes up a kind, for the kinds that are one name. -/
def Kind.name : Kind → Option String
  | .method => some ":method"
  | .scheme => some ":scheme"
  | .authority => some ":authority"
  | .path => some ":path"
  | .auth => some "x-mq-auth"
  | .cls => some "x-mq-class"
  | .ver => some "x-mq-origin-protocol"
  | .length => some "content-length"
  | .otherPseudo | .stripped | .forwarded => none

/-- **A kind of one name is the fields with that name.** -/
theorem kindOf_eq_iff {k : Kind} {s : String} (hk : k.name = some s) (f : Field) :
    kindOf f.1 = k ↔ named s f = true := by
  constructor
  · intro hkind
    simp only [kindOf] at hkind
    split_ifs at hkind
    all_goals
      subst hkind
      cases hk
      try assumption
  · intro h
    have hhead := head?_of_eqIgnoreAsciiCase h
    have hne := fun t (hne : eqIgnoreAsciiCase (ascii s) (ascii t) = false) => named_ne hne h
    rw [named] at h
    cases k with
    | otherPseudo | stripped | forwarded => cases hk
    | method =>
      cases hk
      simp [kindOf, hhead.mpr rfl, h]
    | scheme =>
      cases hk
      simp [kindOf, hhead.mpr rfl, h, hne ":method" (by decide)]
    | authority =>
      cases hk
      simp [kindOf, hhead.mpr rfl, h, hne ":method" (by decide), hne ":scheme" (by decide)]
    | path =>
      cases hk
      simp [kindOf, hhead.mpr rfl, h, hne ":method" (by decide), hne ":scheme" (by decide),
        hne ":authority" (by decide)]
    | auth =>
      cases hk
      simp [kindOf, mt hhead.mp (by decide), h]
    | cls =>
      cases hk
      simp [kindOf, mt hhead.mp (by decide), h, hne "x-mq-auth" (by decide)]
    | ver =>
      cases hk
      simp [kindOf, mt hhead.mp (by decide), h, hne "x-mq-auth" (by decide), hne "x-mq-class" (by decide)]
    | length =>
      cases hk
      simp [kindOf, mt hhead.mp (by decide), h, hne "x-mq-auth" (by decide), hne "x-mq-class" (by decide),
        hne "x-mq-origin-protocol" (by decide)]

/-- The value of the last field with this name. -/
def lastValue (s : String) (fs : List Field) : Option (List UInt8) := ((fs.filter (named s)).getLast?).map Prod.snd

theorem lastValue_append (s : String) (fs : List Field) (f : Field) :
    lastValue s (fs ++ [f]) = if named s f then some f.2 else lastValue s fs := by
  rw [lastValue, List.filter_append]
  split
  · next h => rw [List.filter_cons_of_pos h, List.filter_nil, List.getLast?_append, List.getLast?_singleton]; rfl
  · next h => rw [List.filter_cons_of_neg h, List.filter_nil, List.append_nil, lastValue]

/-- Whether a field has the name of a kind, by its kind. -/
theorem named_eq {k : Kind} {s : String} (hk : k.name = some s) (f : Field) : named s f = decide (kindOf f.1 = k) := by
  rw [Bool.eq_iff_iff, decide_eq_true_eq, kindOf_eq_iff hk]

/-- **`Capture::each` by the kind of the field.** -/
theorem Capture.each_eq (http : HttpCrate) (c : Capture) (n v : List UInt8) :
    c.each http n v =
      match kindOf n with
      | .method => { c.charge n v with method := some v }
      | .scheme => { c.charge n v with scheme := some v }
      | .authority => { c.charge n v with authority := some v }
      | .path => { c.charge n v with path := some v }
      | .auth => { c with auth := some (v.take AUTH_CAP) }
      | .cls => { c with cls := some (v.take CLASS_CAP) }
      | .ver => { c with ver := some (parseHttpVer v) }
      | .length =>
        match parseContentLength v with
        | some cl => if c.clSeen then { c with badCl := true } else { c with cl := some cl, clSeen := true }
        | none => { c with badCl := true, clSeen := true }
      | .otherPseudo | .stripped => c
      | .forwarded =>
        if !nameOk n || !valueOk v || !http.headerName n then { c with badHeader := true }
        else
          match c.budget.add n v with
          | none => { c with badHeader := true }
          | some budget => { c with budget, headers := c.headers ++ [(n, v)] } := by
  rw [Capture.each, kindOf]
  split_ifs <;> rfl

/-! ### A whole section -/

/-- A field that is to be forwarded but must not be. -/
def Refused (http : HttpCrate) (f : Field) : Prop :=
  kindOf f.1 = .forwarded ∧ (!nameOk f.1 || !valueOk f.2 || !http.headerName f.1) = true

/-- The fields that count against the limits: the four pseudo-headers and what is forwarded. -/
def counted (f : Field) : Bool := [Kind.method, .scheme, .authority, .path, .forwarded].contains (kindOf f.1)

/-- **No field of a section is refused**, and those that count are within the limits. -/
structure GoodFields (http : HttpCrate) (fs : List Field) : Prop where
  accepted : ∀ f ∈ fs, ¬Refused http f
  fits : Fits (fs.filter counted)

/-- **The content-length of a section is right**: at most one, and a number. -/
structure GoodLength (fs : List Field) : Prop where
  once : (fs.filter (named "content-length")).length ≤ 1
  number : ∀ f ∈ fs, named "content-length" f = true → (parseContentLength f.2).isSome = true

variable {http : HttpCrate} {fs : List Field} {f : Field}

theorem GoodFields.of_append (h : GoodFields http (fs ++ [f])) : GoodFields http fs := by
  refine ⟨fun g hg => h.accepted g (List.mem_append_left _ hg), ?_⟩
  have hfits := h.fits
  rw [List.filter_append] at hfits
  exact hfits.of_append_left

/-- A length more must be the first and a number. -/
theorem goodLength_append (fs : List Field) (f : Field) : GoodLength (fs ++ [f]) ↔ GoodLength fs ∧ (named "content-length" f = true →
    fs.any (named "content-length") = false ∧ (parseContentLength f.2).isSome = true) := by
  cases hf : named "content-length" f with
  | false =>
    have hfilter : (fs ++ [f]).filter (named "content-length") = fs.filter (named "content-length") := by simp [hf]
    simp only [Bool.false_eq_true, false_implies, and_true]
    refine ⟨fun h => ⟨hfilter ▸ h.once, fun g hg => h.number g (List.mem_append_left _ hg)⟩,
      fun h => ⟨hfilter ▸ h.once, fun g hg hname => ?_⟩⟩
    rcases List.mem_append.mp hg with hg | hg
    · exact h.number g hg hname
    · rw [List.mem_singleton.mp hg, hf] at hname
      cases hname
  | true =>
    have hfilter : (fs ++ [f]).filter (named "content-length") = fs.filter (named "content-length") ++ [f] := by
      simp [hf]
    have hnone : fs.any (named "content-length") = false ↔ (fs.filter (named "content-length")).length = 0 := by
      rw [List.length_eq_zero_iff, List.filter_eq_nil_iff, List.any_eq_false]
    simp only [true_implies, hnone]
    constructor
    · intro h
      have honce := h.once
      rw [hfilter, List.length_append, List.length_singleton] at honce
      exact ⟨⟨by omega, fun g hg => h.number g (List.mem_append_left _ hg)⟩, by omega, h.number f (by simp) hf⟩
    · rintro ⟨h, hzero, hnumber⟩
      refine ⟨by rw [hfilter, List.length_append, List.length_singleton, hzero], fun g hg hname => ?_⟩
      rcases List.mem_append.mp hg with hg | hg
      · exact h.number g hg hname
      · rw [List.mem_singleton.mp hg]
        exact hnumber

/-- What the capture of a section knows of its fields: all is well and the budget is used up to
here, or some field was refused. -/
def FieldsSeen (http : HttpCrate) (fs : List Field) (bad : Bool) (budget : SectionBudget) : Prop :=
  (bad = false ∧ GoodFields http fs ∧ budget = .of (fs.filter counted)) ∨ (bad = true ∧ ¬GoodFields http fs)

/-- A field that does not count. -/
theorem FieldsSeen.skip {bad : Bool} {budget : SectionBudget} (h : FieldsSeen http fs bad budget)
    (hf : counted f = false) : FieldsSeen http (fs ++ [f]) bad budget := by
  have hfilter : (fs ++ [f]).filter counted = fs.filter counted := by simp [hf]
  rcases h with ⟨hbad, hgood, hbudget⟩ | ⟨hbad, hgood⟩
  · refine .inl ⟨hbad, ⟨fun g hg => ?_, hfilter ▸ hgood.fits⟩, hfilter ▸ hbudget⟩
    rcases List.mem_append.mp hg with hg | hg
    · exact hgood.accepted g hg
    · rintro ⟨hkind, -⟩
      rw [List.mem_singleton.mp hg] at hkind
      simp [counted, hkind] at hf
  · exact .inr ⟨hbad, mt GoodFields.of_append hgood⟩

/-- A field that is refused. -/
theorem fieldsSeen_refused (budget : SectionBudget) (hf : Refused http f) : FieldsSeen http (fs ++ [f]) true budget :=
  .inr ⟨rfl, fun h => h.accepted f (by simp) hf⟩

/-- A field that counts, and may be one too many. -/
theorem FieldsSeen.add {bad : Bool} {budget : SectionBudget} (h : FieldsSeen http fs bad budget)
    (hf : counted f = true) (hok : ¬Refused http f) :
    (∃ budget', budget.add f.1 f.2 = some budget' ∧ FieldsSeen http (fs ++ [f]) bad budget') ∨
      (budget.add f.1 f.2 = none ∧ FieldsSeen http (fs ++ [f]) true budget) := by
  have hfilter : (fs ++ [f]).filter counted = fs.filter counted ++ [f] := by simp [hf]
  rcases h with ⟨hbad, hgood, rfl⟩ | ⟨hbad, hgood⟩
  · rcases SectionBudget.add_of hgood.fits f with ⟨hfits, hadd⟩ | ⟨hfits, hadd⟩
    · refine .inl ⟨_, hadd, .inl ⟨hbad, ⟨fun g hg => ?_, hfilter ▸ hfits⟩, congrArg _ hfilter.symm⟩⟩
      rcases List.mem_append.mp hg with hg | hg
      · exact hgood.accepted g hg
      · rw [List.mem_singleton.mp hg]
        exact hok
    · exact .inr ⟨hadd, .inr ⟨rfl, fun h => hfits (hfilter ▸ h.fits)⟩⟩
  · cases hadd : budget.add f.1 f.2 with
    | some budget' => exact .inl ⟨_, rfl, .inr ⟨hbad, mt GoodFields.of_append hgood⟩⟩
    | none => exact .inr ⟨rfl, .inr ⟨rfl, mt GoodFields.of_append hgood⟩⟩

/-- **What the capture of a section is.** -/
structure Captured (http : HttpCrate) (fs : List Field) (c : Capture) : Prop where
  method : c.method = lastValue ":method" fs
  scheme : c.scheme = lastValue ":scheme" fs
  authority : c.authority = lastValue ":authority" fs
  path : c.path = lastValue ":path" fs
  auth : c.auth = (lastValue "x-mq-auth" fs).map (List.take AUTH_CAP)
  fields : FieldsSeen http fs c.badHeader c.budget
  seen : c.clSeen = fs.any (named "content-length")
  length : c.badCl = false ↔ GoodLength fs

theorem captured_default : Captured http [] .default :=
  ⟨rfl, rfl, rfl, rfl, rfl, .inl ⟨rfl, ⟨by simp, fits_nil⟩, rfl⟩, rfl,
    ⟨fun _ => ⟨by simp, by simp⟩, fun _ => rfl⟩⟩

/-- The values of a section with one field more. -/
theorem lastValue_snoc {k : Kind} {s : String} (hk : k.name = some s) (fs : List Field) (f : Field) :
    lastValue s (fs ++ [f]) = if kindOf f.1 = k then some f.2 else lastValue s fs := by
  simp only [lastValue_append, named_eq hk, decide_eq_true_eq]

variable {c : Capture}

/-- A pseudo-header is charged to the budget and changes nothing else but its own value. -/
theorem Captured.charge (h : Captured http fs c) (hf : counted f = true) (hok : ¬Refused http f) :
    ∃ bad budget, c.charge f.1 f.2 = { c with badHeader := bad, budget := budget } ∧
      FieldsSeen http (fs ++ [f]) bad budget := by
  rw [Capture.charge]
  rcases h.fields.add hf hok with ⟨budget', hadd, hseen⟩ | ⟨hadd, hseen⟩
  · exact ⟨c.badHeader, budget', by rw [hadd], hseen⟩
  · exact ⟨true, c.budget, by rw [hadd], hseen⟩

/-- **One field more.** -/
theorem Captured.each (h : Captured http fs c) (f : Field) : Captured http (fs ++ [f]) (c.each http f.1 f.2) := by
  have hmethod := lastValue_snoc (k := .method) rfl fs f
  have hscheme := lastValue_snoc (k := .scheme) rfl fs f
  have hauthority := lastValue_snoc (k := .authority) rfl fs f
  have hpath := lastValue_snoc (k := .path) rfl fs f
  have hauth := lastValue_snoc (k := .auth) rfl fs f
  have hname := named_eq (k := .length) rfl f
  have hseen : (fs ++ [f]).any (named "content-length") = (c.clSeen || named "content-length" f) := by simp [h.seen]
  have hlength := goodLength_append fs f
  rw [← h.length, ← h.seen] at hlength
  rw [← h.method] at hmethod
  rw [← h.scheme] at hscheme
  rw [← h.authority] at hauthority
  rw [← h.path] at hpath
  rw [Capture.each_eq]
  -- for each kind, one of the values changes, or the length does, or none
  cases hkind : kindOf f.1
  all_goals
    simp only [hkind, reduceCtorEq, if_true, if_false, decide_true, decide_false]
      at hmethod hscheme hauthority hpath hauth hname
    simp only [hname, Bool.false_eq_true, false_implies, true_implies, and_true, Bool.or_false, Bool.or_true]
      at hseen hlength
    simp only
  case method | scheme | authority | path =>
    obtain ⟨bad, budget, hcharge, hfields⟩ := h.charge (f := f) (by simp [counted, hkind]) (by simp [Refused, hkind])
    rw [hcharge]
    exact ⟨hmethod.symm, hscheme.symm, hauthority.symm, hpath.symm, h.auth.trans (congrArg _ hauth.symm), hfields,
      hseen.symm, hlength.symm⟩
  case auth =>
    exact ⟨hmethod.symm, hscheme.symm, hauthority.symm, hpath.symm, by rw [hauth, Option.map_some],
      h.fields.skip (by simp [counted, hkind]), hseen.symm, hlength.symm⟩
  case cls | ver | otherPseudo | stripped =>
    exact ⟨hmethod.symm, hscheme.symm, hauthority.symm, hpath.symm, h.auth.trans (congrArg _ hauth.symm),
      h.fields.skip (by simp [counted, hkind]), hseen.symm, hlength.symm⟩
  case length =>
    have hfields := h.fields.skip (f := f) (by simp [counted, hkind])
    cases hparse : parseContentLength f.2 with
    | none =>
      refine ⟨hmethod.symm, hscheme.symm, hauthority.symm, hpath.symm, h.auth.trans (congrArg _ hauth.symm), hfields,
        hseen.symm, ?_⟩
      simp [hlength, hparse]
    | some cl =>
      simp only
      split
      · next hclSeen =>
        refine ⟨hmethod.symm, hscheme.symm, hauthority.symm, hpath.symm, h.auth.trans (congrArg _ hauth.symm), hfields,
          hclSeen.trans hseen.symm, ?_⟩
        simp [hlength, hclSeen]
      · next hclSeen =>
        refine ⟨hmethod.symm, hscheme.symm, hauthority.symm, hpath.symm, h.auth.trans (congrArg _ hauth.symm), hfields,
          hseen.symm, ?_⟩
        simp [hlength, hclSeen, hparse]
  case forwarded =>
    split
    · next hbad =>
      exact ⟨hmethod.symm, hscheme.symm, hauthority.symm, hpath.symm, h.auth.trans (congrArg _ hauth.symm),
        fieldsSeen_refused c.budget ⟨hkind, hbad⟩, hseen.symm, hlength.symm⟩
    · next hok =>
      rcases h.fields.add (by simp [counted, hkind]) (fun hr => hok hr.2) with ⟨budget', hadd, hfields⟩ | ⟨hadd, hfields⟩
      · rw [hadd]
        exact ⟨hmethod.symm, hscheme.symm, hauthority.symm, hpath.symm, h.auth.trans (congrArg _ hauth.symm), hfields,
          hseen.symm, hlength.symm⟩
      · rw [hadd]
        exact ⟨hmethod.symm, hscheme.symm, hauthority.symm, hpath.symm, h.auth.trans (congrArg _ hauth.symm), hfields,
          hseen.symm, hlength.symm⟩

/-- **The capture of a section**: the last values, and whether some field was refused. -/
theorem captured_spec (http : HttpCrate) (fs : List Field) (fin : Bool) :
    Captured http fs (Capture.ofSection http fs fin) := by
  have hcaptured : Captured http fs (Capture.captured http fs) := by
    induction fs using List.reverseRecOn with
    | nil => exact captured_default
    | append_singleton fs f ih =>
      rw [Capture.captured, List.foldl_append]
      exact ih.each f
  obtain ⟨hmethod, hscheme, hauthority, hpath, hauth, hfields, hseen, hlength⟩ := hcaptured
  exact ⟨hmethod, hscheme, hauthority, hpath, hauth, hfields, hseen, hlength⟩

/-! ### What a judgement says -/

/-- **The gate is open to a section**: no field and no length is refused, and the last token, cut
to 511 bytes, is the server's behind `Bearer `. -/
structure Authorized (http : HttpCrate) (fs : List Field) (token : List UInt8) : Prop where
  fields : GoodFields http fs
  length : GoodLength fs
  token : token ≠ [] ∧ ∃ v, lastValue "x-mq-auth" fs = some v ∧ v.take AUTH_CAP = BEARER ++ token

theorem stripPrefix_eq_some {pfx s t : List UInt8} : stripPrefix pfx s = some t ↔ s = pfx ++ t := by
  rw [stripPrefix]
  split
  · next h =>
    obtain ⟨r, rfl⟩ := List.isPrefixOf_iff_prefix.mp h
    simp
  · next h =>
    simp only [reduceCtorEq, false_iff]
    rintro rfl
    exact h (List.isPrefixOf_iff_prefix.mpr (List.prefix_append _ _))

theorem tokenOk_iff {auth : Option (List UInt8)} {token : List UInt8} :
    tokenOk auth token = true ↔ token ≠ [] ∧ auth = some (BEARER ++ token) := by
  simp only [tokenOk, Option.any_eq_true, Option.bind_eq_some_iff, stripPrefix_eq_some, Bool.and_eq_true,
    decide_eq_true_eq, beq_iff_eq, ne_eq]
  constructor
  · rintro ⟨t, ⟨v, rfl, rfl⟩, hne, rfl⟩
    exact ⟨hne, rfl⟩
  · rintro ⟨hne, rfl⟩
    exact ⟨token, ⟨_, rfl, rfl⟩, hne, rfl⟩

/-- The four values of a request, as `decide` takes them from a section. -/
structure Aimed (http : HttpCrate) (fs : List Field) (a : Admitted) : Prop where
  method : ∃ m, lastValue ":method" fs = some m ∧ parseMethod m = some a.method ∧ a.method ≠ ascii "CONNECT"
  scheme : ∃ s, lastValue ":scheme" fs = some s ∧ schemeOf s = some a.scheme
  authority : lastValue ":authority" fs = some a.authority ∧ a.authority ≠ []
  path : lastValue ":path" fs = some a.path ∧ a.path.head? = some 0x2F
  target : badTarget http a.authority a.path = false

theorem field_eq_some {f : Option (List UInt8)} {v : List UInt8} : field f = some v ↔ f = some v ∧ v ≠ [] := by
  simp only [field, Option.filter_eq_some_iff, decide_eq_true_eq]

theorem decideAuthed_authed (http : HttpCrate) (c : Capture) : (c.decideAuthed http).authed = true := by
  rw [Capture.decideAuthed]
  repeat' split
  all_goals rfl

/-- **A section is let through to the steps behind the token check exactly when the gate is open.** -/
theorem Captured.decide_authed_iff (h : Captured http fs c) {token : List UInt8} :
    (c.decide http token).authed = true ↔ Authorized http fs token := by
  have hfields : c.badHeader = false ↔ GoodFields http fs := by
    rcases h.fields with ⟨hbad, hgood, -⟩ | ⟨hbad, hgood⟩ <;> simp [hbad, hgood]
  have htoken : tokenOk c.auth token = true ↔
      token ≠ [] ∧ ∃ v, lastValue "x-mq-auth" fs = some v ∧ v.take AUTH_CAP = BEARER ++ token := by
    rw [tokenOk_iff, h.auth, Option.map_eq_some_iff]
  have hiff : Authorized http fs token ↔
      c.badHeader = false ∧ c.badCl = false ∧ tokenOk c.auth token = true := by
    rw [hfields, h.length, htoken]
    exact ⟨fun h => ⟨h.fields, h.length, h.token⟩, fun h => ⟨h.1, h.2.1, h.2.2⟩⟩
  rw [hiff, Capture.decide]
  split_ifs <;> simp_all [Decision.reject, decideAuthed_authed]

/-- What follows the token check. -/
theorem Captured.aimed (h : Captured http fs c) {a : Admitted} (hok : (c.decideAuthed http).outcome = .ok a) :
    Aimed http fs a := by
  rw [Capture.decideAuthed] at hok
  split at hok
  · next m s authority path hm hs hauthority hpath =>
    split at hok
    · cases hok
    · next scheme hscheme =>
      split at hok
      · cases hok
      · next method hmethod =>
        split at hok
        · cases hok
        · next hbad =>
          cases hok
          rw [field_eq_some] at hm hs hauthority hpath
          simp only [methodOf, Option.filter_eq_some_iff, Bool.and_eq_true, decide_eq_true_eq] at hmethod
          exact ⟨⟨m, h.method ▸ hm.1, hmethod.1, hmethod.2.1⟩, ⟨s, h.scheme ▸ hs.1, hscheme⟩,
            ⟨h.authority ▸ hauthority.1, hauthority.2⟩, ⟨h.path ▸ hpath.1, hmethod.2.2⟩, by simpa using hbad⟩
  · cases hok

/-- **What an admitted request passed.** -/
theorem Captured.decide_ok (h : Captured http fs c) {token : List UInt8} {a : Admitted}
    (hok : (c.decide http token).outcome = .ok a) : Authorized http fs token ∧ Aimed http fs a := by
  rw [← h.decide_authed_iff]
  rw [Capture.decide] at hok ⊢
  split at hok
  · cases hok
  · split at hok
    · cases hok
    · split at hok
      · cases hok
      · next hbad hlength htoken =>
        rw [if_neg hbad, if_neg hlength, if_neg htoken]
        exact ⟨decideAuthed_authed http c, h.aimed hok⟩

end MqProxy.Server
