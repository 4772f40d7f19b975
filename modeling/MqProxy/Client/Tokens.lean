import MqProxy.Client.MitmHead
import MqProxy.Client.Request
import MqProxy.Server.Auth

/-!
# The token of the client and of the server

A client and a server are given one token. The client cuts it to 255 bytes for the
AUTH_REQUEST of its raw tunnel (`Client::new`), the server cuts it to 255 bytes for both
of its checks (`Server::new`, `with_gateway`), and the MITM front puts `auth_value` of the
token as it was given into `x-mq-auth` of every request (`Mitm::new`).

**`tokens_agree`** says where these meet: on the raw tunnel always; at the gateway, for a
token of at most 255 bytes that does not start with `Bearer `, and for one other text.
-/

namespace MqProxy.Client

open MqProxy.Wire MqProxy.Http MqProxy.Server MqProxy.Library
open MqProxy.Ingress.HttpConnect (ascii)

/-! ### The raw tunnel -/

/-- `truncated`. -/
def truncated (s : List UInt8) (max : ℕ) : List UInt8 := s.take (min s.length max)

/-- The AUTH_REQUEST of `on_established`. -/
def authReq (clientId token : List UInt8) : AuthReq :=
  { version := 1, clientId := truncated clientId MAX_CLIENT_ID, authToken := truncated token MAX_TOKEN, features := 0 }

/-- A frame as it is sent: written into a buffer of `MAX_FRAME` bytes, which is then cut. -/
def encoded (encode : List UInt8 → Except EncodeError (ℕ × List UInt8)) : Option (List UInt8) :=
  match encode (List.replicate MAX_FRAME 0) with
  | .ok (n, tx) => some (tx.take n)
  -- `expect("fields are truncated to their limits")`
  | .error _ => none

/-- What `on_established` sends on the control stream. -/
def authRequest (clientId token : List UInt8) : Option (List UInt8) := encoded (authReq clientId token).encode

/-- A frame that can be written is sent as its bytes. -/
theorem encoded_eq {φ : Type} {writer : φ → Encoder ℕ} {reader : Decoder (φ × ℕ)} {bytes : φ → List UInt8}
    {Encodable : φ → Prop} (F : Format writer reader bytes Encodable MAX_FRAME) {f : φ} (hf : Encodable f) :
    encoded (fun out => encodeWith (writer f) out) = some (bytes f) := by
  have hout : (bytes f).length ≤ (List.replicate MAX_FRAME (0 : UInt8)).length := by
    rw [List.length_replicate]
    exact F.bounded hf
  simp only [encoded, F.encodeWith_eq hf hout, take_splice_zero]

theorem authReq_encodable (clientId token : List UInt8) : (authReq clientId token).Encodable := by
  have hone : (1 : UInt64) ≤ Varint.MAX := by decide
  have hzero : (0 : UInt64) ≤ Varint.MAX := by decide
  refine ⟨hone, ?_, ?_, hzero⟩
  · simp [authReq, truncated]
  · simp [authReq, truncated, MAX_TOKEN, MAX_AUTH_TOKEN]

/-- **The client sends a frame that its server accepts.** -/
theorem authRequest_accepted (clientId token : List UInt8) :
    ∃ frame, authRequest clientId token = some frame ∧ Accepted (serverToken token) frame := by
  have hok := authReq_encodable clientId token
  have hread := decode_bytes_of_format AuthReq.format hok []
  rw [List.append_nil] at hread
  exact ⟨_, encoded_eq AuthReq.format hok, ⟨_, hread, rfl⟩, AuthReq.format.bounded hok⟩

/-! ### What the MITM front sends -/

theorem toAsciiLowercase_idem (c : UInt8) : toAsciiLowercase (toAsciiLowercase c) = toAsciiLowercase c := by
  rw [toAsciiLowercase, toAsciiLowercase]
  grind

/-- Whether a name is one of the proxy's own does not depend on its case. -/
theorem isXmq_congr {n m : List UInt8} (h : eqIgnoreAsciiCase n m = true) : isXmq n = isXmq m := by
  rw [eqIgnoreAsciiCase, beq_iff_eq] at h
  have hlength : n.length = m.length := by
    have := congrArg List.length h
    rwa [List.length_map, List.length_map] at this
  rw [isXmq, isXmq, hasPrefixCi, hasPrefixCi, hlength, eqIgnoreAsciiCase, eqIgnoreAsciiCase, List.map_take, h,
    List.map_take]

/-- No field that the client strips is forwarded. -/
theorem stripClient_of_forwarded {map : HeaderMap} {f : Field} (h : f ∈ forwardedHeaders map) :
    stripClient f.1 true = false := by
  have hstep : ∀ fs out : List Field, (∀ f ∈ out, stripClient f.1 true = false) →
      ∀ f ∈ fs.foldl (forwardField map) out, stripClient f.1 true = false := by
    intro fs
    induction fs with
    | nil => exact fun out hout => hout
    | cons g fs ih =>
      intro out hout
      apply ih
      intro f hf
      rw [forwardField] at hf
      split at hf
      · split at hf
        · exact hout f hf
        · rcases List.mem_append.mp hf with hf | hf
          · exact hout f hf
          · rw [List.mem_singleton.mp hf]
            rfl
      · split at hf
        · exact hout f hf
        · next hstrip =>
          rcases List.mem_append.mp hf with hf | hf
          · exact hout f hf
          · rw [List.mem_singleton.mp hf]
            exact Bool.not_eq_true _ ▸ hstrip
  exact hstep _ [] (by simp) f h

/-- What the client does not strip is none of the proxy's own fields. -/
theorem isXmq_of_stripClient {n : List UInt8} {cookie : Bool} (h : stripClient n cookie = false) : isXmq n = false := by
  simp only [stripClient, Bool.or_eq_false_iff] at h
  exact h.1.1.1.2

/-- The first fields of a rendered head, which are always there. -/
def ReqHead.first (h : ReqHead) : List Field :=
  [(ascii ":method", h.method), (ascii ":scheme", h.target.scheme), (ascii ":authority", h.target.authority),
    (ascii ":path", h.target.path), (ascii "x-mq-auth", h.auth)]

/-- The field of a name that may be there. -/
def optional (s : String) (v : Option (List UInt8)) : List Field := (v.map fun v => (ascii s, v)).toList

/-- The length of a body that is announced. -/
def lengthField : BodyLen → Option (List UInt8)
  | .known (n + 1) => some (ascii (toString (n + 1)))
  | _ => none

/-- The fields of the front, as they are rendered. -/
def ReqHead.lowered (h : ReqHead) : List Field := h.headers.map fun f => (f.1.map toAsciiLowercase, f.2)

/-- The fields of a rendered head, name by name. -/
theorem fields_eq (h : ReqHead) : h.fields = h.first ++ optional "x-mq-class" h.cls ++
    optional "x-mq-origin-protocol" (h.originProto.map Prod.snd) ++ optional "x-mq-cache" h.cache ++
    optional "accept-encoding" h.acceptEncoding ++ optional "content-length" (lengthField h.body) ++ h.lowered := by
  rw [ReqHead.fields]
  cases h.body with
  | empty | unknown => rfl
  | known n => cases n <;> rfl

/-- A field that may be there has its own name only. -/
theorem filter_optional (s t : String) (v : Option (List UInt8)) :
    (optional s v).filter (named t) = if eqIgnoreAsciiCase (ascii s) (ascii t) then optional s v else [] := by
  cases v with
  | none => rw [optional, Option.map_none, Option.toList_none, List.filter_nil, ite_self]
  | some v => rw [optional, Option.map_some, Option.toList_some, List.filter_singleton, named, Bool.cond_eq_ite]

/-- A rendered field has the name of the front's field. -/
theorem named_lowered {h : ReqHead} {s : String} {f : Field} (hf : f ∈ h.lowered) (hs : named s f = true) :
    ∃ g ∈ h.headers, f = (g.1.map toAsciiLowercase, g.2) ∧ named s g = true := by
  obtain ⟨g, hg, rfl⟩ := List.mem_map.mp hf
  refine ⟨g, hg, rfl, ?_⟩
  simpa only [named, eqIgnoreAsciiCase, List.map_map, Function.comp_def, toAsciiLowercase_idem] using hs

/-- The fields of the front have none of the names that it does not send. -/
theorem filter_lowered {h : ReqHead} {s : String} (hs : ∀ f ∈ h.headers, named s f = false) :
    h.lowered.filter (named s) = [] := by
  rw [List.filter_eq_nil_iff]
  intro f hf hnamed
  obtain ⟨g, hg, -, hname⟩ := named_lowered hf hnamed
  rw [hs g hg] at hname
  cases hname

/-- **The token of a rendered section is the one of the head.** -/
theorem lastValue_fields {h : ReqHead} (hxmq : ∀ f ∈ h.headers, isXmq f.1 = false) :
    lastValue "x-mq-auth" h.fields = some h.auth := by
  have hheaders : ∀ f ∈ h.headers, named "x-mq-auth" f = false := by
    intro f hf
    rw [← Bool.not_eq_true]
    intro hnamed
    have hown : isXmq f.1 = true := isXmq_congr hnamed
    rw [hxmq f hf] at hown
    cases hown
  rw [lastValue, fields_eq]
  simp only [List.filter_append, filter_lowered hheaders, filter_optional]
  rfl

/-! ### Where the two agree -/

/-- The text that repeats `Bearer ` over 262 bytes. -/
def BEARERS : List UInt8 := (List.replicate 38 BEARER).flatten.take 262

/-- **The tokens that both take for the same**: those that need no cut and have no `Bearer ` of
their own, and the one text that its own cut and prefix restore. -/
def Shared (token : List UInt8) : Prop := (token.length ≤ MAX_TOKEN ∧ ¬BEARER <+: token) ∨ token = BEARERS

/-- A text that starts over after a prefix repeats it. -/
theorem prefix_repeats {p l : List UInt8} (h : l <+: p ++ l) (k : ℕ) : l <+: (List.replicate k p).flatten ++ l := by
  induction k with
  | zero => exact List.prefix_rfl
  | succ k ih =>
    have hstep : p ++ l <+: p ++ ((List.replicate k p).flatten ++ l) := (List.prefix_append_right_inj p).mpr ih
    rw [List.replicate_succ, List.flatten_cons, List.append_assoc]
    exact h.trans hstep

theorem length_BEARER : BEARER.length = 7 := rfl

/-- The token that has the prefix agrees only if the cut one, prefixed, is the same text. -/
theorem eq_BEARERS {token : List UInt8} (h : token.take AUTH_CAP = BEARER ++ token.take MAX_TOKEN) :
    token = BEARERS := by
  have hlength := congrArg List.length h
  simp only [List.length_take, List.length_append, length_BEARER, AUTH_CAP, MAX_TOKEN] at hlength
  have h262 : token.length = 262 := by omega
  rw [List.take_of_length_le (by rw [h262]; decide)] at h
  have hprefix : token <+: BEARER ++ token := by
    have : BEARER ++ token.take MAX_TOKEN <+: BEARER ++ token :=
      (List.prefix_append_right_inj BEARER).mpr (List.take_prefix _ _)
    rwa [← h] at this
  have hrepeats := prefix_repeats hprefix 38
  have htake := List.prefix_iff_eq_take.mp hrepeats
  rwa [h262, List.take_append_of_le_length (by simp [length_BEARER])] at htake

/-- **What the front sends is what the gateway expects, exactly for a shared token.** -/
theorem authValue_iff (token : List UInt8) :
    (authValue token).take AUTH_CAP = BEARER ++ serverToken token ↔ Shared token := by
  rw [serverToken_eq, authValue, Shared]
  by_cases hbearer : BEARER <+: token
  · rw [if_pos (List.isPrefixOf_iff_prefix.mpr hbearer)]
    constructor
    · exact fun h => .inr (eq_BEARERS h)
    · rintro (⟨-, hno⟩ | rfl)
      · exact absurd hbearer hno
      · decide +kernel
  · rw [if_neg (mt List.isPrefixOf_iff_prefix.mp hbearer)]
    have hcut : (BEARER ++ token).take AUTH_CAP = BEARER ++ token.take (AUTH_CAP - 7) := by
      rw [List.take_append, List.take_of_length_le (by decide), length_BEARER]
    rw [hcut, List.append_cancel_left_eq]
    constructor
    · intro h
      have hlength := congrArg List.length h
      simp only [List.length_take, AUTH_CAP, MAX_TOKEN] at hlength
      exact .inl ⟨by rw [MAX_TOKEN]; omega, hbearer⟩
    · rintro (⟨hle, -⟩ | rfl)
      · rw [List.take_of_length_le hle, List.take_of_length_le (hle.trans (by decide))]
      · exact absurd ⟨_, rfl⟩ hbearer

/-- What the gateway captures of the token, for a request of the MITM front. -/
theorem auth_of_render {http : HttpCrate} {parts : Parts} {endStream : Bool} {sni auth : List UInt8} {h : ReqHead}
    {fs : List Field} (hmap : mapRequest http parts endStream sni auth = .ok h) (hrender : render h = .ok fs)
    (fin : Bool) : (Capture.ofSection http fs fin).auth = some (auth.take AUTH_CAP) := by
  obtain ⟨hauth, hheaders, -⟩ := mapRequest_ok hmap
  have hxmq : ∀ f ∈ h.headers, isXmq f.1 = false := by
    rw [hheaders]
    exact fun f hf => isXmq_of_stripClient (stripClient_of_forwarded hf)
  rw [render] at hrender
  split at hrender
  · cases hrender
    rw [(captured_spec http h.fields fin).auth, lastValue_fields hxmq, hauth]
    rfl
  · cases hrender

theorem serverToken_ne_nil {token : List UInt8} (h : token ≠ []) : serverToken token ≠ [] := by
  cases token with
  | nil => exact absurd rfl h
  | cons c token => simp [serverToken_eq, MAX_TOKEN]

/-- **A client and a server with one token agree**: on the raw tunnel whatever the token is, and
whatever cuts the stream makes; at the gateway, on every request of the MITM front, exactly for a
shared token. -/
theorem tokens_agree {token : List UInt8} (hne : token ≠ []) :
    (∀ clientId, ∃ frame, authRequest clientId token = some frame ∧
      ∀ inc n, Clean false inc → ends inc = false → frame <+: payload inc → weight inc ≤ n →
        ∃ inc', authCalls (serverToken token) n [] inc = some (.judged true, inc')) ∧
    ∀ http parts endStream sni h fs fin, mapRequest http parts endStream sni (authValue token) = .ok h →
      render h = .ok fs → (tokenOk (Capture.ofSection http fs fin).auth (serverToken token) = true ↔ Shared token) := by
  constructor
  · intro clientId
    obtain ⟨frame, hrequest, haccepted⟩ := authRequest_accepted clientId token
    refine ⟨frame, hrequest, fun inc n hclean hopened hframe hn => ?_⟩
    have hpos : 0 < frame.length := by
      obtain ⟨r, hdecode, -⟩ := haccepted.decoded
      rw [List.length_pos_iff]
      rintro rfl
      cases hdecode
    exact authCalls_accepts haccepted ⟨List.nil_prefix, hpos, hclean, hopened, hframe⟩ hn
  · intro http parts endStream sni h fs fin hmap hrender
    rw [auth_of_render hmap hrender, tokenOk_iff, Option.some.injEq, authValue_iff,
      and_iff_right (serverToken_ne_nil hne)]

/-- A browser's request for `https://a.b/`. -/
def rootRequest : Parts :=
  ⟨ascii "GET", some (ascii "https"), some (ascii "a.b"), some (ascii "/"), ⟨[], List.forall_mem_nil _⟩⟩

/-- The head that the request is mapped to. -/
def rootHead (auth : List UInt8) : ReqHead :=
  ⟨ascii "GET", ⟨ascii "https", ascii "a.b", ascii "/"⟩, auth, none, none, none, none, [], .empty⟩

theorem mapRequest_root (http : HttpCrate) (auth : List UInt8) :
    mapRequest http rootRequest true (ascii "a.b") auth = .ok (rootHead auth) := rfl

theorem render_root {auth : List UInt8} (h : withinLimits (rootHead auth).fields = true) :
    render (rootHead auth) = .ok (rootHead auth).fields := if_pos h

/-- The one-letter token passes. -/
theorem tokens_agree_short :
    ∃ h fs, mapRequest ⟨fun _ => true, fun _ => true, fun _ => true⟩ rootRequest true (ascii "a.b")
        (authValue (ascii "t")) = .ok h ∧
      render h = .ok fs ∧
      tokenOk (Capture.ofSection ⟨fun _ => true, fun _ => true, fun _ => true⟩ fs true).auth
        (serverToken (ascii "t")) = true := by
  have hrender := @render_root (authValue (ascii "t")) (by decide)
  have hagree := (@tokens_agree (ascii "t") (by decide)).2 ⟨fun _ => true, fun _ => true, fun _ => true⟩
  exact ⟨_, _, mapRequest_root _ _, hrender,
    (hagree _ _ _ _ _ _ (mapRequest_root _ _) hrender).mpr (.inl ⟨by decide, by decide⟩)⟩

/-- The request is rendered with the token, and the gateway refuses it. -/
def RootRefused (token : List UInt8) : Prop :=
  ∃ h fs, mapRequest ⟨fun _ => true, fun _ => true, fun _ => true⟩ rootRequest true (ascii "a.b")
      (authValue token) = .ok h ∧
    render h = .ok fs ∧
    tokenOk (Capture.ofSection ⟨fun _ => true, fun _ => true, fun _ => true⟩ fs true).auth (serverToken token) = false

theorem rootRefused_of {token : List UInt8} (hlimits : withinLimits (rootHead (authValue token)).fields = true)
    (hne : (authValue token).take AUTH_CAP ≠ BEARER ++ serverToken token) : RootRefused token := by
  have hrender := render_root hlimits
  refine ⟨_, _, mapRequest_root _ _, hrender, ?_⟩
  rw [auth_of_render (mapRequest_root _ _) hrender, ← Bool.not_eq_true, tokenOk_iff, Option.some.injEq]
  exact fun h => hne h.2

/-- Neither a token of 256 bytes nor one that starts with `Bearer ` passes. -/
theorem token_refused : RootRefused (List.replicate 256 0x74) ∧ RootRefused (ascii "Bearer t") :=
  ⟨rootRefused_of (by decide +kernel) (by decide +kernel), rootRefused_of (by decide +kernel) (by decide +kernel)⟩

end MqProxy.Client
