import MqProxy.Client.Exchange
import MqProxy.Library.Lines

/-!
# No header injection

Both ends of the gateway copy header fields of a peer that may be hostile. The server
forwards fields of an H3 request to the origin, the client renders an H3 response as the
HTTP/1.1 head of `write_status`, `write_header` (`mq-http/src/h1.rs`) and `render_head`
(`mq-proxy/src/client/gateway/download.rs`).

**`no_header_injection`**: no field that is let through has a line break or a NUL, none is
one that only one hop may set, and the rendered head, taken apart at its line breaks, is the
status line, a line for each field, and the lines of the renderer.
-/

namespace MqProxy.Http

open MqProxy.Library
open MqProxy.Ingress.HttpConnect (ascii)

/-! ### The serializer -/

/-- `b"\r\n"`. -/
def CRLF : List UInt8 := [0x0D, 0x0A]

/-- CR, LF and NUL. -/
def isCtl (c : UInt8) : Bool := c == 0x0D || c == 0x0A || c == 0

/-- The status line. -/
def statusLine (code : ℕ) (reason : String) : List UInt8 :=
  ascii "HTTP/1.1 " ++ ascii (toString code) ++ ascii " " ++ ascii reason

/-- A header line: name, colon, space, value. -/
def headerLine (name value : List UInt8) : List UInt8 := name ++ ascii ": " ++ value

/-- `write_status`. -/
def writeStatus (out : List UInt8) (code : ℕ) (reason : String) : List UInt8 := out ++ statusLine code reason ++ CRLF

/-- `write_header`; `none` is `BadHeaderBytes`. -/
def writeHeader (out name value : List UInt8) : Option (List UInt8) :=
  if (name ++ value).any isCtl then none else some (out ++ headerLine name value ++ CRLF)

/-- A text without CR, LF and NUL. -/
def Clean (s : List UInt8) : Prop := ∀ c ∈ s, isCtl c = false

theorem clean_append {s t : List UInt8} : Clean (s ++ t) ↔ Clean s ∧ Clean t := by
  simp only [Clean, List.mem_append]
  exact ⟨fun h => ⟨fun c hc => h c (Or.inl hc), fun c hc => h c (Or.inr hc)⟩,
    fun h c hc => hc.elim (h.1 c) (h.2 c)⟩

theorem clean_ascii {s : String} (h : (ascii s).any isCtl = false) : Clean (ascii s) := by
  intro c hc
  rw [List.any_eq_false] at h
  simpa using h c hc

theorem Clean.not_mem {s : List UInt8} (h : Clean s) {c : UInt8} (hc : isCtl c = true) : c ∉ s := by
  intro hmem
  rw [h c hmem] at hc
  cases hc

/-- A number has only digits. -/
theorem clean_toString (n : ℕ) : Clean (ascii (toString n)) := by
  have hdigits : (toString n).toList = Nat.toDigits 10 n := by
    rw [Nat.toString_eq_ofList_toDigits, String.toList_ofList]
  intro c hc
  rw [ascii, hdigits, List.mem_map] at hc
  obtain ⟨d, hd, rfl⟩ := hc
  have hdigit := Nat.isDigit_of_mem_toDigits (by decide) (by decide) hd
  simp only [Char.isDigit, Bool.and_eq_true, decide_eq_true_eq] at hdigit
  obtain ⟨hlow, hhigh⟩ := hdigit
  have hlow : 48 ≤ d.toNat := hlow
  have hhigh : d.toNat ≤ 57 := hhigh
  have hval : (UInt8.ofNat d.toNat).toNat = d.toNat := by
    rw [UInt8.toNat_ofNat']
    omega
  simp only [isCtl, Bool.or_eq_false_iff, beq_eq_false_iff_ne, ne_eq, ← UInt8.toNat_inj, hval]
  refine ⟨⟨?_, ?_⟩, ?_⟩ <;> simp <;> omega

theorem clean_statusLine (code : ℕ) : Clean (statusLine code "") := by
  simp only [statusLine, clean_append]
  exact ⟨⟨⟨clean_ascii (by decide), clean_toString code⟩, clean_ascii (by decide)⟩, clean_ascii (by decide)⟩

/-- **What `write_header` writes**: one more line, and a clean one. -/
theorem writeHeader_unlines {ls : List (List UInt8)} {name value out : List UInt8}
    (h : writeHeader (unlines 0x0D 0x0A ls) name value = some out) :
    out = unlines 0x0D 0x0A (ls ++ [headerLine name value]) ∧ Clean (headerLine name value) := by
  unfold writeHeader at h
  split at h
  · cases h
  · next hany =>
    cases h
    have hclean : Clean (name ++ value) := by
      intro c hc
      rw [Bool.not_eq_true, List.any_eq_false] at hany
      simpa using hany c hc
    rw [clean_append] at hclean
    refine ⟨(unlines_concat _ _).symm, ?_⟩
    simp only [headerLine, clean_append]
    exact ⟨⟨hclean.1, clean_ascii (by decide)⟩, hclean.2⟩

end MqProxy.Http

namespace MqProxy.Client

open MqProxy.Http MqProxy.Library MqProxy.Server
open MqProxy.Ingress.HttpConnect (ascii)

/-! ### The response head of a fetch -/

/-- `RESP_RENDER_MAX`. -/
def RESP_RENDER_MAX : ℕ := SECTION_MAX + 1024

/-- The value that is rendered: the content-length of a `HEAD` fetch is `0`. -/
def renderedValue (fetchMethodIsHead : Bool) (f : Field) : List UInt8 :=
  if fetchMethodIsHead && eqIgnoreAsciiCase f.1 (ascii "content-length") then ascii "0" else f.2

/-- `render_head`; `none` is `Malformed`. -/
def renderHead (h : RespHead) (fetchMethodIsHead : Bool) : Option (List UInt8) := do
  let o := writeStatus [] h.status ""
  let o ← h.headers.foldlM (fun o f => writeHeader o f.1 (renderedValue fetchMethodIsHead f)) o
  let o ← (if h.hasCl then some o else writeHeader o (ascii "Transfer-Encoding") (ascii "chunked"))
  let o ← writeHeader o (ascii "Connection") (ascii "close")
  let o := o ++ CRLF
  if o.length > RESP_RENDER_MAX then none else some o

/-- The lines of a rendered head. -/
def headLines (h : RespHead) (fetchMethodIsHead : Bool) : List (List UInt8) :=
  statusLine h.status "" :: h.headers.map (fun f => headerLine f.1 (renderedValue fetchMethodIsHead f)) ++
    (if h.hasCl then [] else [headerLine (ascii "Transfer-Encoding") (ascii "chunked")]) ++
    [headerLine (ascii "Connection") (ascii "close"), []]

/-- A text of clean lines, each with its end. -/
def Written (ls : List (List UInt8)) (out : List UInt8) : Prop := out = unlines 0x0D 0x0A ls ∧ ∀ l ∈ ls, Clean l

theorem Written.header {ls : List (List UInt8)} {out out' name value : List UInt8} (h : Written ls out)
    (hw : writeHeader out name value = some out') : Written (ls ++ [headerLine name value]) out' := by
  obtain ⟨rfl, hclean⟩ := h
  obtain ⟨hout, hline⟩ := writeHeader_unlines hw
  refine ⟨hout, fun l hl => ?_⟩
  rcases List.mem_append.mp hl with hl | hl
  · exact hclean l hl
  · rw [List.mem_singleton.mp hl]
    exact hline

/-- The empty line at the end. -/
theorem Written.ending {ls : List (List UInt8)} {out : List UInt8} (h : Written ls out) :
    Written (ls ++ [[]]) (out ++ CRLF) := by
  obtain ⟨rfl, hclean⟩ := h
  refine ⟨by simp [unlines, CRLF], fun l hl => ?_⟩
  rcases List.mem_append.mp hl with hl | hl
  · exact hclean l hl
  · rw [List.mem_singleton.mp hl]
    intro c hc
    cases hc

/-- The lines of the fields, one after another. -/
theorem Written.headers {isHead : Bool} {fs : List Field} {ls : List (List UInt8)} {out out' : List UInt8}
    (h : Written ls out)
    (hw : fs.foldlM (fun o f => writeHeader o f.1 (renderedValue isHead f)) out = some out') :
    Written (ls ++ fs.map fun f => headerLine f.1 (renderedValue isHead f)) out' := by
  induction fs generalizing ls out with
  | nil =>
    cases hw
    simpa using h
  | cons f fs ih =>
    rw [List.foldlM_cons] at hw
    obtain ⟨mid, hmid, hrest⟩ := Option.bind_eq_some_iff.mp hw
    have hlines := ih (h.header hmid) hrest
    rwa [List.append_assoc] at hlines

/-- **What `render_head` writes.** -/
theorem renderHead_written {h : RespHead} {isHead : Bool} {out : List UInt8} (hr : renderHead h isHead = some out) :
    Written (headLines h isHead) out := by
  simp only [renderHead, Option.bind_eq_bind, Option.bind_eq_some_iff] at hr
  obtain ⟨o₁, hfields, o₂, hte, o₃, hconn, hr⟩ := hr
  split at hr
  · cases hr
  · cases hr
    have hstart : Written [statusLine h.status ""] (writeStatus [] h.status "") := by
      refine ⟨by simp [writeStatus, unlines, CRLF], fun l hl => ?_⟩
      rw [List.mem_singleton.mp hl]
      exact clean_statusLine _
    have hfields := hstart.headers hfields
    have hte : Written ([statusLine h.status ""] ++ h.headers.map (fun f => headerLine f.1 (renderedValue isHead f)) ++
        if h.hasCl then [] else [headerLine (ascii "Transfer-Encoding") (ascii "chunked")]) o₂ := by
      split at hte
      · next hcl =>
        cases hte
        rwa [if_pos hcl, List.append_nil]
      · next hcl =>
        rw [if_neg hcl]
        exact hfields.header hte
    have hend := (hte.header hconn).ending
    simpa [headLines] using hend

/-- What is collected of a response: only fields that the next hop may see. -/
def Relayed (fs : List Field) : Prop := ∀ f ∈ fs, isHopByHop f.1 = false

theorem Relayed.push {col : HeadCollector} (h : Relayed col.headers) (name value : List UInt8) :
    Relayed (col.push name value).headers := by
  unfold HeadCollector.push
  split
  · exact h
  split
  · split
    · split
      · split <;> exact h
      · exact h
    · exact h
  split
  · exact h
  next hop =>
    split
    · exact h
    split
    · exact h
    · have hadd : Relayed (col.headers ++ [(name, value)]) := by
        intro f hf
        rcases List.mem_append.mp hf with hf | hf
        · exact h f hf
        · rw [List.mem_singleton.mp hf]
          simp only [Bool.or_eq_true, not_or, Bool.not_eq_true] at hop
          exact hop.2
      dsimp only
      split <;> exact hadd

theorem collect_relayed {fs : List Field} {h : RespHead} (hc : collect fs = some h) : Relayed h.headers := by
  have hfold (col : HeadCollector) (hcol : Relayed col.headers) :
      Relayed (fs.foldl (fun (col : HeadCollector) (f : Field) => col.push f.1 f.2) col).headers := by
    clear hc
    induction fs generalizing col with
    | nil => exact hcol
    | cons f fs ih => exact ih _ (hcol.push f.1 f.2)
  have hall := hfold .default (by simp [Relayed, HeadCollector.default])
  unfold collect HeadCollector.finish at hc
  split at hc
  · split at hc
    · cases hc
    · cases hc
      exact hall
  · cases hc

/-! ### The header section of a request -/

theorem clean_of_nameOk {s : List UInt8} (h : nameOk s = true) : Clean s := by
  intro c hc
  have hbyte := List.all_eq_true.mp h c hc
  simp only [Bool.and_eq_true, decide_eq_true_eq] at hbyte
  have hle : (0x20 : UInt8) ≤ c := hbyte.1
  simp only [isCtl]
  grind

theorem clean_of_valueOk {s : List UInt8} (h : valueOk s = true) : Clean s := by
  intro c hc
  have hbyte := List.all_eq_true.mp h c hc
  simp only [isCtl]
  grind

theorem clean_of_uriFieldOk {s : List UInt8} (h : uriFieldOk s = true) : Clean s := by
  intro c hc
  simp only [uriFieldOk, Bool.not_eq_true', List.any_eq_false] at h
  have hbyte := h c hc
  simp only [forbiddenUriByte] at hbyte
  simp only [isCtl]
  grind

/-- A field that may be forwarded to the origin. -/
structure Forwarded (f : Field) : Prop where
  name : Clean f.1
  value : Clean f.2
  hop : isHopByHop f.1 = false
  xmq : isXmq f.1 = false
  host : eqIgnoreAsciiCase f.1 (ascii "host") = false
  length : eqIgnoreAsciiCase f.1 (ascii "content-length") = false

theorem forwarded_each {http : HttpCrate} {c : Capture} (h : ∀ f ∈ c.headers, Forwarded f) (n v : List UInt8) :
    ∀ f ∈ (c.each http n v).headers, Forwarded f := by
  have hcharge : (c.charge n v).headers = c.headers := by
    unfold Capture.charge
    split <;> rfl
  unfold Capture.each
  dsimp only
  split
  · split_ifs
    · exact hcharge ▸ h
    · exact hcharge ▸ h
    · exact hcharge ▸ h
    · exact hcharge ▸ h
    · exact h
  split
  · exact h
  split
  · exact h
  split
  · exact h
  split
  · split
    · split <;> exact h
    · exact h
  split
  · exact h
  split
  · exact h
  next hlength hstrip hok =>
    split
    · exact h
    · intro f hf
      rcases List.mem_append.mp hf with hf | hf
      · exact h f hf
      · rw [List.mem_singleton.mp hf]
        simp only [stripServer, Bool.or_eq_true, not_or, Bool.not_eq_true] at hstrip
        simp only [Bool.or_eq_true, not_or, Bool.not_eq_true, Bool.not_eq_false'] at hok
        exact ⟨clean_of_nameOk hok.1.1, clean_of_valueOk hok.1.2, hstrip.2.1, hstrip.2.2, hstrip.1,
          Bool.not_eq_true _ ▸ hlength⟩

theorem forwarded_section (http : HttpCrate) (fs : List Field) (fin : Bool) :
    ∀ f ∈ (Capture.ofSection http fs fin).headers, Forwarded f := by
  have hfold (c : Capture) (hc : ∀ f ∈ c.headers, Forwarded f) :
      ∀ f ∈ (fs.foldl (fun (c : Capture) (f : Field) => c.each http f.1 f.2) c).headers, Forwarded f := by
    induction fs generalizing c with
    | nil => exact hc
    | cons f fs ih => exact ih _ (forwarded_each hc f.1 f.2)
  exact hfold .default (by simp [Capture.default])

/-- An admitted request has the fields that were captured. -/
theorem headers_of_decide {http : HttpCrate} {c : Capture} {token : List UInt8} {a : Admitted}
    (h : (c.decide http token).outcome = .ok a) : a.headers = c.headers := by
  unfold Capture.decide at h
  split_ifs at h
  · cases h
  · cases h
  · cases h
  · unfold Capture.decideAuthed at h
    split at h
    · split at h
      · cases h
      split at h
      · cases h
      split at h
      · cases h
      · cases h
        rfl
    · cases h

theorem clean_of_target {http : HttpCrate} {authority path : List UInt8}
    (h : badTarget http authority path = false) : Clean authority ∧ Clean path := by
  simp only [badTarget, Bool.or_eq_false_iff, Bool.not_eq_false'] at h
  exact ⟨clean_of_uriFieldOk h.1.1.1.2, clean_of_uriFieldOk h.1.1.2⟩

/-- **No header injection.** What the server admits has no CR, LF or NUL in a field, in the
authority or in the path, and no field that is hop-by-hop, `host`, `content-length` or an
`x-mq-` one. What the client renders of a response is, taken apart at CRLF, the status line,
one line for each field in order, at most one `Transfer-Encoding`, the `Connection` line and
an empty line; there is no other CR, LF or NUL in it; and no field is hop-by-hop. -/
theorem no_header_injection (http : HttpCrate) :
    (∀ fs fin token a, ((Capture.ofSection http fs fin).decide http token).outcome = .ok a →
      (∀ f ∈ a.headers, Forwarded f) ∧ Clean a.authority ∧ Clean a.path) ∧
    ∀ fs h isHead out, collect fs = some h → renderHead h isHead = some out →
      splitLines 0x0D 0x0A out =
        (statusLine h.status "" :: h.headers.map (fun f => headerLine f.1 (renderedValue isHead f)) ++
          (if h.hasCl then [] else [headerLine (ascii "Transfer-Encoding") (ascii "chunked")]) ++
          [headerLine (ascii "Connection") (ascii "close"), []], []) ∧
      Paired 0x0D 0x0A out ∧ 0 ∉ out ∧ ∀ f ∈ h.headers, isHopByHop f.1 = false := by
  refine ⟨fun fs fin token a hok => ?_, fun fs h isHead out hcollect hrender => ?_⟩
  · obtain ⟨-, haimed⟩ := (captured_spec http fs fin).decide_ok hok
    rw [headers_of_decide hok]
    exact ⟨forwarded_section http fs fin, clean_of_target haimed.target⟩
  · obtain ⟨rfl, hclean⟩ := renderHead_written hrender
    refine ⟨splitLines_unlines fun l hl => (hclean l hl).not_mem rfl, paired_unlines fun l hl c hc => ⟨?_, ?_⟩, ?_,
      collect_relayed hcollect⟩
    · rintro rfl
      exact (hclean l hl).not_mem rfl hc
    · rintro rfl
      exact (hclean l hl).not_mem rfl hc
    · rw [mem_unlines]
      rintro ⟨l, hl, hzero | hzero | hzero⟩
      · exact (hclean l hl).not_mem rfl hzero
      · cases hzero
      · cases hzero

/-- A crate that takes everything. -/
def anyHttp : HttpCrate := ⟨fun _ => true, fun _ => true, fun _ => true⟩

/-- A request with a field to forward and one that is not. -/
def smallRequest : List Field :=
  [(ascii ":method", ascii "GET"), (ascii ":scheme", ascii "http"), (ascii ":authority", ascii "o"),
    (ascii ":path", ascii "/"), (ascii "x-mq-auth", ascii "Bearer t"), (ascii "te", ascii "x"),
    (ascii "accept", ascii "*")]

/-- That request, and a response without a length. -/
theorem no_header_injection_small :
    (∃ a, ((Capture.ofSection anyHttp smallRequest true).decide anyHttp (ascii "t")).outcome = .ok a ∧
      a.headers = [(ascii "accept", ascii "*")] ∧ (∀ f ∈ a.headers, Forwarded f) ∧ Clean a.authority ∧ Clean a.path) ∧
    ∃ h out, collect [(ascii ":status", ascii "200"), (ascii "a", ascii "b")] = some h ∧
      renderHead h false = some out ∧
      splitLines 0x0D 0x0A out =
        ([ascii "HTTP/1.1 200 ", ascii "a: b", ascii "Transfer-Encoding: chunked", ascii "Connection: close", []], []) := by
  obtain ⟨hrequest, hresponse⟩ := no_header_injection anyHttp
  obtain ⟨a, hok, hfields⟩ : ∃ a, ((Capture.ofSection anyHttp smallRequest true).decide anyHttp (ascii "t")).outcome =
      .ok a ∧ a.headers = [(ascii "accept", ascii "*")] := ⟨_, rfl, rfl⟩
  have hcollect : collect [(ascii ":status", ascii "200"), (ascii "a", ascii "b")] =
      some ⟨200, [(ascii "a", ascii "b")], none, false⟩ := by decide
  obtain ⟨out, hout⟩ : ∃ out, renderHead ⟨200, [(ascii "a", ascii "b")], none, false⟩ false = some out := ⟨_, rfl⟩
  exact ⟨⟨a, hok, hfields, hrequest _ _ _ _ hok⟩, _, out, hcollect, hout, (hresponse _ _ _ _ hcollect hout).1⟩

/-- **A `HEAD` fetch**: the line of a content-length has another value than the field. -/
theorem head_length_rewritten : ∃ fs h out, collect fs = some h ∧ renderHead h true = some out ∧
    (ascii "content-length", ascii "5") ∈ h.headers ∧
    headerLine (ascii "content-length") (ascii "5") ∉ (splitLines 0x0D 0x0A out).1 := by
  have hcollect : collect [(ascii ":status", ascii "200"), (ascii "content-length", ascii "5")] =
      some ⟨200, [(ascii "content-length", ascii "5")], some 5, true⟩ := by decide
  exact ⟨_, _, _, hcollect, rfl, List.mem_singleton_self _, by decide⟩

end MqProxy.Client
