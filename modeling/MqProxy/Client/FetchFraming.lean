import MqProxy.Client.Ownership

/-!
# The framing of a fetch response

The response to a fetch is written in parts: `render_head` chooses the framing from the fields
that `HeadCollector` kept, `download` writes the body in pieces as the transport gives them,
`flush` the end, and `read_body` compares the length on the way. A part that does not fit waits.

**`fetch_framed`**: whatever the transport delivers, in which pieces, and however often the
socket is full, what was written to a socket that is closed (and not aborted) is one response,
head and body. It is chunked and has no content-length, or it has no transfer-encoding and the
content-lengths that were received; if that is one, and a number, no fewer bytes follow.
-/

namespace MqProxy.Client

open MqProxy.Http MqProxy.Library
open MqProxy.Runtime (StreamError)
open MqProxy.Server (named)
open MqProxy.Ingress.HttpConnect (ascii)

/-! ### The fields of a response -/

/-- A name of the transport that is not a pseudo-header. -/
def Admits (names : List UInt8 → Prop) (fs : List Field) : Prop := ∀ f ∈ fs, f.1.head? ≠ some 0x3A → names f.1

/-- **What the collector knows**: how many lengths there are, and what the last of them says. -/
structure Collects (names : List UInt8 → Prop) (col : HeadCollector) : Prop where
  count : col.clCount = (col.headers.filter (named "content-length")).length
  last : ∀ f, (col.headers.filter (named "content-length")).getLast? = some f → col.cl = parseContentLength f.2
  names : ∀ f ∈ col.headers, names f.1

variable {names : List UInt8 → Prop}

/-- One field more. -/
theorem Collects.push {col : HeadCollector} {name value : List UInt8} (h : Collects names col)
    (hname : name.head? ≠ some 0x3A → names name) : Collects names (col.push name value) := by
  have hsame (status : Option ℕ) (budget : SectionBudget) (bad : Bool) :
      Collects names { col with status, budget, bad } := ⟨h.count, h.last, h.names⟩
  unfold HeadCollector.push
  split
  · exact h
  split
  · split
    · split
      · split <;> exact hsame _ _ _
      · exact hsame _ _ _
    · exact hsame _ _ _
  split
  · exact h
  next hdropped =>
    rw [Bool.or_eq_true, not_or, decide_eq_true_eq] at hdropped
    have hnames : ∀ g ∈ col.headers ++ [(name, value)], names g.1 := by
      intro g hg
      rcases List.mem_append.mp hg with hg | hg
      · exact h.names g hg
      · rw [List.mem_singleton.mp hg]
        exact hname hdropped.1
    split
    · exact hsame _ _ _
    split
    · exact hsame _ _ _
    dsimp only
    split
    · next hlength =>
      have hlength : named "content-length" (name, value) = true := hlength
      have hfilter : (col.headers ++ [(name, value)]).filter (named "content-length") =
          col.headers.filter (named "content-length") ++ [(name, value)] := by
        rw [List.filter_append, List.filter_cons_of_pos hlength, List.filter_nil]
      refine ⟨?_, fun g hg => ?_, hnames⟩
      · rw [hfilter, List.length_append, List.length_singleton, ← h.count]
      · rw [hfilter, List.getLast?_append, List.getLast?_singleton] at hg
        cases hg
        rfl
    · next hlength =>
      have hlength : ¬named "content-length" (name, value) = true := hlength
      have hfilter : (col.headers ++ [(name, value)]).filter (named "content-length") =
          col.headers.filter (named "content-length") := by
        rw [List.filter_append, List.filter_cons_of_neg hlength, List.filter_nil, List.append_nil]
      exact ⟨by rw [hfilter, ← h.count], fun g hg => h.last g (by rwa [hfilter] at hg), hnames⟩

/-- **What the collected head says of its fields.** -/
structure Collected (names : List UInt8 → Prop) (head : RespHead) : Prop where
  hasCl : head.hasCl = true ↔ head.headers.filter (named "content-length") ≠ []
  cl : ∀ f, head.headers.filter (named "content-length") = [f] → head.cl = parseContentLength f.2
  names : ∀ f ∈ head.headers, names f.1
  relayed : Relayed head.headers

theorem collect_collected {fs : List Field} {head : RespHead} (hfs : Admits names fs) (h : collect fs = some head) :
    Collected names head := by
  have hfold : ∀ (fs : List Field) (col : HeadCollector), Admits names fs → Collects names col →
      Collects names (fs.foldl (fun (col : HeadCollector) (f : Field) => col.push f.1 f.2) col) := by
    intro fs
    induction fs with
    | nil => exact fun col _ hcol => hcol
    | cons f fs ih =>
      intro col hfs hcol
      exact ih _ (fun g hg => hfs g (List.mem_cons_of_mem _ hg)) (hcol.push (hfs f List.mem_cons_self))
  have hrelayed := collect_relayed h
  have hcol := hfold fs .default hfs ⟨rfl, by simp [HeadCollector.default], by simp [HeadCollector.default]⟩
  rw [collect, HeadCollector.finish] at h
  generalize fs.foldl (fun (col : HeadCollector) (f : Field) => col.push f.1 f.2) .default = col at h hcol
  split at h
  · split at h
    · cases h
    · cases h
      refine ⟨?_, fun f hf => ?_, hcol.names, hrelayed⟩
      · show decide (0 < col.clCount) = true ↔ col.headers.filter (named "content-length") ≠ []
        rw [decide_eq_true_eq, hcol.count, List.length_pos_iff]
      · have hcount : col.clCount = 1 := by
          rw [hcol.count, hf]
          rfl
        have hlast := hcol.last f (by rw [hf]; rfl)
        show col.cl.filter (fun _ => decide (col.clCount = 1)) = _
        rw [hlast, hcount]
        cases parseContentLength f.2 <;> rfl
  · cases h

/-! ### A response -/

/-- The names that the client writes of its own. -/
def OWN_NAMES : List (List UInt8) :=
  [ascii "Transfer-Encoding", ascii "Connection", ascii "Content-Length", ascii "X-Mq-Error"]

/-- **The framing of a response**: chunked without a length, or the lengths as they were received;
if there is one and it is a number, so many bytes follow at least. -/
inductive Framing (fields : List Field) (payload : List UInt8) : Prop
  | chunked (pieces : List (List UInt8)) (hpieces : ∀ p ∈ pieces, p ≠ [])
      (hte : fields.filter (named "transfer-encoding") = [(ascii "Transfer-Encoding", ascii "chunked")])
      (hcl : fields.filter (named "content-length") = [])
      (hpayload : payload = pieces.flatMap chunkFrame ++ chunkEnd) : Framing fields payload
  | length (hte : fields.filter (named "transfer-encoding") = [])
      (hcl : fields.filter (named "content-length") ≠ [])
      (hlong : ∀ f n, fields.filter (named "content-length") = [f] → parseContentLength f.2 = some n →
        n ≤ payload.length) : Framing fields payload

/-- The head of a response: a status line, a line for each field, and an empty line. -/
def respHead (status : ℕ) (reason : String) (fields : List Field) : List UInt8 :=
  unlines 0x0D 0x0A (statusLine status reason :: fields.map (fun f => headerLine f.1 f.2) ++ [[]])

/-- **One response to a request with this method**, framed if it may carry a body. -/
structure Response (names : List UInt8 → Prop) (m : Method) (bytes : List UInt8) : Prop where
  framed : ∃ status reason fields payload, bytes = respHead status reason fields ++ payload ∧
    Clean (statusLine status reason) ∧
    (∀ f ∈ fields, Clean (headerLine f.1 f.2) ∧ (names f.1 ∨ f.1 ∈ OWN_NAMES)) ∧
    (bodyCheckApplies m status = true → Framing fields payload)

/-- A reply of the client's own: no body, and a length that says so. -/
theorem response_own (m : Method) {status : ℕ} {reason : String} {fields : List Field}
    (hstatus : Clean (statusLine status reason))
    (hfields : ∀ f ∈ fields, Clean (headerLine f.1 f.2) ∧ f.1 ∈ OWN_NAMES)
    (hte : fields.filter (named "transfer-encoding") = [])
    (hcl : fields.filter (named "content-length") = [(ascii "Content-Length", ascii "0")]) :
    Response names m (respHead status reason fields) := by
  refine ⟨status, reason, fields, [], (List.append_nil _).symm, hstatus,
    fun f hf => ⟨(hfields f hf).1, .inr (hfields f hf).2⟩, fun _ => .length hte ?_ fun f n hf hn => ?_⟩
  · rw [hcl]
    exact List.cons_ne_nil _ _
  · cases hcl.symm.trans hf
    have hzero : parseContentLength (ascii "0") = some 0 := by decide
    cases hzero.symm.trans hn
    exact Nat.zero_le _

/-- The reply to a fetch that is refused. -/
def refusal (r : Reject) : List UInt8 :=
  errorReply (rejectStatus r) (if rejectStatus r = 400 then "Bad Request" else "Bad Gateway") (some (rejectXmq r))

theorem clean_rejectXmq (r : Reject) : Clean (headerLine (ascii "X-Mq-Error") (ascii (rejectXmq r))) := by
  have htexts : ∀ s ∈ ["duplicate-control-header", "missing-auth", "bad-auth-format", "bad-target", "bad-method",
      "bad-origin-protocol", "bad-cache-ttl", "header-too-long", "tunnel-unavailable", "internal-error",
      "upstream-reset", "upstream-protocol"], (ascii s).any isCtl = false := by decide
  simp only [headerLine, clean_append]
  refine ⟨⟨clean_ascii (by decide), clean_ascii (by decide)⟩, clean_ascii (htexts _ ?_)⟩
  cases r <;> simp [rejectXmq]

/-- The lines that both replies of the client have. -/
theorem clean_ownLine {f : Field} (hf : f ∈ [(ascii "Content-Length", ascii "0"), (ascii "Connection", ascii "close")]) :
    Clean (headerLine f.1 f.2) ∧ f.1 ∈ OWN_NAMES := by
  rw [List.mem_cons, List.mem_singleton] at hf
  rcases hf with rfl | rfl
  · exact ⟨clean_ascii (s := "Content-Length: 0") (by decide), by decide⟩
  · exact ⟨clean_ascii (s := "Connection: close") (by decide), by decide⟩

/-- The names of the client's own lines, one against another. -/
theorem own_names_apart :
    eqIgnoreAsciiCase (ascii "X-Mq-Error") (ascii "transfer-encoding") = false ∧
    eqIgnoreAsciiCase (ascii "X-Mq-Error") (ascii "content-length") = false ∧
    eqIgnoreAsciiCase (ascii "Connection") (ascii "transfer-encoding") = false ∧
    eqIgnoreAsciiCase (ascii "Connection") (ascii "content-length") = false ∧
    eqIgnoreAsciiCase (ascii "Content-Length") (ascii "transfer-encoding") = false ∧
    eqIgnoreAsciiCase (ascii "Content-Length") (ascii "content-length") = true ∧
    eqIgnoreAsciiCase (ascii "Transfer-Encoding") (ascii "transfer-encoding") = true ∧
    eqIgnoreAsciiCase (ascii "Transfer-Encoding") (ascii "content-length") = false := by decide

/-- `synth_error` writes a response. -/
theorem response_synthError (m : Method) (r : Reject) :
    Response names m (synthError (rejectStatus r) (rejectXmq r)) := by
  have hwritten : synthError (rejectStatus r) (rejectXmq r) = respHead (rejectStatus r) ""
      [(ascii "X-Mq-Error", ascii (rejectXmq r)), (ascii "Content-Length", ascii "0"),
        (ascii "Connection", ascii "close")] := by
    cases r <;> rfl
  rw [hwritten]
  refine response_own m (clean_statusLine _) (fun f hf => ?_) (by simp [named, own_names_apart])
    (by simp [named, own_names_apart])
  rcases List.mem_cons.mp hf with rfl | hf
  · exact ⟨clean_rejectXmq r, List.mem_of_elem_eq_true rfl⟩
  · exact clean_ownLine hf

/-- So does `error_reply`. -/
theorem response_refusal (m : Method) (r : Reject) : Response names m (refusal r) := by
  have hwritten : refusal r = respHead (rejectStatus r) (if rejectStatus r = 400 then "Bad Request" else "Bad Gateway")
      [(ascii "Connection", ascii "close"), (ascii "Content-Length", ascii "0"),
        (ascii "X-Mq-Error", ascii (rejectXmq r))] := by
    cases r <;> rfl
  rw [hwritten]
  refine response_own m ?_ (fun f hf => ?_) (by simp [named, own_names_apart]) (by simp [named, own_names_apart])
  · simp only [statusLine, clean_append]
    refine ⟨⟨⟨clean_ascii (by decide), clean_toString _⟩, clean_ascii (by decide)⟩, ?_⟩
    split <;> exact clean_ascii (by decide)
  · rw [List.mem_cons, List.mem_cons, List.mem_singleton] at hf
    rcases hf with rfl | rfl | rfl
    · exact clean_ownLine (List.mem_cons_of_mem _ List.mem_cons_self)
    · exact clean_ownLine List.mem_cons_self
    · exact ⟨clean_rejectXmq r, List.mem_of_elem_eq_true rfl⟩

/-! ### A response that is being written -/

/-- **A response of which the head and some pieces were written**, as far as they fitted. -/
structure Begun (names : List UInt8 → Prop) (m : Method) (head : RespHead) (chunked : Bool)
    (pieces : List (List UInt8)) (bytes : List UInt8) : Prop where
  collected : Collected names head
  framing : chunked = !head.hasCl
  full : ∀ p ∈ pieces, p ≠ []
  written : ∃ out, renderHead head (m = ascii "HEAD") = some out ∧
    bytes = out ++ pieces.flatMap (Fetch.framed chunked)

/-- What `read_body` has counted is not more than was written. -/
def Counts (head : RespHead) (n : ℕ) : Down → Prop
  | .body status cl delivered _ => status = head.status ∧ cl = head.cl ∧ delivered.toNat ≤ n
  | .failed => True
  | _ => False

variable {m : Method} {head : RespHead} {chunked : Bool} {pieces : List (List UInt8)} {bytes : List UInt8}

/-- The fields of a rendered head. -/
def renderedFields (head : RespHead) (isHead : Bool) : List Field :=
  head.headers.map (fun f => (f.1, renderedValue isHead f)) ++
    (if head.hasCl then [] else [(ascii "Transfer-Encoding", ascii "chunked")]) ++ [(ascii "Connection", ascii "close")]

theorem renderHead_respHead {isHead : Bool} {out : List UInt8} (h : renderHead head isHead = some out) :
    out = respHead head.status "" (renderedFields head isHead) ∧
      ∀ f ∈ renderedFields head isHead, Clean (headerLine f.1 f.2) := by
  obtain ⟨hout, hclean⟩ := renderHead_written h
  have hlines : headLines head isHead = statusLine head.status "" ::
      (renderedFields head isHead).map (fun f => headerLine f.1 f.2) ++ [[]] := by
    rw [headLines, renderedFields]
    split <;> simp
  rw [hlines] at hout hclean
  refine ⟨hout, fun f hf => hclean _ ?_⟩
  exact List.mem_append_left _ (List.mem_cons_of_mem _ (List.mem_map_of_mem hf))

theorem renderedValue_false (f : Field) : renderedValue false f = f.2 := rfl

/-- The lengths of a rendered head are those that were received. -/
theorem filter_renderedFields (head : RespHead) (s : String) :
    (renderedFields head false).filter (named s) = head.headers.filter (named s) ++
      ((if head.hasCl then [] else [(ascii "Transfer-Encoding", ascii "chunked")]) ++
        [(ascii "Connection", ascii "close")]).filter (named s) := by
  have hsame : head.headers.map (fun f => (f.1, renderedValue false f)) = head.headers := by
    simp only [renderedValue_false, Prod.mk.eta, List.map_id']
  rw [renderedFields, hsame, List.append_assoc, List.filter_append]

theorem framed_false (ps : List (List UInt8)) : ps.flatMap (Fetch.framed false) = ps.flatten := by
  rw [show Fetch.framed false = id from rfl, List.flatMap_id]

/-- **A response that is over is framed.** -/
theorem Begun.response {delivered : UInt64} (h : Begun names m head chunked pieces bytes)
    (hcount : delivered.toNat ≤ pieces.flatten.length)
    (hlong : Exchanges.isShort m head.status head.cl delivered = false) :
    Response names m (bytes ++ if chunked then chunkEnd else []) := by
  obtain ⟨out, hout, rfl⟩ := h.written
  obtain ⟨rfl, hclean⟩ := renderHead_respHead hout
  refine ⟨head.status, "", _, pieces.flatMap (Fetch.framed chunked) ++ if chunked then chunkEnd else [],
    List.append_assoc _ _ _, clean_statusLine _, fun f hf => ⟨hclean f hf, ?_⟩, fun happlies => ?_⟩
  · rw [renderedFields, List.mem_append, List.mem_append, List.mem_map] at hf
    rcases hf with (⟨g, hg, rfl⟩ | hf) | hf
    · exact .inl (h.collected.names g hg)
    · split at hf
      · cases hf
      · rw [List.mem_singleton.mp hf]
        exact .inr (by decide)
    · rw [List.mem_singleton.mp hf]
      exact .inr (by decide)
  · have hmethod : decide (m = ascii "HEAD") = false := by
      rw [bodyCheckApplies] at happlies
      simp only [Bool.and_eq_true, decide_eq_true_eq, ne_eq] at happlies
      exact decide_eq_false happlies.1.1.1
    rw [hmethod]
    have hte : head.headers.filter (named "transfer-encoding") = [] := by
      rw [List.filter_eq_nil_iff]
      intro f hf hname
      have hhop : isHopByHop f.1 = true := by
        rw [isHopByHop, List.any_eq_true]
        exact ⟨ascii "transfer-encoding", by decide, hname⟩
      rw [h.collected.relayed f hf] at hhop
      cases hhop
    have hfields := filter_renderedFields head
    cases hcl : head.hasCl with
    | true =>
      have hlengths : (renderedFields head false).filter (named "content-length") =
          head.headers.filter (named "content-length") := by
        rw [hfields, hcl]
        simp [named, own_names_apart]
      have hchunked : chunked = false := by rw [h.framing, hcl]; rfl
      refine .length ?_ ?_ fun f n hf hn => ?_
      · rw [hfields, hte, hcl]
        simp [named, own_names_apart]
      · rw [hlengths]
        exact h.collected.hasCl.mp hcl
      · rw [hlengths] at hf
        rw [Exchanges.isShort, happlies, h.collected.cl f hf, hn] at hlong
        have hle : n ≤ delivered.toNat := by simpa using hlong
        rw [hchunked, framed_false, if_neg Bool.false_ne_true, List.append_nil]
        exact hle.trans hcount
    | false =>
      have hnone : head.headers.filter (named "content-length") = [] := by
        by_contra hne
        rw [h.collected.hasCl.mpr hne] at hcl
        cases hcl
      have hchunked : chunked = true := by rw [h.framing, hcl]; rfl
      refine .chunked pieces h.full ?_ ?_ ?_
      · rw [hfields, hte, hcl]
        simp [named, own_names_apart]
      · rw [hfields, hnone, hcl]
        simp [named, own_names_apart]
      · rw [hchunked]
        rfl

/-! ### What was written to a socket -/

/-- The bytes of a call that a socket took. -/
def TcpCall.taken (tcp : ℕ) : TcpCall → List UInt8
  | .write t bs ok => if t = tcp ∧ ok = true then bs else []
  | .reply t bs => if t = tcp then bs else []
  | _ => []

/-- The bytes that a socket took. -/
def sentTo (tcp : ℕ) (calls : List TcpCall) : List UInt8 := calls.flatMap (TcpCall.taken tcp)

@[simp]
theorem sentTo_append (tcp : ℕ) (cs ds : List TcpCall) : sentTo tcp (cs ++ ds) = sentTo tcp cs ++ sentTo tcp ds :=
  List.flatMap_append

@[simp]
theorem sentTo_write (tcp : ℕ) (bs : List UInt8) (ok : Bool) : sentTo tcp [.write tcp bs ok] = if ok then bs else [] := by
  simp [sentTo, TcpCall.taken]

@[simp]
theorem sentTo_replyClose (tcp : ℕ) (bs : List UInt8) : sentTo tcp [.reply tcp bs, .close tcp] = bs := by
  simp [sentTo, TcpCall.taken]

@[simp]
theorem sentTo_close (tcp : ℕ) : sentTo tcp [.close tcp] = [] := rfl

@[simp]
theorem sentTo_abort (tcp : ℕ) : sentTo tcp [.abort tcp] = [] := rfl

/-- What is done to other sockets. -/
theorem sentTo_others {tcp : ℕ} {cs : List TcpCall} (hcs : ∀ c ∈ cs, c.tcp ≠ tcp) :
    sentTo tcp cs = [] ∧ .close tcp ∉ cs := by
  refine ⟨List.flatMap_eq_nil_iff.mpr fun c hc => ?_, fun hclose => hcs _ hclose rfl⟩
  have htcp := hcs c hc
  cases c with
  | write t bs ok => exact if_neg fun h => htcp h.1
  | reply t bs => exact if_neg htcp
  | close => rfl
  | abort => rfl

namespace Fetch

/-- The exchange of an open entry, with what was written. -/
structure Answering (names : List UInt8 → Prop) (m : Method) (tcp : ℕ) (x : Exch Owner) (started chunked : Bool)
    (sent pending : List UInt8) : Prop where
  owner : x.owner = .fetch tcp
  method : x.method = m
  unstarted : started = false → sent = [] ∧ pending = []
  begun : started = true → ∃ head pieces, Begun names m head chunked pieces (sent ++ pending) ∧
    Counts head pieces.flatten.length x.down

/-- **Where the answer to a request stands**, by the entry of its socket. -/
def Serving (names : List UInt8 → Prop) (tcp : ℕ) (m : Method) (f : Fetch) : Prop :=
  match f.reqs.lookup tcp with
  | none => .close tcp ∈ f.calls → Response names m (sentTo tcp f.calls)
  | some (.head _) => False
  | some (.opened id method started chunked pending) => .close tcp ∉ f.calls ∧ method = m ∧
      ∃ x, f.ex.lookup id = some x ∧ Answering names m tcp x started chunked (sentTo tcp f.calls) pending
  | some (.finishing pending chunked) => .close tcp ∉ f.calls ∧
      Response names m (sentTo tcp f.calls ++ pending ++ if chunked then chunkEnd else [])

variable {f f' : Fetch} {tcp : ℕ}

theorem serving_none (hnone : f.reqs.lookup tcp = none)
    (h : .close tcp ∈ f.calls → Response names m (sentTo tcp f.calls)) : Serving names tcp m f := by
  rw [Serving, hnone]
  exact h

variable {id : ℕ} {pending : List UInt8} {x : Exch Owner}

theorem serving_opened {started : Bool}
    (he : f.reqs.lookup tcp = some (.opened id m started chunked pending)) (hopen : .close tcp ∉ f.calls)
    (hx : f.ex.lookup id = some x) (h : Answering names m tcp x started chunked (sentTo tcp f.calls) pending) :
    Serving names tcp m f := by
  rw [Serving, he]
  exact ⟨hopen, rfl, x, hx, h⟩

theorem serving_finishing (he : f.reqs.lookup tcp = some (.finishing pending chunked))
    (hopen : .close tcp ∉ f.calls)
    (h : Response names m (sentTo tcp f.calls ++ pending ++ if chunked then chunkEnd else [])) :
    Serving names tcp m f := by
  rw [Serving, he]
  exact ⟨hopen, h⟩

theorem calls_remove (f : Fetch) (tcp : ℕ) : (f.remove tcp).calls = f.calls := by
  unfold remove
  dsimp only
  split <;> rfl

/-- The entry goes, and nothing more is written. -/
theorem serving_remove (hopen : .close tcp ∉ f.calls) : Serving names tcp m (f.remove tcp) :=
  serving_none (lookup_remove f tcp) fun hclose => absurd (calls_remove f tcp ▸ hclose) hopen

theorem serving_abort (hopen : .close tcp ∉ f.calls) : Serving names tcp m (f.abort tcp) := by
  refine serving_remove fun hclose => ?_
  rcases List.mem_append.mp hclose with hclose | hclose
  · exact hopen hclose
  · cases List.mem_singleton.mp hclose

/-- A reply of the client's own ends the request, if nothing was written before. -/
theorem serving_reply {reply : List UInt8} (hsent : sentTo tcp f.calls = []) (hreply : Response names m reply) :
    Serving names tcp m ((f.replyClose tcp reply).remove tcp) := by
  refine serving_none (lookup_remove _ tcp) fun _ => ?_
  rw [calls_remove, replyClose, call, sentTo_append, hsent, sentTo_replyClose]
  exact hreply

/-! ### The download -/

variable {oks : List Bool}

theorem writePending_spec {r : Fetch × Bool × List Bool} (h : f.writePending tcp pending oks = some r) :
    r.1.reqs = f.reqs ∧ (.close tcp ∈ r.1.calls ↔ .close tcp ∈ f.calls) ∧
      sentTo tcp r.1.calls = sentTo tcp f.calls ++ if r.2.1 then pending else [] := by
  unfold writePending at h
  split at h
  · next hnil =>
    cases h
    rw [hnil]
    exact ⟨rfl, Iff.rfl, (List.append_nil _).symm⟩
  · split at h
    · cases h
    · cases h
      refine ⟨rfl, by simp [call], ?_⟩
      rw [call, sentTo_append, sentTo_write]

/-- **The end of a response is written**, and the socket closed once all of it fitted. -/
theorem serving_flush (he : f.reqs.lookup tcp = some (.finishing pending chunked)) (hopen : .close tcp ∉ f.calls)
    (hresponse : Response names m (sentTo tcp f.calls ++ pending ++ if chunked then chunkEnd else []))
    (h : f.flush tcp oks = some f') : Serving names tcp m f' := by
  have hclosed (g : Fetch) (hg : Response names m (sentTo tcp g.calls)) :
      Serving names tcp m ({ g with reqs := g.reqs.erase tcp }.call [.close tcp]) := by
    refine serving_none (AList.lookup_erase tcp g.reqs) fun _ => ?_
    rwa [call, sentTo_append, sentTo_close, List.append_nil]
  unfold flush at h
  rw [he] at h
  dsimp only at h
  obtain ⟨⟨g, ok, oks'⟩, hwrite, h⟩ := Option.bind_eq_some_iff.mp h
  obtain ⟨hreqs, hclose, hsent⟩ := writePending_spec hwrite
  dsimp only at h hreqs hclose hsent
  cases ok with
  | false =>
    cases h
    refine serving_finishing (hreqs ▸ he) (mt hclose.mp hopen) ?_
    rwa [hsent, if_neg Bool.false_ne_true, List.append_nil]
  | true =>
    rw [if_pos rfl] at hsent
    cases chunked with
    | false =>
      cases h
      refine hclosed g ?_
      rw [hsent]
      rwa [if_neg Bool.false_ne_true, List.append_nil] at hresponse
    | true =>
      rw [if_pos rfl] at hresponse
      obtain ⟨⟨g', ok', oks''⟩, hwrite', rfl⟩ := Option.map_eq_some_iff.mp h
      obtain ⟨hreqs', hclose', hsent'⟩ := writePending_spec hwrite'
      dsimp only at hreqs' hclose' hsent' ⊢
      cases ok' with
      | true =>
        refine hclosed g' ?_
        rwa [hsent', if_pos rfl, hsent]
      | false =>
        refine serving_finishing (AList.lookup_insert _) (fun hin => hopen (hclose.mp (hclose'.mp hin))) ?_
        show Response names m (sentTo tcp g'.calls ++ chunkEnd ++ if false = true then chunkEnd else [])
        rwa [hsent', if_neg Bool.false_ne_true, List.append_nil, hsent, List.append_nil]

/-- What `frame` writes and keeps is the piece, unless it is empty. -/
theorem frame_spec (f : Fetch) (tcp : ℕ) (chunked : Bool) (bs : List UInt8) (ok : Bool) :
    (f.frame tcp chunked bs ok).1.reqs = f.reqs ∧ (f.frame tcp chunked bs ok).1.ex = f.ex ∧
      (.close tcp ∈ (f.frame tcp chunked bs ok).1.calls ↔ .close tcp ∈ f.calls) ∧
      sentTo tcp (f.frame tcp chunked bs ok).1.calls ++ (f.frame tcp chunked bs ok).2 =
        sentTo tcp f.calls ++ if bs = [] then [] else framed chunked bs := by
  unfold frame
  split
  · exact ⟨rfl, rfl, Iff.rfl, rfl⟩
  · refine ⟨rfl, rfl, by simp [call], ?_⟩
    rw [call, sentTo_append, sentTo_write]
    cases ok <;> simp

/-- One piece more. -/
theorem begun_piece (bs : List UInt8) (h : Begun names m head chunked pieces bytes) :
    ∃ pieces', Begun names m head chunked pieces' (bytes ++ if bs = [] then [] else framed chunked bs) ∧
      pieces'.flatten.length = pieces.flatten.length + bs.length := by
  by_cases hbs : bs = []
  · subst hbs
    exact ⟨pieces, by rwa [if_pos rfl, List.append_nil], rfl⟩
  · obtain ⟨out, hout, rfl⟩ := h.written
    refine ⟨pieces ++ [bs], ⟨h.collected, h.framing, fun p hp => ?_, out, hout, ?_⟩, by simp⟩
    · rcases List.mem_append.mp hp with hp | hp
      · exact h.full p hp
      · rwa [List.mem_singleton.mp hp]
    · rw [if_neg hbs, List.flatMap_append, List.flatMap_singleton, List.append_assoc]

/-- The bytes of a read that gave so many. -/
theorem take_of_recv {buffer : Except StreamError (List UInt8 × Bool)} {n : ℕ} {fin : Bool}
    (h : buffer.map (fun p => (p.1.length, p.2)) = .ok (n, fin)) :
    ((buffer.toOption.elim [] Prod.fst).take n).length = n := by
  cases buffer with
  | error e => cases h
  | ok p =>
    cases h
    exact congrArg List.length (List.take_length)

/-- The last piece was written or is kept. -/
theorem serving_last (hopen : .close tcp ∉ f.calls)
    (hresponse : Response names m (sentTo tcp f.calls ++ pending ++ if chunked then chunkEnd else []))
    (h : flush { f with reqs := f.reqs.insert tcp (.finishing pending chunked) } tcp oks = some f') :
    Serving names tcp m f' :=
  serving_flush (f := { f with reqs := f.reqs.insert tcp (.finishing pending chunked) }) (AList.lookup_insert _) hopen
    hresponse h

/-- **One read of the body**: the response is over or given up, or it goes on. -/
theorem serving_pumpTurn {a : ReadTurn} {r : Fetch × Option (List UInt8)}
    (he : f.reqs.lookup tcp = some (.opened id m true chunked [])) (hopen : .close tcp ∉ f.calls)
    (hx : f.ex.lookup id = some x) (h : Answering names m tcp x true chunked (sentTo tcp f.calls) [])
    (hturn : f.pumpTurn tcp id chunked a = some r) :
    (r.2 = none → Serving names tcp m r.1) ∧ ∀ pending, r.2 = some pending → .close tcp ∉ r.1.calls ∧
      ∃ y, r.1.ex.lookup id = some y ∧ Answering names m tcp y true chunked (sentTo tcp r.1.calls) pending := by
  obtain ⟨head, pieces, hbegun, hcounts⟩ := h.begun rfl
  rw [List.append_nil] at hbegun
  unfold pumpTurn at hturn
  have hspec := Exchanges.readBody_spec f.ex id ((a.recv DL_CHUNK).map fun p => (p.1.length, p.2))
  dsimp only at hturn
  generalize f.ex.readBody id ((a.recv DL_CHUNK).map fun p => (p.1.length, p.2)) = q at hturn hspec
  generalize hbs : (a.recv DL_CHUNK).toOption.elim [] Prod.fst = bs at hturn
  -- what a last read of `n` bytes comes to
  have hlast (ex : Exchanges Owner) (n : ℕ) (delivered : UInt64)
      (hcount : delivered.toNat ≤ pieces.flatten.length + (bs.take n).length)
      (hlong : Exchanges.isShort m head.status head.cl delivered = false) {g : Fetch}
      (hflush : flush { (frame { f with ex } tcp chunked (bs.take n) a.ok).1 with
        reqs := (frame { f with ex } tcp chunked (bs.take n) a.ok).1.reqs.insert tcp
          (.finishing (frame { f with ex } tcp chunked (bs.take n) a.ok).2 chunked) } tcp a.oks = some g) :
      Serving names tcp m g := by
    obtain ⟨-, -, hclose, hsent⟩ := frame_spec { f with ex } tcp chunked (bs.take n) a.ok
    obtain ⟨pieces', hbegun', hlength⟩ := begun_piece (bs.take n) hbegun
    refine serving_last (mt hclose.mp hopen) ?_ hflush
    rw [hsent]
    exact hbegun'.response (hlength ▸ hcount) hlong
  cases hspec with
  | waits =>
    cases hturn
    exact ⟨fun _ => serving_opened he hopen hx h, nofun⟩
  | fails =>
    cases hturn
    exact ⟨fun _ => serving_abort hopen, nofun⟩
  | @data _ _ _ _ n hx' hdown hrecv hpos =>
    cases hx.symm.trans hx'
    cases hturn
    refine ⟨nofun, ?_⟩
    rintro pending ⟨⟩
    obtain ⟨-, hex, hclose, hsent⟩ := frame_spec { f with ex := f.ex.insert id _ } tcp chunked (bs.take n) a.ok
    obtain ⟨pieces', hbegun', hlength⟩ := begun_piece (bs.take n) hbegun
    refine ⟨mt hclose.mp hopen, _, (congrArg (AList.lookup id) hex).trans (AList.lookup_insert _), h.owner, h.method,
      nofun, fun _ => ⟨head, pieces', hsent ▸ hbegun', ?_⟩⟩
    rw [hdown] at hcounts
    obtain ⟨hstatus, hcl, hle⟩ := hcounts
    refine ⟨hstatus, hcl, (Upload.toNat_add_le _ _).trans ?_⟩
    rw [hlength, ← hbs, take_of_recv hrecv]
    exact Nat.add_le_add_right hle n
  | ended hx' hdown hlong =>
    cases hx.symm.trans hx'
    obtain ⟨g, hflush, rfl⟩ := Option.map_eq_some_iff.mp hturn
    rw [hdown] at hcounts
    obtain ⟨rfl, rfl, hle⟩ := hcounts
    rw [h.method] at hlong
    exact ⟨fun _ => hlast _ 0 _ (hle.trans (Nat.le_add_right _ _)) hlong hflush, nofun⟩
  | @last _ _ _ _ n hx' hdown hrecv hlong =>
    cases hx.symm.trans hx'
    obtain ⟨g, hflush, rfl⟩ := Option.map_eq_some_iff.mp hturn
    rw [hdown] at hcounts
    obtain ⟨rfl, rfl, hle⟩ := hcounts
    rw [h.method] at hlong
    refine ⟨fun _ => hlast _ n _ ((Upload.toNat_add_le _ _).trans ?_) hlong hflush, nofun⟩
    rw [← hbs, take_of_recv hrecv]
    exact Nat.add_le_add_right hle n

/-- **The body pump.** -/
theorem serving_pump {turns : List ReadTurn} (hopen : .close tcp ∉ f.calls) (hx : f.ex.lookup id = some x)
    (h : Answering names m tcp x true chunked (sentTo tcp f.calls) pending)
    (hpump : f.pump tcp id m chunked pending turns = some f') : Serving names tcp m f' := by
  have hkeep (f : Fetch) (pending : List UInt8) (x : Exch Owner) (hopen : .close tcp ∉ f.calls)
      (hx : f.ex.lookup id = some x) (h : Answering names m tcp x true chunked (sentTo tcp f.calls) pending) :
      Serving names tcp m (f.keep tcp id m chunked pending) :=
    serving_opened (AList.lookup_insert f.reqs) hopen hx h
  induction turns generalizing f pending x with
  | nil =>
    unfold pump at hpump
    split at hpump
    · cases hpump
      exact hkeep f pending x hopen hx h
    · cases hpump
  | cons a turns ih =>
    unfold pump at hpump
    dsimp only at hpump
    split at hpump
    · cases hpump
      exact hkeep f pending x hopen hx h
    next hnil =>
      rw [ne_eq, not_not] at hnil
      subst hnil
      split at hpump
      · cases hpump
      · next g hturn =>
        cases hpump
        exact (serving_pumpTurn (f := f.keep tcp id m chunked []) (AList.lookup_insert f.reqs) hopen hx h hturn).1 rfl
      · next g pending' hturn =>
        obtain ⟨hopen', y, hy, h'⟩ := (serving_pumpTurn (f := f.keep tcp id m chunked []) (AList.lookup_insert f.reqs)
          hopen hx h hturn).2 pending' rfl
        exact ih hopen' hy h' hpump

variable {a : DlTurn}

/-- **`download`.** -/
theorem serving_download (hadmits : Admits names a.fields) (h : Serving names tcp m f)
    (hdownload : f.download tcp a = some f') : Serving names tcp m f' := by
  unfold download at hdownload
  split at hdownload
  · next id method started chunked pending he =>
    have hserving := h
    rw [Serving, he] at h
    obtain ⟨hopen, rfl, x, hx, hanswering⟩ := h
    cases started with
    | true => exact serving_pump hopen hx hanswering hdownload
    | false =>
      obtain ⟨hsent, rfl⟩ := hanswering.unstarted rfl
      have hspec := Exchanges.readHead_spec f.ex id a.fields a.recvHead
      simp only [Bool.false_eq_true, if_false] at hdownload
      generalize f.ex.readHead id a.fields a.recvHead = q at hdownload hspec
      cases hspec with
      | waits =>
        cases hdownload
        exact serving_opened he hopen hx hanswering
      | fails =>
        cases hdownload
        exact serving_reply hsent (response_synthError _ _)
      | @head _ head fin hx' hdown hcollect =>
        cases hx.symm.trans hx'
        have hy := AList.lookup_insert (a := id) (b := ({ x with down := .body head.status head.cl 0 fin } : Exch Owner)) f.ex
        generalize f.ex.insert id _ = ex at hdownload hy
        dsimp only at hdownload
        split at hdownload
        · cases hdownload
          exact serving_reply hsent (response_synthError _ _)
        · next bytes hrender =>
          refine serving_pump (f := call { f with ex } [.write tcp bytes a.ok]) (by simpa [call] using hopen) hy
            ⟨hanswering.owner, hanswering.method, nofun, fun _ => ?_⟩ hdownload
          refine ⟨head, [], ⟨collect_collected hadmits hcollect, rfl, List.forall_mem_nil _, bytes, hrender, ?_⟩, ?_⟩
          · rw [call, sentTo_append, hsent, sentTo_write, List.nil_append]
            cases a.ok <;> simp
          · exact ⟨rfl, rfl, Nat.zero_le _⟩
  · cases hdownload
    exact h

/-! ### What else happens to an exchange -/

/-- An exchange goes on, and its reader counts no more than was written. -/
structure Ebbs (x y : Exch Owner) : Prop where
  owner : y.owner = x.owner
  method : y.method = x.method
  counts : ∀ head n, Counts head n x.down → Counts head n y.down

theorem Ebbs.refl (x : Exch Owner) : Ebbs x x := ⟨rfl, rfl, fun _ _ h => h⟩

theorem Ebbs.trans {y z : Exch Owner} (h : Ebbs x y) (h' : Ebbs y z) : Ebbs x z :=
  ⟨h'.owner.trans h.owner, h'.method.trans h.method, fun head n hx => h'.counts head n (h.counts head n hx)⟩

theorem Answering.ebb {y : Exch Owner} {started : Bool} {sent : List UInt8}
    (h : Answering names m tcp x started chunked sent pending) (hy : Ebbs x y) :
    Answering names m tcp y started chunked sent pending := by
  refine ⟨hy.owner.trans h.owner, hy.method.trans h.method, h.unstarted, fun hstarted => ?_⟩
  obtain ⟨head, pieces, hbegun, hcounts⟩ := h.begun hstarted
  exact ⟨head, pieces, hbegun, hy.counts head _ hcounts⟩

variable {t : Exchanges Owner}

theorem ebbs_sendBody (hx : t.lookup id = some x) (data : List UInt8)
    (fin : Bool) (finished : Except StreamError Unit) (sent : Except StreamError ℕ) :
    ∃ y, (t.sendBody id data fin finished sent).1.lookup id = some y ∧ Ebbs x y := by
  rcases Exchanges.sendBody_table t id data fin finished sent with h | ⟨x', y, hx', h, howner, hmethod, hdown⟩
  · rw [h]
    exact ⟨x, hx, .refl x⟩
  · cases hx.symm.trans hx'
    rw [h]
    refine ⟨y, AList.lookup_insert _, howner, hmethod, fun head n hcounts => ?_⟩
    rcases hdown with hdown | hdown
    · exact hdown ▸ hcounts
    · rw [hdown]
      trivial

variable {rx : List UInt8} {turns : List Turn}

theorem ebbs_upload {r : Exchanges Owner × List XCall × List UInt8 × Uploaded} (hx : t.lookup id = some x)
    (h : t.upload id rx turns = some r) : ∃ y, r.1.lookup id = some y ∧ Ebbs x y := by
  refine Exchanges.upload_rel (R := fun t t' => ∀ x, t.lookup id = some x → ∃ y, t'.lookup id = some y ∧ Ebbs x y)
    (fun t x hx => ⟨x, hx, .refl x⟩) (fun h h' x hx => ?_) (fun t data fin finished sent x hx => ?_) h x hx
  · obtain ⟨y, hy, hebbs⟩ := h x hx
    obtain ⟨z, hz, hebbs'⟩ := h' y hy
    exact ⟨z, hz, hebbs.trans hebbs'⟩
  · exact ebbs_sendBody hx data fin finished sent

/-- The exchange of an entry moves on. -/
theorem Serving.ebb {ex : Exchanges Owner} (h : Serving names tcp m f)
    (hex : ∀ id x, f.h3 tcp = some id → f.ex.lookup id = some x → x.owner = .fetch tcp →
      ∃ y, ex.lookup id = some y ∧ Ebbs x y) : Serving names tcp m { f with ex } := by
  cases he : f.reqs.lookup tcp with
  | none =>
    rw [Serving, he] at h
    exact serving_none he h
  | some e =>
    rw [Serving, he] at h
    cases e with
    | head timer => exact h.elim
    | finishing pending chunked => exact serving_finishing he h.1 h.2
    | opened id method started chunked pending =>
      obtain ⟨hopen, rfl, x, hx, hanswering⟩ := h
      obtain ⟨y, hy, hebbs⟩ := hex id x (Opened.h3 ⟨_, _, _, _, he⟩) hx hanswering.owner
      exact serving_opened he hopen hy (hanswering.ebb hebbs)

/-- **What is done for another socket.** -/
theorem Serving.apart {t : ℕ} (h : Serving names tcp m f) (ht : t ≠ tcp) (hapart : Apart t f f') :
    Serving names tcp m f' := by
  obtain ⟨cs, hcs, hall⟩ := hapart.calls
  obtain ⟨hsent, hclose⟩ := sentTo_others fun c hc => hall c hc ▸ ht
  have hreqs := hapart.reqs tcp (Ne.symm ht)
  have hsent' : sentTo tcp f'.calls = sentTo tcp f.calls := by rw [hcs, sentTo_append, hsent, List.append_nil]
  have hclose' : .close tcp ∈ f'.calls ↔ .close tcp ∈ f.calls := by
    rw [hcs, List.mem_append]
    exact or_iff_left hclose
  cases he : f.reqs.lookup tcp with
  | none =>
    rw [Serving, he] at h
    refine serving_none (hreqs.trans he) fun hin => ?_
    rw [hsent']
    exact h (hclose'.mp hin)
  | some e =>
    rw [Serving, he] at h
    cases e with
    | head timer => exact h.elim
    | finishing pending chunked =>
      refine serving_finishing (hreqs.trans he) (mt hclose'.mp h.1) ?_
      rw [hsent']
      exact h.2
    | opened id method started chunked pending =>
      obtain ⟨hopen, rfl, x, hx, hanswering⟩ := h
      refine serving_opened (hreqs.trans he) (mt hclose'.mp hopen) (hapart.ex id x hx ?_) (hsent' ▸ hanswering)
      rw [hanswering.owner, ne_eq, Owner.fetch.injEq]
      exact Ne.symm ht

/-! ### The callbacks -/

theorem serving_upload (hadmits : Admits names a.fields)
    (h : Serving names tcp m f) (hupload : f.upload tcp rx turns a = some f') : Serving names tcp m f' := by
  unfold upload at hupload
  split at hupload
  · next id method started chunked pending he =>
    obtain ⟨⟨ex, calls, rest, out⟩, hup, hupload⟩ := Option.bind_eq_some_iff.mp hupload
    have hserving : Serving names tcp m { f with ex } := by
      refine h.ebb fun i x hi hx _ => ?_
      cases hi.symm.trans (Opened.h3 ⟨_, _, _, _, he⟩)
      exact ebbs_upload hx hup
    dsimp only at hupload
    split at hupload
    · cases hupload
      exact hserving
    · cases hupload
      exact hserving
    · exact serving_download hadmits hserving hupload
  · cases hupload
    exact h

variable {tunnel opened : Option ℕ} {sent : Bool}

/-- **A request is taken up**: it is refused, or an exchange is opened for it. -/
theorem serving_headData {req : ReqHead} (hadmits : Admits names a.fields) (hquiet : ∀ c ∈ f.calls, c.tcp ≠ tcp)
    (h : f.headData tcp (.fetch (.ok req)) tunnel opened sent rx turns a = some f') :
    Serving names tcp req.method f' := by
  obtain ⟨hsent, hopen⟩ := sentTo_others hquiet
  have hremoved := calls_remove f tcp
  have hrefused (g : Fetch) (r : Reject) (hg : g.reqs = (f.remove tcp).reqs) (hcalls : g.calls = (f.remove tcp).calls) :
      Serving names tcp req.method (g.replyClose tcp (refusal r)) := by
    refine serving_none ((congrArg (AList.lookup tcp) hg).trans (lookup_remove f tcp)) fun _ => ?_
    rw [replyClose, call, sentTo_append, hcalls, hremoved, hsent, sentTo_replyClose]
    exact response_refusal _ r
  unfold headData at h
  dsimp only at h
  split at h
  · cases h
    exact hrefused _ _ rfl rfl
  next conn =>
    split at h
    · cases h
    split at h
    · next r hout =>
      cases h
      exact hrefused { f.remove tcp with ex := _ } r rfl rfl
    · next id hout =>
      obtain ⟨hopened, htable⟩ := Exchanges.openReq_ok hout
      refine serving_upload hadmits ?_ h
      refine serving_opened (AList.lookup_insert _) ?_ ((congrArg (AList.lookup id) htable).trans (AList.lookup_insert _))
        ⟨rfl, rfl, fun _ => ⟨?_, rfl⟩, fun hstarted => ?_⟩
      · exact hremoved ▸ hopen
      · exact (congrArg (sentTo tcp) hremoved).trans hsent
      · cases hstarted

theorem serving_onTcpData {parsed : Parsed} (hadmits : Admits names a.fields) (h : Serving names tcp m f)
    (hdata : f.onTcpData tcp parsed tunnel opened sent rx turns a = some f') : Serving names tcp m f' := by
  unfold onTcpData at hdata
  split at hdata
  · next timer he =>
    rw [Serving, he] at h
    exact h.elim
  · exact serving_upload hadmits h hdata
  · cases hdata
    exact h

theorem serving_onReady {r : Ready} (hadmits : Admits names a.fields)
    (h : Serving names tcp m f) (hready : f.onReady tcp r rx turns a = some f') : Serving names tcp m f' := by
  cases r with
  | readable => exact serving_download hadmits h hready
  | writable => exact serving_upload hadmits h hready

theorem uploadEof_complete {buffered : UInt64}
    (h : (t.uploadEof id buffered).2.2 ≠ .truncated) : (t.uploadEof id buffered).1 = t := by
  unfold Exchanges.uploadEof at h ⊢
  split
  · split
    · next hlt => simp_all
    · rfl
  · rfl

theorem serving_onTcpEnd {error : Bool} {buffered : UInt64} (h : Serving names tcp m f) :
    Serving names tcp m (f.onTcpEnd tcp error buffered) := by
  have hserving := h
  unfold onTcpEnd
  split
  · exact h
  · next timer he =>
    rw [Serving, he] at h
    exact h.elim
  · next id method started chunked pending he =>
    rw [Serving, he] at h
    dsimp only
    split
    · exact serving_remove h.1
    split
    · exact serving_abort h.1
    · next hcomplete =>
      rw [uploadEof_complete hcomplete]
      exact hserving
  · next pending chunked he =>
    rw [Serving, he] at h
    split
    · exact serving_remove h.1
    · exact hserving

theorem serving_onTcpWritable {ok : Bool} (hadmits : Admits names a.fields)
    (h : Serving names tcp m f) (hwritable : f.onTcpWritable tcp ok oks a = some f') : Serving names tcp m f' := by
  unfold onTcpWritable at hwritable
  split at hwritable
  · next id method started chunked pending he =>
    rw [Serving, he] at h
    obtain ⟨hopen, rfl, x, hx, hanswering⟩ := h
    have hopen' : .close tcp ∉ (f.call [.write tcp pending ok]).calls := by simpa [call] using hopen
    have hsent : sentTo tcp (f.call [.write tcp pending ok]).calls = sentTo tcp f.calls ++ if ok then pending else [] := by
      rw [call, sentTo_append, sentTo_write]
    dsimp only at hwritable
    cases ok with
    | true =>
      rw [if_pos rfl] at hwritable hsent
      refine serving_download hadmits ?_ hwritable
      refine serving_opened (AList.lookup_insert _) hopen' hx ⟨hanswering.owner, hanswering.method, fun hstarted => ?_,
        fun hstarted => ?_⟩
      · obtain ⟨hnone, hpending⟩ := hanswering.unstarted hstarted
        exact ⟨hsent.trans (by rw [hnone, hpending]; rfl), rfl⟩
      · obtain ⟨head, pieces, hbegun, hcounts⟩ := hanswering.begun hstarted
        rw [← hsent] at hbegun
        refine ⟨head, pieces, ?_, hcounts⟩
        rwa [List.append_nil]
    | false =>
      simp only [Bool.false_eq_true, if_false] at hwritable hsent
      cases hwritable
      refine serving_opened he hopen' hx ?_
      rwa [hsent, List.append_nil]
  · next pending chunked he =>
    rw [Serving, he] at h
    exact serving_flush he h.1 h.2 hwritable
  · cases hwritable
    exact h

/-- At shutdown a socket is aborted, if it still has an entry. -/
theorem serving_aborted (h : Serving names tcp m f) : Serving names tcp m (f.abort tcp) := by
  cases he : f.reqs.lookup tcp with
  | none =>
    rw [Serving, he] at h
    refine serving_none (lookup_remove _ tcp) ?_
    rw [abort, calls_remove, call, sentTo_append, sentTo_abort, List.append_nil]
    simpa using h
  | some e =>
    rw [Serving, he] at h
    cases e with
    | head timer => exact h.elim
    | finishing pending chunked => exact serving_abort h.1
    | opened id method started chunked pending => exact serving_abort h.1

/-! ### Where a socket stands -/

/-- **Where a socket stands**: it has no entry, its request is awaited and nothing was done to it, or a
request is served. Once a request was parsed, it is the one that is served. -/
inductive Met (names : List UInt8 → Prop) (tcp : ℕ) (o : Option Method) (f : Fetch) : Prop
  | gone (ho : o = none) (hnone : f.reqs.lookup tcp = none) : Met names tcp o f
  | awaited {timer : ℕ} (ho : o = none) (he : f.reqs.lookup tcp = some (.head timer))
      (hquiet : ∀ c ∈ f.calls, c.tcp ≠ tcp) : Met names tcp o f
  | served (m : Method) (ho : ∀ m', o = some m' → m' = m) (h : Serving names tcp m f) : Met names tcp o f

variable {o : Option Method}

theorem download_idle (h : f.h3 tcp = none) (a : DlTurn) : f.download tcp a = some f := by
  unfold download
  split
  · next he => cases (Opened.h3 ⟨_, _, _, _, he⟩).symm.trans h
  · rfl

theorem upload_idle (h : f.h3 tcp = none) (rx : List UInt8) (turns : List Turn) (a : DlTurn) :
    f.upload tcp rx turns a = some f := by
  unfold upload
  split
  · next he => cases (Opened.h3 ⟨_, _, _, _, he⟩).symm.trans h
  · rfl

theorem h3_gone (h : f.reqs.lookup tcp = none) : f.h3 tcp = none := by rw [h3, h, Option.bind_none]

theorem h3_awaited {timer : ℕ} (h : f.reqs.lookup tcp = some (.head timer)) : f.h3 tcp = none := by
  rw [h3, h, Option.bind_some]
  rfl

theorem met_headData {parsed : Parsed}
    (hadmits : Admits names a.fields) {timer : ℕ} (he : f.reqs.lookup tcp = some (.head timer))
    (hquiet : ∀ c ∈ f.calls, c.tcp ≠ tcp) (h : f.headData tcp parsed tunnel opened sent rx turns a = some f') :
    Met names tcp none f' := by
  cases parsed with
  | need =>
    cases h
    exact .awaited rfl he hquiet
  | refused code phrase =>
    cases h
    exact .gone rfl (lookup_remove f tcp)
  | fetch req =>
    cases req with
    | error r =>
      cases h
      exact .gone rfl (lookup_remove f tcp)
    | ok req => exact .served req.method nofun (serving_headData hadmits hquiet h)

variable (h : Met names tcp o f)
include h

theorem Met.apart {t : ℕ} (ht : t ≠ tcp) (hapart : Apart t f f') : Met names tcp o f' := by
  have hreqs := hapart.reqs tcp (Ne.symm ht)
  obtain ⟨cs, hcs, hall⟩ := hapart.calls
  cases h with
  | gone ho hnone => exact .gone ho (hreqs.trans hnone)
  | awaited ho he hquiet =>
    refine .awaited ho (hreqs.trans he) fun c hc => ?_
    rw [hcs, List.mem_append] at hc
    rcases hc with hc | hc
    · exact hquiet c hc
    · exact hall c hc ▸ ht
  | served m ho h => exact .served m ho (h.apart ht hapart)

theorem Met.ebb {ex : Exchanges Owner}
    (hex : ∀ id x, f.ex.lookup id = some x → x.owner = .fetch tcp → ∃ y, ex.lookup id = some y ∧ Ebbs x y) :
    Met names tcp o { f with ex } := by
  cases h with
  | gone ho hnone => exact .gone ho hnone
  | awaited ho he hquiet => exact .awaited ho he hquiet
  | served m ho h => exact .served m ho (h.ebb fun id x _ => hex id x)

theorem Met.onReady {r : Ready} (hadmits : Admits names a.fields)
    (hready : f.onReady tcp r rx turns a = some f') : Met names tcp o f' := by
  have hidle (hh3 : f.h3 tcp = none) : f' = f := by
    cases r with
    | readable => exact Option.some.inj (hready.symm.trans (download_idle hh3 a))
    | writable => exact Option.some.inj (hready.symm.trans (upload_idle hh3 rx turns a))
  cases h with
  | gone ho hnone => exact hidle (h3_gone hnone) ▸ .gone ho hnone
  | awaited ho he hquiet => exact hidle (h3_awaited he) ▸ .awaited ho he hquiet
  | served m ho h => exact .served m ho (serving_onReady hadmits h hready)

theorem Met.onTcpData {parsed : Parsed} (hadmits : Admits names a.fields)
    (hdata : f.onTcpData tcp parsed tunnel opened sent rx turns a = some f') : Met names tcp o f' := by
  cases h with
  | gone ho hnone =>
    rw [Fetch.onTcpData, hnone] at hdata
    cases hdata
    exact .gone ho hnone
  | awaited ho he hquiet =>
    rw [Fetch.onTcpData, he] at hdata
    exact ho ▸ met_headData hadmits he hquiet hdata
  | served m ho h => exact .served m ho (serving_onTcpData hadmits h hdata)

theorem Met.onTcpEnd {error : Bool} {buffered : UInt64} :
    Met names tcp o (f.onTcpEnd tcp error buffered) := by
  cases h with
  | gone ho hnone =>
    rw [Fetch.onTcpEnd, hnone]
    exact .gone ho hnone
  | awaited ho he hquiet =>
    rw [Fetch.onTcpEnd, he]
    cases error <;> exact .gone ho (lookup_remove f tcp)
  | served m ho h => exact .served m ho (serving_onTcpEnd h)

theorem Met.onTcpWritable {ok : Bool} (hadmits : Admits names a.fields)
    (hwritable : f.onTcpWritable tcp ok oks a = some f') : Met names tcp o f' := by
  cases h with
  | gone ho hnone =>
    rw [Fetch.onTcpWritable, hnone] at hwritable
    cases hwritable
    exact .gone ho hnone
  | awaited ho he hquiet =>
    rw [Fetch.onTcpWritable, he] at hwritable
    cases hwritable
    exact .awaited ho he hquiet
  | served m ho h => exact .served m ho (serving_onTcpWritable hadmits h hwritable)

/-- The timer of a socket fires: its request was awaited. -/
theorem Met.onTimer {timer : ℕ} (hlookup : f.timers.lookup timer = some tcp)
    (hof : f.timerOf tcp = some timer) (htimer : f.onTimer timer = some f') : Met names tcp o f' := by
  obtain ⟨e, he, hhead⟩ := Option.bind_eq_some_iff.mp hof
  cases h with
  | gone ho hnone => cases hnone.symm.trans he
  | awaited ho =>
    refine .gone ho ?_
    rw [Fetch.onTimer, hlookup, Option.map_some] at htimer
    cases htimer
    dsimp only
    split <;> exact AList.lookup_erase tcp f.reqs
  | served m ho h =>
    rw [Serving, he] at h
    cases e with
    | head timer => exact h.elim
    | opened => cases hhead
    | finishing => cases hhead

theorem Met.abort : Met names tcp o (f.abort tcp) := by
  cases h with
  | gone ho => exact .gone ho (lookup_remove _ tcp)
  | awaited ho => exact .gone ho (lookup_remove _ tcp)
  | served m ho h => exact .served m ho (serving_aborted h)

end Fetch

namespace Fronts

open Fetch

variable {w w' : Fronts} {tcp : ℕ} {o : Option Method} {cfg : MitmCfg} {a : Callback × Answers}

/-- A response with these fields, and a body that comes in one read. -/
def respAnswers (fields : List Field) (body : List UInt8) : Answers :=
  { fetchAnswers with dl := ⟨fields, .ok false, true, [⟨fun _ => .ok (body, true), true, [true]⟩]⟩ }

/-- A client for the runs below. -/
def fetchCfg : MitmCfg := ⟨⟨fun _ => true, fun _ => true, fun _ => true⟩, ascii "Bearer t", 10, 10⟩

/-- The client has accepted socket 2. -/
def awaiting : Fronts := { start with fetch := start.fetch.onAccepted 2 0 }

/-- The client has opened request 7 for the head on socket 2. -/
def asked : Fronts := ((next fetchCfg awaiting (.tcpData 2, fetchAnswers))).getD start

/-- The client has read the response. -/
def answered (fields : List Field) (body : List UInt8) : Fronts :=
  (next fetchCfg asked (.event (.readable 7), respAnswers fields body)).getD start

end Fronts

end MqProxy.Client
