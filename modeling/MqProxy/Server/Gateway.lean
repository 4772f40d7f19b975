import MqProxy.Library.Runs
import MqProxy.Library.Table
import MqProxy.Runtime.Relay
import MqProxy.Server.GatewayIntake

/-!
# The gateway's requests

`Gateway` and `GwCore` of `mq-proxy/src/server/gateway/mod.rs`: a request is entered, its
header section is judged (`intake`), and it is handed to the origin or answered with an
error (`send_error`). What the relay of an admitted request does is left open: it may make
any calls for its own request. Shutdown and the log of finished requests are left out.

`gateway_gate` says that nothing reaches the origin but what the gate was open to, and
that under masquerade every request that fails before or at the token check gets the same
answer, whatever was wrong with it.
-/

namespace MqProxy.Server

open MqProxy.Http MqProxy.Library MqProxy.Runtime
open MqProxy.Ingress.HttpConnect (ascii)

/-- `GwState`, without what the relay of a request holds. -/
inductive GwState where
  | intake
  | origin
  | done
  deriving DecidableEq

/-- `GwReq`. -/
structure GwReq where
  authed : Bool
  state : GwState
  reqMeta : Option ReqMeta
  status : ℕ

/-- A request as it is entered. -/
def GwReq.new : GwReq := ⟨false, .intake, none, 0⟩

/-- `GwCore`. -/
structure GwCore where
  masquerade : Bool
  /-- The server's token, cut to the wire limit. -/
  token : List UInt8
  reqs : AList fun _ : ℕ => GwReq

/-- What the gateway asks of others. -/
inductive Call where
  /-- `h3_send_headers`. -/
  | sendHeaders (id : ℕ) (hs : List Field) (fin : Bool)
  /-- `h3_reset`. -/
  | reset (id : ℕ)
  /-- `mark_conn_authed` of the request's connection. -/
  | markConnAuthed (id : ℕ)
  /-- `origin.start`. -/
  | originStart (id : ℕ) (a : Admitted)

/-- The request a call is for. -/
def Call.id : Call → ℕ
  | .sendHeaders id _ _ => id
  | .reset id => id
  | .markConnAuthed id => id
  | .originStart id _ => id

/-- What others answer during an `intake`. -/
structure Answers where
  /-- The fields that `h3_recv_headers` reports, and its result. -/
  fields : List Field
  recv : Except StreamError Bool
  /-- `h3_req_info` knows the request. -/
  info : Bool
  /-- `origin.start` accepts the request. -/
  start : Bool
  /-- `h3_send_headers`. -/
  send : Except StreamError Unit

/-- A small block counts as sent if it is blocked. -/
def sent : Except StreamError Unit → Bool
  | .ok () => true
  | .error e => e = .blocked

namespace GwCore

/-- A request is replaced. -/
def put (g : GwCore) (id : ℕ) (r : GwReq) : GwCore := { g with reqs := g.reqs.insert id r }

/-- `send_error`. -/
def sendError (g : GwCore) (id status : ℕ) (xmq : List UInt8) (send : Except StreamError Unit) : GwCore × List Call :=
  match g.reqs.lookup id with
  | none => (g, [])
  | some r =>
    -- one answer per request
    if r.state = .done then (g, [])
    else
      let masq := g.masquerade && !r.authed
      let status := if masq then 404 else status
      let hs := [(ascii ":status", ascii (toString status))] ++
        (if masq then [] else [(ascii "x-mq-error", xmq)]) ++ [(ascii "content-length", ascii "0")]
      (g.put id { r with status, state := .done },
        [.sendHeaders id hs true] ++ if sent send then [] else [.reset id])

/-- A request that passed every check is handed to the origin, which may refuse it. -/
def start (g : GwCore) (id : ℕ) (r : GwReq) (a : Admitted) (ans : Answers) : GwCore × List Call :=
  if ans.start then (g.put id { r with state := .origin }, [.originStart id a])
  else
    let (g, calls) := g.sendError id 502 (ascii "origin-start-failed") ans.send
    (g, .originStart id a :: calls)

/-- `intake` of a request `r`. -/
def intake (http : HttpCrate) (g : GwCore) (id : ℕ) (r : GwReq) (ans : Answers) : GwCore × List Call :=
  match ans.recv with
  | .error e => if e = .blocked then (g, []) else g.sendError id 400 (ascii "bad-request") ans.send
  | .ok fin =>
    let d := (Capture.ofSection http ans.fields fin).decide http g.token
    let mark := if d.authed && ans.info then [Call.markConnAuthed id] else []
    let r := { r with authed := d.authed, reqMeta := d.reqMeta }
    let g := g.put id r
    let (g, calls) := match d.outcome with
      | .error (status, xmq) => g.sendError id status xmq ans.send
      | .ok a => g.start id r a ans
    (g, mark ++ calls)

end GwCore

/-- What happens to the gateway's requests. -/
inductive GwEvent where
  /-- `H3Request`; `known` if `h3_req_info` knows it. -/
  | request (id : ℕ) (known : Bool)
  /-- `H3Readable`. -/
  | readable (id : ℕ) (ans : Answers)
  /-- The relay of an admitted request makes calls, and may finish it. -/
  | relay (id : ℕ) (calls : List Call) (finish : Bool)
  /-- `H3Closed`. -/
  | closed (id : ℕ)

/-- The gateway, and the calls it has made. -/
structure Gateway where
  core : GwCore
  calls : List Call

/-- The new state of the gateway and the calls, for one event. -/
def GwCore.onEvent (http : HttpCrate) (g : GwCore) : GwEvent → GwCore × List Call
  | .request id known => (if known then g.put id .new else g, [])
  | .readable id ans =>
    match g.reqs.lookup id with
    | none => (g, [])
    | some r => if r.state = .intake then g.intake http id r ans else (g, [])
  | .relay id calls finish =>
    match g.reqs.lookup id with
    | none => (g, [])
    | some r => (if finish then g.put id { r with state := .done } else g, calls)
  | .closed id => ({ g with reqs := g.reqs.erase id }, [])

/-- One event. -/
def Gateway.step (http : HttpCrate) (t : Gateway) (e : GwEvent) : Option Gateway :=
  let (core, calls) := t.core.onEvent http e
  some ⟨core, t.calls ++ calls⟩

/-- The relay works for requests of the origin only, sends and resets for its own one. -/
def Relays (t : Gateway) : GwEvent → Prop
  | .relay id calls _ =>
    (∃ r, t.core.reqs.lookup id = some r ∧ r.state = .origin) ∧
      ∀ c ∈ calls, c.id = id ∧ ∀ a, c ≠ .originStart id a
  | _ => True

/-- A new gateway. -/
def Gateway.new (masquerade : Bool) (token : List UInt8) : Gateway := ⟨⟨masquerade, token, ∅⟩, []⟩

/-- The request an event is about. -/
def GwEvent.id : GwEvent → ℕ
  | .request id _ => id
  | .readable id _ => id
  | .relay id _ _ => id
  | .closed id => id

/-! ### What an event touches -/

variable {http : HttpCrate} {g : GwCore} {id id' : ℕ} {r : GwReq}

theorem GwCore.lookup_put (g : GwCore) (id : ℕ) (r : GwReq) : (g.put id r).reqs.lookup id = some r :=
  AList.lookup_insert _

theorem GwCore.lookup_put_ne (g : GwCore) (r : GwReq) (h : id' ≠ id) :
    (g.put id r).reqs.lookup id' = g.reqs.lookup id' :=
  AList.lookup_insert_ne h

/-- What a function of the gateway touches: the request it is for, and it makes calls for no other. -/
structure Only (g : GwCore) (id : ℕ) (out : GwCore × List Call) : Prop where
  masquerade : out.1.masquerade = g.masquerade
  token : out.1.token = g.token
  others : ∀ id' ≠ id, out.1.reqs.lookup id' = g.reqs.lookup id'
  calls : ∀ c ∈ out.2, c.id = id

theorem only_nil (g : GwCore) (id : ℕ) : Only g id (g, []) := ⟨rfl, rfl, fun _ _ => rfl, by simp⟩

theorem only_put (r : GwReq) {calls : List Call} (h : ∀ c ∈ calls, c.id = id) : Only g id (g.put id r, calls) :=
  ⟨rfl, rfl, fun _ hne => g.lookup_put_ne r hne, h⟩

theorem Only.after {r : GwReq} {out : GwCore × List Call} (h : Only (g.put id r) id out) {pre : List Call}
    (hpre : ∀ c ∈ pre, c.id = id) : Only g id (out.1, pre ++ out.2) := by
  refine ⟨h.masquerade, h.token, fun id' hne => (h.others id' hne).trans (g.lookup_put_ne r hne), fun c hc => ?_⟩
  rcases List.mem_append.mp hc with hc | hc
  · exact hpre c hc
  · exact h.calls c hc

theorem only_sendError (status : ℕ) (xmq : List UInt8) (send : Except StreamError Unit) :
    Only g id (g.sendError id status xmq send) := by
  rw [GwCore.sendError]
  split
  · exact only_nil g id
  · split
    · exact only_nil g id
    · refine only_put _ fun c hc => ?_
      simp only [List.cons_append, List.nil_append, List.mem_cons] at hc
      rcases hc with rfl | hc
      · rfl
      · split at hc
        · cases hc
        · rw [List.mem_singleton.mp hc]
          rfl

theorem only_start (a : Admitted) (ans : Answers) : Only g id (g.start id r a ans) := by
  rw [GwCore.start]
  split
  · refine only_put _ fun c hc => ?_
    rw [List.mem_singleton.mp hc]
    rfl
  · have hsend : Only g id (g.sendError id 502 (ascii "origin-start-failed") ans.send) := only_sendError _ _ _
    refine ⟨hsend.masquerade, hsend.token, hsend.others, fun c hc => ?_⟩
    rcases List.mem_cons.mp hc with rfl | hc
    · rfl
    · exact hsend.calls c hc

theorem only_intake (ans : Answers) : Only g id (g.intake http id r ans) := by
  rw [GwCore.intake]
  split
  · split
    · exact only_nil g id
    · exact only_sendError _ _ _
  · next fin _ =>
    let d := (Capture.ofSection http ans.fields fin).decide http g.token
    refine Only.after (r := { r with authed := d.authed, reqMeta := d.reqMeta }) ?_ fun c hc => ?_
    · split
      · exact only_sendError _ _ _
      · exact only_start _ _
    · split at hc
      · rw [List.mem_singleton.mp hc]
        rfl
      · cases hc

theorem only_onEvent (http : HttpCrate) {t : Gateway} {e : GwEvent} (h : Relays t e) : Only t.core e.id (t.core.onEvent http e) := by
  cases e with
  | request id known =>
    cases known
    · exact only_nil _ _
    · exact only_put _ (by simp)
  | readable id ans =>
    simp only [GwCore.onEvent]
    split
    · exact only_nil _ _
    · split
      · exact only_intake ans
      · exact only_nil _ _
  | relay id calls finish =>
    obtain ⟨⟨r, hr, -⟩, hcalls⟩ := h
    simp only [GwCore.onEvent, hr]
    cases finish
    · exact ⟨rfl, rfl, fun _ _ => rfl, fun c hc => (hcalls c hc).1⟩
    · exact only_put _ fun c hc => (hcalls c hc).1
  | closed id => exact ⟨rfl, rfl, fun _ hne => AList.lookup_erase_ne hne, by simp [GwCore.onEvent]⟩

/-! ### The gate -/

/-- **The gate lets a section in.** -/
def LetIn (http : HttpCrate) (token : List UInt8) (ans : Answers) : Prop :=
  (∃ fin, ans.recv = .ok fin) ∧ Authorized http ans.fields token

theorem notMem_sendError {status : ℕ} {xmq : List UInt8} {send : Except StreamError Unit} {a : Admitted} :
    .originStart id' a ∉ (g.sendError id status xmq send).2 := by
  rw [GwCore.sendError]
  split
  · simp
  · split
    · simp
    · split <;> simp

/-- **What is handed to the origin passed every check.** -/
theorem letIn_of_start {ans : Answers} {a : Admitted} (h : .originStart id' a ∈ (g.intake http id r ans).2) :
    id' = id ∧ LetIn http g.token ans ∧ Aimed http ans.fields a := by
  have honly : Only g id (g.intake http id r ans) := only_intake ans
  have hid := honly.calls _ h
  rw [GwCore.intake] at h
  split at h
  · split at h
    · cases h
    · exact absurd h notMem_sendError
  · next fin hrecv =>
    rcases List.mem_append.mp h with h | h
    · split at h <;> simp at h
    · split at h
      · exact absurd h notMem_sendError
      · next a' hok =>
        obtain ⟨hauthorized, haimed⟩ := (captured_spec http ans.fields fin).decide_ok hok
        have ha : a = a' := by
          rw [GwCore.start] at h
          split at h
          · simp only [List.mem_singleton, Call.originStart.injEq] at h
            exact h.2
          · rcases List.mem_cons.mp h with h | h
            · exact (Call.originStart.inj h).2
            · exact absurd h notMem_sendError
        exact ⟨hid, ⟨⟨fin, hrecv⟩, hauthorized⟩, ha ▸ haimed⟩

theorem start_of_onEvent {t : Gateway} {e : GwEvent} {a : Admitted} (hrelays : Relays t e)
    (h : .originStart id a ∈ (t.core.onEvent http e).2) :
    ∃ ans, e = .readable id ans ∧ LetIn http t.core.token ans ∧ Aimed http ans.fields a := by
  cases e with
  | request id' known => simp [GwCore.onEvent] at h
  | readable id' ans =>
    simp only [GwCore.onEvent] at h
    split at h
    · cases h
    · split at h
      · obtain ⟨rfl, hlet, haimed⟩ := letIn_of_start h
        exact ⟨ans, rfl, hlet, haimed⟩
      · cases h
  | relay id' calls finish =>
    obtain ⟨⟨r, hr, -⟩, hcalls⟩ := hrelays
    simp only [GwCore.onEvent, hr] at h
    obtain ⟨hid, hne⟩ := hcalls _ h
    exact absurd (show Call.originStart id a = .originStart id' a by rw [← hid]; rfl) (hne a)
  | closed id' => simp [GwCore.onEvent] at h

/-! ### Masquerade -/

/-- What the peer sees of a call. -/
inductive Output where
  | head (hs : List Field) (fin : Bool)
  | reset
  deriving DecidableEq

/-- What the peer sees of a call. -/
def Call.output : Call → Option Output
  | .sendHeaders _ hs fin => some (.head hs fin)
  | .reset _ => some .reset
  | .markConnAuthed _ | .originStart _ _ => none

/-- What the peer sees on a request. -/
def outputs (id : ℕ) (calls : List Call) : List Output := (calls.filter fun c => c.id = id).filterMap Call.output

/-- **The answer of a masquerading gateway**: a bare 404, and a reset if it cannot be sent. -/
def masked (ok : Bool) : List Output :=
  .head [(ascii ":status", ascii "404"), (ascii "content-length", ascii "0")] true :: if ok then [] else [.reset]

theorem outputs_append (id : ℕ) (calls calls' : List Call) :
    outputs id (calls ++ calls') = outputs id calls ++ outputs id calls' := by
  rw [outputs, List.filter_append, List.filterMap_append, outputs, outputs]

/-- The error reply to a request that is not authenticated, under masquerade. -/
theorem sendError_masked (hmasq : g.masquerade = true) (hr : g.reqs.lookup id = some r) (hstate : r.state ≠ .done)
    (hauthed : r.authed = false) (status : ℕ) (xmq : List UInt8) (send : Except StreamError Unit) :
    outputs id (g.sendError id status xmq send).2 = masked (sent send) ∧
      ∃ r', (g.sendError id status xmq send).1.reqs.lookup id = some r' ∧ r'.state = .done := by
  simp only [GwCore.sendError, hr, if_neg hstate, hmasq, hauthed]
  refine ⟨?_, _, g.lookup_put id _, rfl⟩
  cases hsent : sent send <;> simp [outputs, Call.id, Call.output, masked] <;> decide

/-- A section that the gate is closed to. -/
theorem intake_masked (hmasq : g.masquerade = true) (hr : g.reqs.lookup id = some .new) {ans : Answers}
    (hsection : ans.recv ≠ .error .blocked) (hnot : ¬LetIn http g.token ans) :
    outputs id (g.intake http id .new ans).2 = masked (sent ans.send) ∧
      ∃ r', (g.intake http id .new ans).1.reqs.lookup id = some r' ∧ r'.state = .done := by
  rw [GwCore.intake]
  split
  · next e hrecv =>
    rw [if_neg (fun h => hsection (by rw [hrecv, h]))]
    exact sendError_masked hmasq hr (by simp [GwReq.new]) rfl _ _ _
  · next fin hrecv =>
    have hauthed : ((Capture.ofSection http ans.fields fin).decide http g.token).authed = false := by
      rw [← Bool.not_eq_true, (captured_spec http ans.fields fin).decide_authed_iff]
      exact fun h => hnot ⟨⟨fin, hrecv⟩, h⟩
    simp only [hauthed, Bool.false_and, Bool.false_eq_true, if_false, List.nil_append]
    split
    · apply sendError_masked (g := g.put id _) hmasq (g.lookup_put id _)
      · simp [GwReq.new]
      · rfl
    · next a hok =>
      -- a request that is admitted passed the token check
      obtain ⟨hauthorized, -⟩ := (captured_spec http ans.fields fin).decide_ok hok
      exact absurd ⟨⟨fin, hrecv⟩, hauthorized⟩ hnot

/-- A header section was received, or an error. -/
def Answers.hasSection (ans : Answers) : Bool :=
  match ans.recv with
  | .ok _ => true
  | .error e => e ≠ .blocked

/-- The first header section of a request, or the error in its place. -/
def firstSection (id : ℕ) : List GwEvent → Option Answers
  | [] => none
  | .readable id' ans :: evs => if id' = id ∧ ans.hasSection then some ans else firstSection id evs
  | .request _ _ :: evs | .relay _ _ _ :: evs | .closed _ :: evs => firstSection id evs

/-- An event that keeps to the rules, and neither enters nor closes a request. -/
def Lives (id : ℕ) (t : Gateway) (e : GwEvent) : Prop :=
  Relays t e ∧ (∀ known, e ≠ .request id known) ∧ e ≠ .closed id

theorem recv_ne_of_hasSection {ans : Answers} : ans.hasSection = true ↔ ans.recv ≠ .error .blocked := by
  rw [Answers.hasSection]
  split
  · next h => simp [h]
  · next h => simp [h]

variable {t t' : Gateway} {e : GwEvent}

theorem Gateway.step_eq_some (h : t.step http e = some t') :
    t'.core = (t.core.onEvent http e).1 ∧ t'.calls = t.calls ++ (t.core.onEvent http e).2 := by
  cases h
  exact ⟨rfl, rfl⟩

/-- An event of another request is not seen. -/
theorem step_other (hrelays : Relays t e) (hne : e.id ≠ id) (h : t.step http e = some t') :
    t'.core.reqs.lookup id = t.core.reqs.lookup id ∧ outputs id t'.calls = outputs id t.calls := by
  obtain ⟨hcore, hcalls⟩ := Gateway.step_eq_some h
  have honly := only_onEvent http hrelays
  rw [hcore, hcalls, outputs_append]
  refine ⟨honly.others id hne.symm, ?_⟩
  have hnone : (t.core.onEvent http e).2.filter (fun c => c.id = id) = [] := by
    rw [List.filter_eq_nil_iff]
    intro c hc
    rw [honly.calls c hc]
    simpa using hne
  rw [outputs, outputs, hnone, List.filterMap_nil, List.append_nil]

/-- **A finished request gets no further output.** -/
theorem done_step (hlives : Lives id t e) (hdone : ∃ r, t.core.reqs.lookup id = some r ∧ r.state = .done)
    (h : t.step http e = some t') :
    (∃ r, t'.core.reqs.lookup id = some r ∧ r.state = .done) ∧ outputs id t'.calls = outputs id t.calls := by
  obtain ⟨hrelays, hrequest, hclosed⟩ := hlives
  by_cases hid : e.id = id
  · obtain ⟨r, hr, hstate⟩ := hdone
    obtain ⟨hcore, hcalls⟩ := Gateway.step_eq_some h
    cases e with
    | request id' known => exact absurd (by rw [← hid]; rfl) (hrequest known)
    | readable id' ans =>
      obtain rfl : id' = id := hid
      simp only [GwCore.onEvent, hr, hstate, reduceCtorEq, if_false, List.append_nil] at hcore hcalls
      exact ⟨⟨r, by rw [hcore]; exact hr, hstate⟩, by rw [hcalls]⟩
    | relay id' calls finish =>
      obtain rfl : id' = id := hid
      obtain ⟨⟨r', hr', horigin⟩, -⟩ := hrelays
      obtain rfl : r = r' := Option.some.inj (hr.symm.trans hr')
      rw [hstate] at horigin
      cases horigin
    | closed id' => exact absurd (by rw [← hid]; rfl) hclosed
  · obtain ⟨hlookup, hout⟩ := step_other hrelays hid h
    exact ⟨hlookup ▸ hdone, hout⟩

theorem done_run {evs : List GwEvent} (hrun : Run (Gateway.step http) (Lives id) t evs t')
    (hdone : ∃ r, t.core.reqs.lookup id = some r ∧ r.state = .done) : outputs id t'.calls = outputs id t.calls := by
  have hinv := hrun.invariant
    (I := fun u => (∃ r, u.core.reqs.lookup id = some r ∧ r.state = .done) ∧ outputs id u.calls = outputs id t.calls)
    (fun u e u' hu hlives hstep => by
      obtain ⟨hdone, hout⟩ := done_step hlives hu.1 hstep
      exact ⟨hdone, hout.trans hu.2⟩) ⟨hdone, rfl⟩
  exact hinv.2

/-- **A request that the gate is closed to is answered once**, whatever happens then. -/
theorem masked_run {evs : List GwEvent} (hrun : Run (Gateway.step http) (Lives id) t evs t')
    (hmasq : t.core.masquerade = true) (hnew : t.core.reqs.lookup id = some .new) {ans : Answers}
    (hfirst : firstSection id evs = some ans) (hnot : ¬LetIn http t.core.token ans) :
    outputs id t'.calls = outputs id t.calls ++ masked (sent ans.send) := by
  induction hrun with
  | nil t => cases hfirst
  | @cons t t₁ t' e evs hlives hstep hrun ih =>
    have honly := only_onEvent http hlives.1
    obtain ⟨hcore, hcalls⟩ := Gateway.step_eq_some hstep
    have hmasq₁ : t₁.core.masquerade = true := by rw [hcore, honly.masquerade, hmasq]
    have htoken₁ : t₁.core.token = t.core.token := by rw [hcore, honly.token]
    by_cases hid : e.id = id
    · cases e with
      | request id' known => exact absurd (by rw [← hid]; rfl) (hlives.2.1 known)
      | relay id' calls finish =>
        obtain rfl : id' = id := hid
        obtain ⟨⟨r', hr', horigin⟩, -⟩ := hlives.1
        obtain rfl : GwReq.new = r' := Option.some.inj (hnew.symm.trans hr')
        cases horigin
      | closed id' => exact absurd (by rw [← hid]; rfl) hlives.2.2
      | readable id' ans' =>
        obtain rfl : id' = id := hid
        have hstate : GwReq.new.state = .intake := rfl
        simp only [GwCore.onEvent, hnew, hstate, if_true] at hcore hcalls
        by_cases hsection : ans'.hasSection = true
        · -- the section is judged here, and the request is done
          rw [firstSection, if_pos ⟨rfl, hsection⟩, Option.some.injEq] at hfirst
          subst hfirst
          obtain ⟨hout, hdone⟩ := intake_masked hmasq hnew (recv_ne_of_hasSection.mp hsection) hnot
          rw [done_run hrun (hcore ▸ hdone), hcalls, outputs_append]
          exact congrArg _ hout
        · rw [firstSection, if_neg (fun h => hsection h.2)] at hfirst
          have hblocked : ans'.recv = .error .blocked := not_not.mp (mt recv_ne_of_hasSection.mpr hsection)
          simp only [GwCore.intake, hblocked, if_true, List.append_nil] at hcore hcalls
          rw [ih hmasq₁ (hcore ▸ hnew) hfirst (htoken₁ ▸ hnot), hcalls]
    · obtain ⟨hlookup, hout⟩ := step_other hlives.1 hid hstep
      have hfirst' : firstSection id evs = some ans := by
        cases e with
        | readable id' ans' =>
          rw [firstSection, if_neg (fun h => hid h.1)] at hfirst
          exact hfirst
        | request | relay | closed => exact hfirst
      rw [ih hmasq₁ (hlookup.trans hnew) hfirst' (htoken₁ ▸ hnot), hout]

/-! ### The gateway -/

/-- In a run, what is handed to the origin was let in. -/
theorem start_of_run {evs : List GwEvent} {a : Admitted} (hrun : Run (Gateway.step http) Relays t evs t')
    (h : .originStart id a ∈ t'.calls) :
    .originStart id a ∈ t.calls ∨ ∃ ans, .readable id ans ∈ evs ∧ LetIn http t.core.token ans ∧ Aimed http ans.fields a := by
  induction hrun with
  | nil t => exact .inl h
  | @cons t t₁ t' e evs hrelays hstep hrun ih =>
    obtain ⟨hcore, hcalls⟩ := Gateway.step_eq_some hstep
    have htoken : t₁.core.token = t.core.token := by rw [hcore, (only_onEvent http hrelays).token]
    rcases ih h with hmem | ⟨ans, hmem, hlet, haimed⟩
    · rw [hcalls, List.mem_append] at hmem
      rcases hmem with hmem | hmem
      · exact .inl hmem
      · obtain ⟨ans, rfl, hlet, haimed⟩ := start_of_onEvent hrelays hmem
        exact .inr ⟨ans, List.mem_cons_self, hlet, haimed⟩
    · exact .inr ⟨ans, List.mem_cons_of_mem _ hmem, htoken ▸ hlet, haimed⟩

/-- **The gate and the masquerade.** Whatever header sections a gateway receives: a request is
handed to the origin only if its section was let in and names a method, scheme, authority and
path that pass; and under masquerade, two requests whose sections are not let in are answered
alike, with one bare 404 and its FIN, or with a reset after it where it cannot be sent. -/
theorem gateway_gate (http : HttpCrate) :
    (∀ masquerade token evs t, Run (Gateway.step http) Relays (.new masquerade token) evs t →
      ∀ id a, .originStart id a ∈ t.calls →
        ∃ ans, .readable id ans ∈ evs ∧ LetIn http token ans ∧ Aimed http ans.fields a) ∧
    ∀ (core core' : GwCore) (id id' : ℕ) (evs evs' : List GwEvent) (t t' : Gateway) (ans ans' : Answers),
      core.masquerade = true → core'.masquerade = true →
      core.reqs.lookup id = some .new → core'.reqs.lookup id' = some .new →
      Run (Gateway.step http) (Lives id) ⟨core, []⟩ evs t → Run (Gateway.step http) (Lives id') ⟨core', []⟩ evs' t' →
      firstSection id evs = some ans → firstSection id' evs' = some ans' →
      ¬LetIn http core.token ans → ¬LetIn http core'.token ans' →
      outputs id t.calls = masked (sent ans.send) ∧ outputs id' t'.calls = masked (sent ans'.send) ∧
        (sent ans.send = sent ans'.send → outputs id t.calls = outputs id' t'.calls) := by
  refine ⟨fun masquerade token evs t hrun id a h => ?_, ?_⟩
  · rcases start_of_run hrun h with hmem | hlet
    · cases hmem
    · exact hlet
  · intro core core' id id' evs evs' t t' ans ans' hmasq hmasq' hnew hnew' hrun hrun' hfirst hfirst' hnot hnot'
    have hout := masked_run hrun hmasq hnew hfirst hnot
    have hout' := masked_run hrun' hmasq' hnew' hfirst' hnot'
    refine ⟨hout, hout', fun hsent => ?_⟩
    rw [hout, hout', hsent]
    rfl

/-- A request that fails to be received and one with a wrong token look the same. -/
theorem gateway_gate_masked :
    ∃ t t' : Gateway,
      Run (Gateway.step ⟨fun _ => true, fun _ => true, fun _ => true⟩) (Lives 1)
        ⟨⟨true, ascii "secret", AList.insert 1 .new ∅⟩, []⟩
        [.readable 1 ⟨[], .error .reset, true, true, .ok ()⟩] t ∧
      Run (Gateway.step ⟨fun _ => true, fun _ => true, fun _ => true⟩) (Lives 1)
        ⟨⟨true, ascii "secret", AList.insert 1 .new ∅⟩, []⟩
        [.readable 1 ⟨[(ascii "x-mq-auth", ascii "Bearer wrong")], .ok true, true, true, .ok ()⟩] t' ∧
      outputs 1 t.calls = outputs 1 t'.calls := by
  have hone : ∀ ans t, Gateway.step ⟨fun _ => true, fun _ => true, fun _ => true⟩
      ⟨⟨true, ascii "secret", AList.insert 1 .new ∅⟩, []⟩ (.readable 1 ans) = some t →
      Run (Gateway.step ⟨fun _ => true, fun _ => true, fun _ => true⟩) (Lives 1)
        ⟨⟨true, ascii "secret", AList.insert 1 .new ∅⟩, []⟩ [.readable 1 ans] t :=
    fun _ t hstep => .cons ⟨trivial, by simp, by simp⟩ hstep (.nil t)
  have hrun := hone ⟨[], .error .reset, true, true, .ok ()⟩ _ rfl
  have hrun' := hone ⟨[(ascii "x-mq-auth", ascii "Bearer wrong")], .ok true, true, true, .ok ()⟩ _ rfl
  refine ⟨_, _, hrun, hrun', ((gateway_gate _).2 _ _ 1 1 _ _ _ _ _ _ rfl rfl rfl rfl hrun hrun' rfl rfl ?_ ?_).2.2 rfl⟩
  · rintro ⟨⟨fin, hfin⟩, -⟩
    cases hfin
  · rintro ⟨-, hauthorized⟩
    obtain ⟨-, v, hv, htoken⟩ := hauthorized.token
    rw [show lastValue "x-mq-auth" [(ascii "x-mq-auth", ascii "Bearer wrong")] = some (ascii "Bearer wrong") from rfl,
      Option.some.injEq] at hv
    rw [← hv] at htoken
    exact absurd htoken (by decide)

end MqProxy.Server
