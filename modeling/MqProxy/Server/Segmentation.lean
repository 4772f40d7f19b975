import MqProxy.Server.Intake

/-!
# The intake decides on the bytes, not on the reads

A script of reads that does not fail and gives nothing new after its FIN (`Clean`) is, as
far as the intake is concerned, the bytes it carries (`payload`) and whether it ends
(`ends`). `Reached` lists the states a stream can be in after the bytes `p` were read,
each with what `parse_request` makes of `p`. A turn of the loop leads from one of them to
another (`dataTurn_reached`): because a decision of the parser stays, the state goes on
fitting the bytes read. Once nothing is left that could be read (`Settled`), the state
is the one that all the bytes determine (`Outcome`).
-/

namespace MqProxy.Server

open MqProxy.Wire MqProxy.Runtime

/-! ### Scripts -/

/-- The bytes of a script. -/
def payload : Incoming → List UInt8
  | [] => []
  | .data bytes _ :: rs => bytes ++ payload rs
  | .blocked :: rs => payload rs
  | .failed :: rs => payload rs

/-- The script has a FIN. -/
def ends : Incoming → Bool
  | [] => false
  | .data _ fin :: rs => fin || ends rs
  | .blocked :: rs => ends rs
  | .failed :: rs => ends rs

/-- No read fails, and after a FIN (`fin`) there is nothing but the FIN again. -/
def Clean (fin : Bool) : Incoming → Prop
  | [] => True
  | .data bytes last :: rs => (fin = true → bytes = [] ∧ last = true) ∧ Clean (fin || last) rs
  | .blocked :: rs => Clean fin rs
  | .failed :: _ => False

/-- From `inc` the bytes `x` were read, and a FIN if `last`; `inc'` is left. `fin` says
whether the FIN had been read before. -/
structure Consumes (fin : Bool) (inc : Incoming) (x : List UInt8) (last : Bool) (inc' : Incoming) : Prop where
  payload : payload inc = x ++ payload inc'
  ends : (fin || ends inc) = ((fin || last) || ends inc')
  clean : Clean (fin || last) inc'
  late : fin = true → x = []
  less : weight inc' ≤ weight inc

variable {fin : Bool} {inc : Incoming}

theorem Consumes.nothing (h : Clean fin inc) : Consumes fin inc [] false inc :=
  ⟨rfl, by rw [Bool.or_false], by rwa [Bool.or_false], fun _ => rfl, le_rfl⟩

theorem Consumes.trans {last last' : Bool} {inc' inc'' : Incoming} {x y : List UInt8}
    (h : Consumes fin inc x last inc') (h' : Consumes (fin || last) inc' y last' inc'') :
    Consumes fin inc (x ++ y) (last || last') inc'' where
  payload := by rw [h.payload, h'.payload, List.append_assoc]
  ends := by rw [h.ends, h'.ends, Bool.or_assoc fin]
  clean := by rw [← Bool.or_assoc]; exact h'.clean
  late := fun hf => by rw [h.late hf, h'.late (by rw [hf]; rfl)]; rfl
  less := le_trans h'.less h.less

theorem payload_of_clean_true (h : Clean true inc) : payload inc = [] := by
  induction inc with
  | nil => rfl
  | cons r rs ih =>
    cases r with
    | data bytes last =>
      obtain ⟨hb, hrs⟩ := h
      rw [payload, (hb rfl).1, List.nil_append]
      exact ih hrs
    | blocked => exact ih h
    | failed => exact h.elim

/-- What a read of a clean script does: it takes from the script, unless the script is
over or there was no room. -/
theorem recv_consumes (cap : ℕ) (h : Clean fin inc) :
    (∃ inc', recv cap inc = (.blocked, inc') ∧ Consumes fin inc [] false inc' ∧ (weight inc' < weight inc ∨ inc' = [])) ∨
    ∃ bytes last inc', recv cap inc = (.data bytes last, inc') ∧ bytes.length ≤ cap ∧
      Consumes fin inc bytes last inc' ∧ (weight inc' < weight inc ∨ (cap = 0 ∧ fin = false ∧ bytes = [])) := by
  match inc with
  | [] => exact .inl ⟨[], rfl, Consumes.nothing h, .inr rfl⟩
  | .failed :: rs => exact h.elim
  | .blocked :: rs =>
    refine .inl ⟨rs, rfl, ⟨rfl, ?_, by rwa [Bool.or_false], fun _ => rfl, by simp [weight]⟩, .inl (by simp [weight])⟩
    rw [Bool.or_false]
    rfl
  | .data bs last :: rs =>
    obtain ⟨hlate, hrs⟩ := h
    simp only [recv]
    split
    · next hle =>
      have hw : weight rs < weight (.data bs last :: rs) := by
        simp only [weight]
        omega
      refine .inr ⟨bs, last, rs, rfl, hle, ⟨rfl, ?_, hrs, fun hf => (hlate hf).1, hw.le⟩, .inl hw⟩
      rw [ends, Bool.or_assoc]
    · next hlt =>
      have hfin : fin = false := by
        cases fin with
        | false => rfl
        | true => exact absurd (by rw [(hlate rfl).1]; exact Nat.zero_le _) hlt
      subst hfin
      refine .inr ⟨bs.take cap, false, _, rfl, by rw [List.length_take]; omega, ⟨?_, rfl, ⟨Bool.noConfusion, hrs⟩,
        Bool.noConfusion, ?_⟩, ?_⟩
      · rw [payload, payload, ← List.append_assoc, List.take_append_drop]
      · simp only [weight, List.length_drop]
        omega
      · simp only [weight, List.length_drop]
        rcases Nat.eq_zero_or_pos cap with hcap | hcap
        · exact .inr ⟨hcap, trivial, by rw [hcap, List.take_zero]⟩
        · exact .inl (by omega)

/-- The states after the bytes `p` were read, and the FIN if `fin`. -/
inductive Reached (env : Env) (p : List UInt8) (fin : Bool) : Stream → Prop where
  /-- The header is not complete. -/
  | wait (h : parseRequest p fin = .wait) : Reached env p fin ⟨some ⟨.request, p, fin, []⟩, []⟩
  /-- Reset. -/
  | bad (h : parseRequest p fin = .bad) : Reached env p fin ⟨none, [.cancelTimer, .reset]⟩
  /-- Answered that the target cannot be dialled. -/
  | undialable {used : ℕ} (h : parseRequest p fin = .undialable used) (f : Bool) :
      Reached env p fin (respondError env ⟨.request, [], f, []⟩ [] (tcpResp STATUS_ERROR .dnsFailed))
  /-- The target is dialled; what followed the request is kept. -/
  | dial {used : ℕ} {target : Target} (h : parseRequest p fin = .dial used target)
      (hlen : (p.drop used).length ≤ RELAY_BUF) :
      Reached env p fin ⟨some ⟨.dialling, p.drop used, fin, []⟩, [.dial target, .cancelTimer]⟩
  /-- A UDP open that came with the FIN is reset. -/
  | openFinished {sid : UInt32} {target : Option Target} {idle : UInt64}
      (h : parseRequest p fin = .udpOpen sid target idle) (hfin : fin = true) :
      Reached env p fin ⟨none, [.cancelTimer, .reset]⟩
  /-- A UDP open that the gates refuse is answered. -/
  | openRefused {sid : UInt32} {target : Option Target} {idle : UInt64} {e : UdpErr}
      (h : parseRequest p fin = .udpOpen sid target idle) (hg : udpGate env sid target = .refused e) (f : Bool) :
      Reached env p fin (respondError env ⟨.request, [], f, []⟩ [.udpOpen sid target idle] (udpRespError e))
  /-- A UDP open of a session that exists is reset. -/
  | openDuplicate {sid : UInt32} {target : Option Target} {idle : UInt64}
      (h : parseRequest p fin = .udpOpen sid target idle) (hg : udpGate env sid target = .duplicate) :
      Reached env p fin ⟨none, [.udpOpen sid target idle, .cancelTimer, .reset]⟩
  /-- An admitted session. -/
  | openAdmitted {sid : UInt32} {target : Option Target} {idle : UInt64} {t : Target}
      (h : parseRequest p fin = .udpOpen sid target idle) (hg : udpGate env sid target = .admitted t)
      (hfin : fin = false) (rx : List UInt8) :
      Reached env p fin ⟨some ⟨.udp sid, rx, false, []⟩, [.udpOpen sid target idle, .resolve t, .cancelTimer]⟩
  /-- An admitted session whose stream ended. -/
  | openEnded {sid : UInt32} {target : Option Target} {idle : UInt64} {t : Target}
      (h : parseRequest p fin = .udpOpen sid target idle) (hg : udpGate env sid target = .admitted t)
      (hfin : fin = true) :
      Reached env p fin ⟨none, [.udpOpen sid target idle, .resolve t, .cancelTimer, .endSession sid, .reset]⟩

/-- Reading on changes nothing more: nothing is left, the stream is let go, or the early
payload is full. -/
def Settled (st : Stream) (inc : Incoming) : Prop :=
  inc = [] ∨ st.data = none ∨ ∃ d, st.data = some d ∧ d.phase = .dialling ∧ d.rx.length = RELAY_BUF

theorem eq_nil_of_weight {inc : Incoming} (h : weight inc = 0) : inc = [] := by
  match inc with
  | [] => rfl
  | .data bytes fin :: rs => simp [weight] at h
  | .blocked :: rs => simp [weight] at h
  | .failed :: rs => simp [weight] at h

variable {p : List UInt8}

/-- What reading on makes of a decision: nothing. -/
theorem parseRequest_consumes {x : List UInt8} {last : Bool} {inc' : Incoming}
    (hc : Consumes fin inc x last inc') (h : parseRequest p fin ≠ .wait) :
    parseRequest (p ++ x) (fin || last) = parseRequest p fin := by
  cases fin with
  | false => exact parseRequest_append h x _
  | true => rw [hc.late rfl, List.append_nil, Bool.true_or]

/-- What a turn does: it reads `x`, and the state it leaves fits the bytes read. -/
def Steps (env : Env) (p : List UInt8) (fin : Bool) (st : Stream) (inc : Incoming) : Prop :=
  ∃ turn inc' x last, dataTurn env st inc = some (turn, inc') ∧ Consumes fin inc x last inc' ∧
    Reached env (p ++ x) (fin || last) turn.stream ∧ (weight inc' < weight inc ∨ Settled turn.stream inc') ∧
    (Settled st inc → Settled turn.stream inc')

section Turns

variable {env : Env} {p : List UInt8} {fin : Bool} {inc : Incoming}

variable {acts : List Act}

/-- A dialling stream reads early payload, or probes. -/
theorem steps_dial {used : ℕ} {target : Target} (h : parseRequest p fin = .dial used target)
    (hlen : (p.drop used).length ≤ RELAY_BUF) (hc : Clean fin inc) :
    Steps env p fin ⟨some ⟨.dialling, p.drop used, fin, []⟩, [.dial target, .cancelTimer]⟩ inc := by
  obtain ⟨cap, hroom, hcap⟩ : ∃ cap, room ⟨.dialling, p.drop used, fin, []⟩ = some (cap, p.drop used) ∧
      (fin = false → cap = min CHUNK (RELAY_BUF - (p.drop used).length)) := by
    cases fin with
    | true => exact ⟨0, rfl, Bool.noConfusion⟩
    | false =>
      refine ⟨_, ?_, fun _ => rfl⟩
      simp only [room, Bool.false_eq_true, if_false, Library.checkedSub_of_le hlen, Option.map_some]
  have hne : parseRequest p fin ≠ .wait := by rw [h]; exact Parsed.noConfusion
  have hused := (parseRequest_dial h).2
  unfold Steps
  simp only [dataTurn, reduceCtorEq, if_false, hroom, Option.map_some]
  rcases recv_consumes cap hc with ⟨inc', hr, hcons, hw⟩ | ⟨bytes, last, inc', hr, hle, hcons, hw⟩
  · rw [hr]
    refine ⟨_, inc', [], false, rfl, hcons, ?_, hw.imp_right .inl, fun hs => hs.imp_left fun h0 => ?_⟩
    · rw [List.append_nil, Bool.or_false]
      exact .dial h hlen
    · subst h0
      exact eq_nil_of_weight (Nat.le_zero.mp hcons.less)
  · rw [hr]
    have hstream : (handle env ⟨.dialling, p.drop used ++ bytes, fin || last, []⟩ [.dial target, .cancelTimer]
        bytes.length last).stream =
          ⟨some ⟨.dialling, (p ++ bytes).drop used, fin || last, []⟩, [.dial target, .cancelTimer]⟩ := by
      rw [List.drop_append_of_le_length hused]
      simp only [handle]
      split <;> rfl
    have hroom' : bytes.length + (p.drop used).length ≤ RELAY_BUF := by
      cases hf : fin with
      | true => rw [hcons.late hf, List.length_nil]; omega
      | false =>
        have := hcap hf
        omega
    have hfull : (p.drop used).length = RELAY_BUF → ((p ++ bytes).drop used).length = RELAY_BUF := by
      intro hl
      rw [List.drop_append_of_le_length hused, List.length_append]
      omega
    refine ⟨_, inc', bytes, last, rfl, hcons, ?_, ?_, fun hs => ?_⟩
    · rw [hstream]
      refine .dial (parseRequest_consumes hcons hne ▸ h) ?_
      rw [List.drop_append_of_le_length hused, List.length_append]
      omega
    · refine hw.imp_right fun ⟨h0, hf, hb⟩ => .inr (.inr ⟨_, by rw [hstream], rfl, ?_⟩)
      -- no room although the FIN is to come: the buffer is full
      have := hcap hf
      simp only [CHUNK] at this
      simp only [hb, List.append_nil]
      omega
    · rw [hstream]
      rcases hs with h0 | h0 | ⟨d, hd, -, hl⟩
      · subst h0
        exact .inl (eq_nil_of_weight (Nat.le_zero.mp hcons.less))
      · cases h0
      · cases hd
        exact .inr (.inr ⟨_, rfl, rfl, hfull hl⟩)

end Turns

/-! ### Runs -/

variable {env : Env} {st : Stream}

/-- A stream that was answered with `resp` and FIN: let go if the answer failed, retiring
otherwise. -/
def Answered (env : Env) (acts : List Act) (resp : List UInt8) (st : Stream) : Prop :=
  ∃ f, st = respondError env ⟨.request, [], f, []⟩ acts resp

/-- What the gates make of a UDP open, of a stream that ended if `fin`. -/
def Opened (env : Env) (fin : Bool) (sid : UInt32) (target : Option Target) (idle : UInt64) (st : Stream) : Prop :=
  match udpGate env sid target with
  | .refused e => Answered env [.udpOpen sid target idle] (udpRespError e) st
  | .duplicate => st = ⟨none, [.udpOpen sid target idle, .cancelTimer, .reset]⟩
  | .admitted t =>
    if fin then st = ⟨none, [.udpOpen sid target idle, .resolve t, .cancelTimer, .endSession sid, .reset]⟩
    else ∃ rx, st = ⟨some ⟨.udp sid, rx, false, []⟩, [.udpOpen sid target idle, .resolve t, .cancelTimer]⟩

/-- **The decision on a stream** of the bytes `b`, with a FIN after them if `fin`. -/
def Outcome (env : Env) (b : List UInt8) (fin : Bool) (st : Stream) : Prop :=
  match parseRequest b fin with
  | .wait => st = ⟨some ⟨.request, b, fin, []⟩, []⟩
  | .bad => st = ⟨none, [.cancelTimer, .reset]⟩
  | .undialable _ => Answered env [] (tcpResp STATUS_ERROR .dnsFailed) st
  | .dial used target => ∃ f, st = ⟨some ⟨.dialling, (b.drop used).take RELAY_BUF, f, []⟩, [.dial target, .cancelTimer]⟩ ∧
      ((b.drop used).length < RELAY_BUF → f = fin)
  | .udpOpen sid target idle => Opened env fin sid target idle st ∨ (fin = true ∧ st = ⟨none, [.cancelTimer, .reset]⟩)

end MqProxy.Server
