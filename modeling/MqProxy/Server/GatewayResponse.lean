import MqProxy.Library.History
import MqProxy.Library.Runs
import MqProxy.Server.GatewayRelay

/-!
# The response of a request

What the bridge reports for a request goes out on its H3 request: one header section, the bytes of
the frames, and a FIN. The gateway holds back what the transport does not take, and the bridge holds
the next frame for as long as something waits. **`response_relayed`**: for every order of reports
that the bridge keeps to and every answer of the transport, what was accepted is a prefix of
what was reported, a FIN comes after all of it, and a body that is too short ends in a reset.
-/

namespace MqProxy.Server

open MqProxy.Http MqProxy.Library MqProxy.Runtime
open MqProxy.Client (bodyCheckApplies)

/-! ### What the log says -/

/-- The bytes of the frames that were reported. -/
def framesOf (log : List GwNote) : List UInt8 :=
  log.flatMap fun
    | .frame bs => bs
    | _ => []

/-- The bytes that the transport took. -/
def acceptedOf (log : List GwNote) : List UInt8 :=
  log.flatMap fun
    | .body bs => bs
    | _ => []

/-- Notes that have nothing to do with the reply. -/
def GwNote.mute : GwNote → Bool
  | .recv _ _ | .drained _ | .polled _ | .aborted | .failure _ _ => true
  | _ => false

/-- Notes that leave a reply open: something of it went out, or nothing. -/
def GwNote.isPart : GwNote → Bool
  | .headers _ last ok => !(last && ok)
  | .body _ => true
  | e => e.mute

/-- A header section that was accepted. -/
def GwNote.isHead : GwNote → Bool
  | .headers _ _ ok => ok
  | _ => false

/-- A FIN: alone, or with the header section of an error. -/
def GwNote.isFin : GwNote → Bool
  | .fin _ | .headers _ true true => true
  | _ => false

/-- The end of a reply: a FIN, or the request is over. -/
def GwNote.isClose : GwNote → Bool
  | .finished => true
  | e => e.isFin

/-- Something that is done for the request: all that goes out, but for what `drain` discards. -/
def GwNote.isSend : GwNote → Bool
  | .headers _ _ _ | .body _ | .fin _ | .reset => true
  | _ => false

/-- The body is as long as its head declares, where a body is allowed. -/
def Passes (m : Method) (head : RelayHead) (done : Completion) : Prop :=
  bodyCheckApplies m head.status = true → ∀ n, head.cl = some n → n ≤ done.delivered

/-- **What may go out** after a past, and what the reports say about it. -/
def Sends (m : Method) (past : List GwNote) : GwNote → Prop
  | .response _ => ∀ head, .response head ∉ past
  | .bodyEnd done =>
    (∀ d, .bodyEnd d ∉ past) ∧ done.delivered = (framesOf past).length ∧
      ∃ head, .response head ∈ past ∧ done.cl = head.cl
  | .headers _ _ _ => .finished ∉ past ∧ (∀ ok, .fin ok ∉ past) ∧ ∀ hs last, .headers hs last true ∉ past
  | .body bs =>
    .finished ∉ past ∧ acceptedOf past ++ bs <+: framesOf past ∧ ∃ hs, .headers hs false true ∈ past
  | .fin _ =>
    .finished ∉ past ∧ (∀ ok, .fin ok ∉ past) ∧ (∀ hs, .headers hs true true ∉ past) ∧
      acceptedOf past = framesOf past ∧ (∃ hs, .headers hs false true ∈ past) ∧
      ∃ head done, .response head ∈ past ∧ .bodyEnd done ∈ past ∧ Passes m head done
  | .reset => .finished ∉ past
  | _ => True

@[simp] theorem framesOf_append (log log' : List GwNote) : framesOf (log ++ log') = framesOf log ++ framesOf log' :=
  List.flatMap_append

@[simp] theorem acceptedOf_append (log log' : List GwNote) :
    acceptedOf (log ++ log') = acceptedOf log ++ acceptedOf log' :=
  List.flatMap_append

theorem framesOf_mute {ns : List GwNote} (h : ∀ e ∈ ns, e.mute = true) : framesOf ns = [] := by
  refine List.flatMap_eq_nil_iff.mpr fun e he => ?_
  have hm := h e he
  cases e <;> first | rfl | cases hm

theorem acceptedOf_mute {ns : List GwNote} (h : ∀ e ∈ ns, e.mute = true) : acceptedOf ns = [] := by
  refine List.flatMap_eq_nil_iff.mpr fun e he => ?_
  have hm := h e he
  cases e <;> first | rfl | cases hm

theorem lawful_mute {m : Method} {log ns : List GwNote} (hl : Lawful (Sends m) log) (h : ∀ e ∈ ns, e.mute = true) :
    Lawful (Sends m) (log ++ ns) := by
  induction ns using List.reverseRecOn with
  | nil => simpa using hl
  | append_singleton ns e ih =>
    rw [← List.append_assoc]
    refine lawful_snoc.mpr ⟨ih fun e' he' => h e' (by simp [he']), ?_⟩
    have he := h e (by simp)
    cases e <;> trivial

/-! ### The invariant -/

/-- The head that waits. -/
def GwPhase.head : GwPhase → Option (List Field)
  | .origin _ head _ _ => head
  | .done => none

/-- The bytes that wait. -/
def GwPhase.pending : GwPhase → List UInt8
  | .origin _ _ pending _ => pending
  | .done => []

/-- A FIN waits. -/
def GwPhase.finDue : GwPhase → Bool
  | .origin _ _ _ finDue => finDue
  | .done => false

/-- The bridge's record and what it has reported. -/
structure Heard (q : BridgeRec) (log : List GwNote) : Prop where
  responded : q.responded = true ↔ ∃ head, .response head ∈ log
  quiet : q.responded = false → framesOf log = []
  delivered : q.delivered = (framesOf log).length
  cl : ∀ head, .response head ∈ log → q.cl = head.cl
  unended : q.ended = false → ∀ done, .bodyEnd done ∉ log

/-- **A reply that goes out**: all that was reported was accepted or waits. -/
structure Live (m : Method) (q : BridgeRec) (r : GwRelay) : Prop where
  heard : Heard q r.log
  method : r.method = m
  lawful : Lawful (Sends m) r.log
  goesOn : ∀ e ∈ r.log, e.isClose = false
  frames : framesOf r.log = acceptedOf r.log ++ r.phase.pending
  asked : r.phase.head.isSome = true → q.responded = true
  unsent : r.phase.head.isSome = true ∨ q.responded = false → ∀ hs, .headers hs false true ∉ r.log
  sent : q.responded = true → r.phase.head = none → ∃ hs, .headers hs false true ∈ r.log
  due : r.phase.finDue = true ↔ ∃ done, .bodyEnd done ∈ r.log
  passes : ∀ head done, .response head ∈ r.log → .bodyEnd done ∈ r.log → Passes m head done
  status : ∀ head, .response head ∈ r.log → r.status = head.status

/-- A reply that is over, or about to be: a body that was too short ended in a reset. -/
structure Ending (m : Method) (q : BridgeRec) (log : List GwNote) : Prop where
  heard : Heard q log
  lawful : Lawful (Sends m) log
  closed : q.ended = true ∨ .reset ∈ log
  shorts : ∀ head done, .response head ∈ log → .bodyEnd done ∈ log → Passes m head done ∨ .reset ∈ log

/-- The reply of a request. -/
structure Replies (m : Method) (q : BridgeRec) (r : GwRelay) : Prop where
  live : r.phase ≠ .done → Live m q r
  done : r.phase = .done → Ending m q r.log ∧ .finished ∈ r.log

variable {m : Method} {q : BridgeRec} {r r' : GwRelay} {log : List GwNote}

theorem Live.replies (h : Live m q r) (hphase : r.phase ≠ .done) : Replies m q r :=
  ⟨fun _ => h, fun hp => absurd hp hphase⟩

/-! ### Steps that say nothing -/

/-- A part of a callback that leaves the reply alone. -/
structure Mutely (r r' : GwRelay) : Prop where
  method : r'.method = r.method
  status : r'.status = r.status
  head : r'.phase.head = r.phase.head
  pending : r'.phase.pending = r.phase.pending
  finDue : r'.phase.finDue = r.phase.finDue
  done : r'.phase = .done ↔ r.phase = .done
  log : ∃ ns, r'.log = r.log ++ ns ∧ ∀ e ∈ ns, e.mute = true

theorem Heard.grow {ns : List GwNote} (h : Heard q log) (hframes : framesOf ns = [])
    (hresponse : ∀ head, .response head ∉ ns) (hend : ∀ done, .bodyEnd done ∉ ns) : Heard q (log ++ ns) := by
  have hmem (head : RelayHead) : .response head ∈ log ++ ns ↔ .response head ∈ log := by simp [hresponse]
  refine ⟨?_, fun hq => ?_, ?_, fun head hhead => h.cl head ((hmem head).mp hhead), fun hq done hdone => ?_⟩
  · simpa only [hmem] using h.responded
  · rw [framesOf_append, hframes, h.quiet hq, List.append_nil]
  · rw [framesOf_append, hframes, List.append_nil, h.delivered]
  · rw [List.mem_append, or_iff_left (hend done)] at hdone
    exact h.unended hq done hdone

theorem Heard.mute {ns : List GwNote} (h : Heard q log) (hns : ∀ e ∈ ns, e.mute = true) : Heard q (log ++ ns) :=
  h.grow (framesOf_mute hns) (fun _ hmem => by cases hns _ hmem) fun _ hmem => by cases hns _ hmem

theorem isPart_of_mute {e : GwNote} (h : e.mute = true) : e.isPart = true := by
  cases e <;> first | rfl | cases h

theorem isClose_of_isPart {e : GwNote} (h : e.isPart = true) : e.isClose = false := by
  cases e with
  | headers hs last ok => cases last <;> cases ok <;> first | rfl | cases h
  | _ => first | rfl | cases h

variable (h : Live m q r)
include h

theorem Live.unclosed {e : GwNote} (he : e.isClose = true) : e ∉ r.log := fun hmem => by
  rw [h.goesOn e hmem] at he
  cases he

/-- A header section may go out if none did. -/
theorem Live.sends_headers (hnone : r.phase.head.isSome = true ∨ q.responded = false) (hs : List Field)
    (last ok : Bool) : Lawful (Sends m) (r.log ++ [.headers hs last ok]) := by
  refine lawful_snoc.mpr ⟨h.lawful, h.unclosed rfl, fun _ => h.unclosed rfl, fun hs' fin => ?_⟩
  cases fin with
  | true => exact h.unclosed rfl
  | false => exact h.unsent hnone hs'

/-- Something goes out for a reply, or nothing does: what changes is what was accepted and what waits. -/
theorem Live.send {ns : List GwNote} (hlog : r'.log = r.log ++ ns)
    (hpart : ∀ e ∈ ns, e.isPart = true) (hlawful : Lawful (Sends m) r'.log)
    (hsame : r'.method = r.method ∧ r'.status = r.status ∧ r'.phase.finDue = r.phase.finDue)
    (hframes : framesOf r'.log = acceptedOf r'.log ++ r'.phase.pending)
    (hasked : r'.phase.head.isSome = true → r.phase.head.isSome = true)
    (hunsent : r'.phase.head.isSome = true ∨ q.responded = false → ∀ hs, .headers hs false true ∉ ns)
    (hsent : r'.phase.head = none → r.phase.head = none ∨ ∃ hs, .headers hs false true ∈ ns) : Live m q r' := by
  have hmem {e : GwNote} (he : e.isPart = false) : e ∈ r'.log ↔ e ∈ r.log := by
    rw [hlog, List.mem_append, or_iff_left fun hmem => by rw [hpart e hmem] at he; cases he]
  have hnoframes : framesOf ns = [] := by
    refine List.flatMap_eq_nil_iff.mpr fun e he => ?_
    have hp := hpart e he
    cases e <;> first | rfl | cases hp
  exact
    { heard := hlog ▸ h.heard.grow hnoframes (fun _ hin => by cases hpart _ hin) fun _ hin => by cases hpart _ hin
      method := hsame.1.trans h.method
      lawful := hlawful
      goesOn := fun e he => by
        rw [hlog, List.mem_append] at he
        exact he.elim (h.goesOn e) fun hin => isClose_of_isPart (hpart e hin)
      frames := hframes
      asked := fun hhead => h.asked (hasked hhead)
      unsent := fun hor hs hin => by
        rw [hlog, List.mem_append, or_iff_left (hunsent hor hs)] at hin
        exact h.unsent (hor.imp_left hasked) hs hin
      sent := fun hq hnone => by
        rw [hlog]
        rcases hsent hnone with hwas | ⟨hs, hin⟩
        · obtain ⟨hs, hin⟩ := h.sent hq hwas
          exact ⟨hs, List.mem_append_left _ hin⟩
        · exact ⟨hs, List.mem_append_right _ hin⟩
      due := by
        rw [hsame.2.2, h.due]
        exact exists_congr fun _ => (hmem rfl).symm
      passes := fun head done hhead hdone => h.passes head done ((hmem rfl).mp hhead) ((hmem rfl).mp hdone)
      status := fun head hhead => hsame.2.1.trans (h.status head ((hmem rfl).mp hhead)) }

theorem Live.mutely (hm : Mutely r r') : Live m q r' := by
  obtain ⟨hmethod, hstatus, hhead, hpending, hfinDue, -, ns, hlog, hns⟩ := hm
  refine h.send hlog (fun e he => isPart_of_mute (hns e he)) (hlog ▸ lawful_mute h.lawful hns)
    ⟨hmethod, hstatus, hfinDue⟩ ?_ (by rw [hhead]; exact id) (fun _ _ hin => by cases hns _ hin)
    fun hnone => Or.inl (hhead ▸ hnone)
  rw [hpending, hlog, framesOf_append, acceptedOf_append, framesOf_mute hns, acceptedOf_mute hns, List.append_nil,
    List.append_nil]
  exact h.frames

omit h

theorem Ending.mute {ns : List GwNote} (h : Ending m q log) (hns : ∀ e ∈ ns, e.mute = true) :
    Ending m q (log ++ ns) := by
  have hmem {e : GwNote} (he : e.mute = false) : e ∈ log ++ ns ↔ e ∈ log := by
    rw [List.mem_append, or_iff_left fun hmem => by rw [hns e hmem] at he; cases he]
  refine ⟨h.heard.mute hns, lawful_mute h.lawful hns, h.closed.imp_right (hmem rfl).mpr, fun head done hhead hdone => ?_⟩
  exact (h.shorts head done ((hmem rfl).mp hhead) ((hmem rfl).mp hdone)).imp_right (hmem rfl).mpr

theorem Replies.mutely (h : Replies m q r) (hm : Mutely r r') : Replies m q r' := by
  refine ⟨fun hlive => (h.live (hm.done.not.mp hlive)).mutely hm, fun hdone => ?_⟩
  obtain ⟨hending, hfinished⟩ := h.done (hm.done.mp hdone)
  obtain ⟨ns, hlog, hns⟩ := hm.log
  rw [hlog]
  exact ⟨hending.mute hns, List.mem_append_left _ hfinished⟩

/-! ### The end of a reply -/

theorem mutely_cutUpload (r : GwRelay) : Mutely r r.cutUpload := by
  refine ⟨rfl, rfl, rfl, rfl, rfl, Iff.rfl, _, rfl, fun e he => ?_⟩
  split at he
  · cases he
  · rw [List.mem_singleton.mp he]
    rfl

/-- The server is done with a request whose reply is over. -/
theorem Ending.finish (h : Ending m q r.log) (horigin : r.phase ≠ .done) (d : List UInt8) :
    Replies m q (r.finish d) := by
  unfold GwRelay.finish
  split
  · obtain ⟨ns, hlog, hns⟩ := (mutely_cutUpload r).log
    have hcut := h.mute hns
    refine ⟨fun hlive => absurd rfl hlive, fun _ => ?_⟩
    show Ending m q (r.cutUpload.log ++ [.finished, .drained d]) ∧ _ ∈ r.cutUpload.log ++ [.finished, .drained d]
    rw [hlog]
    refine ⟨?_, by simp⟩
    have hfinished : Ending m q (r.log ++ ns ++ [.finished]) := by
      refine ⟨hcut.heard.grow rfl (by simp) (by simp), lawful_snoc.mpr ⟨hcut.lawful, trivial⟩,
        hcut.closed.imp_right (by simp), fun head done hhead hdone => ?_⟩
      exact (hcut.shorts head done (by simpa using hhead) (by simpa using hdone)).imp_right (by simp)
    simpa using hfinished.mute (show ∀ e ∈ [GwNote.drained d], e.mute = true by simp [GwNote.mute])
  · next hphase => exact absurd hphase horigin

/-- A reset ends the reply, whatever went out. -/
theorem Ending.of_reset (hheard : Heard q log) (hlawful : Lawful (Sends m) log) (hunfinished : .finished ∉ log) :
    Ending m q (log ++ [.reset]) :=
  ⟨hheard.grow rfl (by simp) (by simp), lawful_snoc.mpr ⟨hlawful, hunfinished⟩, Or.inr (by simp),
    fun _ _ _ _ => Or.inr (by simp)⟩

theorem reset_replies (hheard : Heard q r.log) (hlawful : Lawful (Sends m) r.log) (hunfinished : .finished ∉ r.log)
    (horigin : r.phase ≠ .done) (d : List UInt8) : Replies m q (r.reset d) := by
  unfold GwRelay.reset
  split
  · exact Ending.finish (r := r.note [.reset]) (.of_reset hheard hlawful hunfinished) horigin d
  · next hphase => exact absurd hphase horigin

theorem Replies.reset (h : Replies m q r) (d : List UInt8) : Replies m q (r.reset d) := by
  by_cases hphase : r.phase = .done
  · rw [GwRelay.reset, hphase]
    exact h
  · have hlive := h.live hphase
    exact reset_replies hlive.heard hlive.lawful (hlive.unclosed rfl) hphase d

/-- **The error reply**: its header section is the only one. -/
theorem Replies.sendError (h : Replies m q r) (hearly : q.responded = false) (hended : q.ended = true) (status : ℕ)
    (xmq : List UInt8) (a : SendTurn) : Replies m q (r.sendError status xmq a) := by
  unfold GwRelay.sendError
  split
  · exact h
  next recvd head pending finDue hphase =>
    have horigin : r.phase ≠ .done := by rw [hphase]; exact nofun
    have hlive := h.live horigin
    have hno (head : RelayHead) : .response head ∉ r.log := fun hmem => by
      rw [hlive.heard.responded.mpr ⟨head, hmem⟩] at hearly
      cases hearly
    have hnew (hs : List Field) (ok : Bool) := hlive.sends_headers (Or.inr hearly) hs true ok
    have hheard (hs : List Field) (ok : Bool) : Heard q (r.log ++ [.headers hs true ok]) :=
      hlive.heard.grow rfl (by simp) (by simp)
    dsimp only
    split
    · refine Ending.finish ?_ ?_ a.drained
      on_goal 2 => exact horigin
      exact ⟨hheard _ _, hnew _ _, Or.inl hended, fun head _ hhead => absurd (by simpa using hhead) (hno head)⟩
    · refine Ending.finish ?_ ?_ a.drained
      on_goal 2 => exact horigin
      exact .of_reset (hheard _ _) (hnew _ _) (by simp [hlive.unclosed (e := .finished) rfl])

/-! ### What goes out -/

include h

/-- The held head: if it went out, none waits. -/
theorem Live.sendHead (horigin : r.phase ≠ .done) (a : SendTurn) :
    Live m q (r.sendHead a).1 ∧ (r.sendHead a).1.phase ≠ .done ∧
      (r.sendHead a).1.phase.pending = r.phase.pending ∧ (r.sendHead a).1.phase.finDue = r.phase.finDue ∧
      ((r.sendHead a).2 = .ok true → (r.sendHead a).1.phase.head = none) := by
  unfold GwRelay.sendHead
  split
  · next recvd hs pending finDue hphase =>
    have hheld : r.phase.head.isSome = true := by rw [hphase]; rfl
    have hnew (ok : Bool) := h.sends_headers (Or.inl hheld) hs false ok
    have hframes (ok : Bool) : framesOf (r.log ++ [.headers hs false ok]) =
        acceptedOf (r.log ++ [.headers hs false ok]) ++ pending := by
      have hbefore := h.frames
      rw [hphase] at hbefore
      rw [framesOf_append, acceptedOf_append]
      show framesOf r.log ++ [] = acceptedOf r.log ++ [] ++ pending
      rwa [List.append_nil, List.append_nil]
    split
    · refine ⟨?_, nofun, by rw [hphase]; rfl, by rw [hphase]; rfl, fun _ => rfl⟩
      refine h.send rfl (by simp [GwNote.isPart]) (hnew true) ⟨rfl, rfl, by rw [hphase]; rfl⟩ (hframes true) nofun
        (fun hor => ?_) fun _ => Or.inr ⟨hs, by simp⟩
      rw [h.asked hheld] at hor
      rcases hor with hor | hor <;> cases hor
    · refine ⟨?_, horigin, rfl, rfl, fun hout => ?_⟩
      · exact h.send rfl (by simp [GwNote.isPart]) (hnew false) ⟨rfl, rfl, rfl⟩ (by rw [GwRelay.note, hphase]; exact hframes false) id
          (by simp) fun hnone => Or.inl hnone
      · dsimp only at hout
        split at hout <;> cases hout
  · next hphase =>
    refine ⟨h, horigin, rfl, rfl, fun _ => ?_⟩
    cases hp : r.phase with
    | done => exact absurd hp horigin
    | origin recvd head pending finDue =>
      cases head with
      | none => rfl
      | some hs => exact absurd hp (hphase recvd hs pending finDue)

/-- Pending bytes wait for an accepted head. -/
theorem Live.sent_of_frames (hnone : r.phase.head = none) (hframes : framesOf r.log ≠ []) :
    ∃ hs, .headers hs false true ∈ r.log := by
  refine h.sent ?_ hnone
  by_contra hq
  exact hframes (h.heard.quiet (Bool.not_eq_true _ ▸ hq))

/-- Some of the bytes that wait go out. -/
theorem Live.takes {recvd : ℕ} {bs : List UInt8} {finDue : Bool} (hphase : r.phase = .origin recvd none bs finDue) (hsome : bs ≠ []) (n : ℕ) :
    Live m q (GwRelay.note { r with phase := .origin recvd none (bs.drop n) finDue } [.body (bs.take n)]) := by
  have hframes := h.frames
  rw [hphase] at hframes
  have hsplit : acceptedOf r.log ++ bs.take n ++ bs.drop n = framesOf r.log := by
    rw [hframes, List.append_assoc, List.take_append_drop]
    rfl
  refine h.send rfl (by simp [GwNote.isPart]) ?_ ⟨rfl, rfl, by rw [hphase]; rfl⟩ ?_ nofun (by simp)
    fun _ => Or.inl (by rw [hphase]; rfl)
  · refine lawful_snoc.mpr ⟨h.lawful, h.unclosed rfl, ⟨_, hsplit⟩, h.sent_of_frames (by rw [hphase]; rfl) ?_⟩
    rw [hframes]
    exact fun heq => hsome (List.append_eq_nil_iff.mp heq).2
  · show framesOf (r.log ++ _) = acceptedOf (r.log ++ _) ++ bs.drop n
    rw [framesOf_append, acceptedOf_append, ← hsplit]
    simp [framesOf, acceptedOf]

/-- The pending bytes: if they went out, none wait. -/
theorem Live.sendPending (horigin : r.phase ≠ .done) (hnone : r.phase.head = none) (a : SendTurn) :
    Live m q (r.sendPending a).1 ∧ (r.sendPending a).1.phase ≠ .done ∧ (r.sendPending a).1.phase.head = none ∧
      (r.sendPending a).1.phase.finDue = r.phase.finDue ∧
      ((r.sendPending a).2 = .ok true → (r.sendPending a).1.phase.pending = []) ∧
      (r.phase.pending = [] → (r.sendPending a).1.phase.pending = []) := by
  unfold GwRelay.sendPending
  split
  · next recvd head pending finDue hphase =>
    have hpending : r.phase.pending = pending := by rw [hphase]; rfl
    split
    · next hempty => exact ⟨h, horigin, hnone, rfl, fun _ => hpending.trans hempty, id⟩
    next hsome =>
      obtain rfl : head = none := by rw [hphase] at hnone; exact hnone
      split
      · next n _ =>
        refine ⟨h.takes hphase hsome n, nofun, rfl, by rw [hphase]; rfl, fun hout => ?_, fun hempty => ?_⟩
        · exact of_decide_eq_true (Except.ok.inj hout)
        · exact absurd (hpending.symm.trans hempty) hsome
      · next e _ =>
        refine ⟨h, horigin, hnone, rfl, fun hout => ?_, id⟩
        dsimp only at hout
        split at hout <;> cases hout
  · next hphase => exact absurd hphase horigin

/-- The FIN may go out. -/
theorem Live.sends_fin (hnone : r.phase.head = none) (hpending : r.phase.pending = [])
    (hdue : r.phase.finDue = true) (ok : Bool) : Lawful (Sends m) (r.log ++ [.fin ok]) := by
  obtain ⟨done, hdone⟩ := h.due.mp hdue
  obtain ⟨past, future, hlog⟩ := List.append_of_mem hdone
  obtain ⟨-, -, head, hhead, -⟩ := h.lawful past _ future hlog
  have hhead : .response head ∈ r.log := by rw [hlog]; exact List.mem_append_left _ hhead
  have hframes := h.frames
  rw [hpending, List.append_nil] at hframes
  exact lawful_snoc.mpr ⟨h.lawful, h.unclosed rfl, fun _ => h.unclosed rfl, fun _ => h.unclosed rfl, hframes.symm,
    h.sent (h.heard.responded.mpr ⟨head, hhead⟩) hnone, head, done, hhead, hdone, h.passes head done hhead hdone⟩

/-- A reply with its FIN is over. -/
theorem Live.ending_fin (hnone : r.phase.head = none) (hpending : r.phase.pending = [])
    (hdue : r.phase.finDue = true) (ok : Bool) : Ending m q (r.log ++ [.fin ok]) := by
  refine ⟨h.heard.grow rfl (by simp) (by simp), h.sends_fin hnone hpending hdue ok, Or.inl ?_, fun head done hhead hdone => ?_⟩
  · by_contra hended
    obtain ⟨done, hdone⟩ := h.due.mp hdue
    exact h.heard.unended (Bool.not_eq_true _ ▸ hended) done hdone
  · exact Or.inl (h.passes head done (by simpa using hhead) (by simpa using hdone))

omit h

/-- What `send_out` does to a reply: it stops somewhere, or all is out, with the FIN if it is due. -/
inductive SentOut (m : Method) (q : BridgeRec) (r : GwRelay) : GwRelay × Except StreamError Bool → Prop
  | part {r' : GwRelay} {out : Except StreamError Bool} : Live m q r' → r'.phase ≠ .done → out ≠ .ok true →
      (r.phase.pending = [] → r'.phase.pending = []) → SentOut m q r (r', out)
  | all {r' : GwRelay} : Live m q r' → r'.phase ≠ .done → r'.phase.pending = [] → r.phase.finDue = false →
      SentOut m q r (r', .ok true)
  | last {r' : GwRelay} {out : Except StreamError Bool} (ok : Bool) : Live m q r' → r'.phase ≠ .done →
      r'.phase.head = none → r'.phase.pending = [] → r'.phase.finDue = true → r.phase.finDue = true →
      out ≠ .ok false → SentOut m q r (r'.note [.fin ok], out)

theorem Live.sendOut (h : Live m q r) (horigin : r.phase ≠ .done) (a : SendTurn) : SentOut m q r (r.sendOut a) := by
  obtain ⟨hlive, horigin', hpending, hfinDue, hnone⟩ := h.sendHead horigin a
  unfold GwRelay.sendOut
  generalize r.sendHead a = s at hlive horigin' hpending hfinDue hnone
  obtain ⟨r₁, out₁⟩ := s
  by_cases hout₁ : out₁ = .ok true
  · subst hout₁
    obtain ⟨hlive₂, horigin₂, hnone₂, hfinDue₂, hpending₂, hempty₂⟩ := hlive.sendPending horigin' (hnone rfl) a
    show SentOut m q r (GwRelay.andThen (r₁.sendPending a) fun r => r.sendFin a)
    generalize r₁.sendPending a = s at hlive₂ horigin₂ hnone₂ hfinDue₂ hpending₂ hempty₂
    obtain ⟨r₂, out₂⟩ := s
    by_cases hout₂ : out₂ = .ok true
    · subst hout₂
      show SentOut m q r (r₂.sendFin a)
      unfold GwRelay.sendFin
      split
      · next hphase =>
        have hdue : r₂.phase.finDue = true := by rw [hphase]; rfl
        refine .last _ hlive₂ horigin₂ hnone₂ (hpending₂ rfl) hdue (by rw [← hfinDue, ← hfinDue₂]; exact hdue) ?_
        cases a.fin <;> exact nofun
      · next hphase =>
        refine .all hlive₂ horigin₂ (hpending₂ rfl) ?_
        rw [← hfinDue, ← hfinDue₂]
        show r₂.phase.finDue = false
        cases hp : r₂.phase with
        | done => rfl
        | origin recvd head pending finDue =>
          cases finDue with
          | false => rfl
          | true => exact absurd hp (hphase recvd head pending)
    · have hstop : GwRelay.andThen (r₂, out₂) (fun r => r.sendFin a) = (r₂, out₂) := by
        rcases out₂ with e | ⟨- | -⟩
        · rfl
        · rfl
        · exact absurd rfl hout₂
      rw [hstop]
      exact .part hlive₂ horigin₂ hout₂ fun hempty => hempty₂ (hpending.trans hempty)
  · have hstop : GwRelay.andThen (GwRelay.andThen (r₁, out₁) fun r => r.sendPending a) (fun r => r.sendFin a) =
        (r₁, out₁) := by
      rcases out₁ with e | ⟨- | -⟩
      · rfl
      · rfl
      · exact absurd rfl hout₁
    rw [hstop]
    exact .part hlive horigin' hout₁ hpending.trans

theorem phase_finish (r : GwRelay) (d : List UInt8) : (r.finish d).phase = .done := by
  unfold GwRelay.finish
  split
  · rfl
  · next hphase => exact hphase

theorem phase_reset (r : GwRelay) (d : List UInt8) : (r.reset d).phase = .done := by
  unfold GwRelay.reset
  split
  · exact phase_finish _ d
  · next hphase => exact hphase

theorem pending_done (h : r.phase = .done) : r.phase.pending = [] := by rw [h]; rfl

/-- **`flush`** keeps the reply in order; nothing waits behind it if all is out, and nothing new does. -/
theorem Replies.flush (h : Replies m q r) (a : SendTurn) :
    Replies m q (r.flush a).1 ∧ ((r.flush a).2 = true → (r.flush a).1.phase.pending = []) ∧
      (r.phase.pending = [] → (r.flush a).1.phase.pending = []) := by
  unfold GwRelay.flush
  split
  · next hphase => exact ⟨h, nofun, fun _ => pending_done hphase⟩
  next recvd head pending fin hphase =>
    have horigin : r.phase ≠ .done := by rw [hphase]; exact nofun
    have hfin : r.phase.finDue = fin := by rw [hphase]; rfl
    have hout := (h.live horigin).sendOut horigin a
    generalize r.sendOut a = s at hout
    cases hout with
    | @part r' out hlive horigin' hnot hempty =>
      rcases out with e | ⟨- | -⟩
      · refine ⟨(hlive.replies horigin').reset a.drained, nofun, fun _ => pending_done (phase_reset _ _)⟩
      · exact ⟨hlive.replies horigin', nofun, hempty⟩
      · exact absurd rfl hnot
    | all hlive horigin' hempty hdue =>
      rw [hfin] at hdue
      subst hdue
      exact ⟨hlive.replies horigin', fun _ => hempty, fun _ => hempty⟩
    | @last r' out ok hlive horigin' hnone hempty hdue' hdue hnot =>
      rw [hfin] at hdue
      subst hdue
      rcases out with e | ⟨- | -⟩
      · refine ⟨?_, nofun, fun _ => pending_done (phase_reset _ _)⟩
        exact reset_replies (r := r'.note [.fin ok]) (hlive.heard.grow rfl (by simp) (by simp))
          (hlive.sends_fin hnone hempty hdue' ok) (by simp [hlive.unclosed (e := .finished) rfl]) horigin' a.drained
      · exact absurd rfl hnot
      · refine ⟨?_, fun _ => pending_done (phase_finish _ _), fun _ => pending_done (phase_finish _ _)⟩
        exact Ending.finish (r := r'.note [.fin ok]) (hlive.ending_fin hnone hempty hdue' ok) horigin' a.drained

/-! ### The reports -/

variable {q' : BridgeRec}

theorem Heard.record (h : Heard q log) (hresponded : q'.responded = q.responded) (hdelivered : q'.delivered = q.delivered)
    (hcl : q'.cl = q.cl) (hended : q'.ended = false → q.ended = false) : Heard q' log :=
  ⟨hresponded ▸ h.responded, hresponded ▸ h.quiet, hdelivered.trans h.delivered, hcl ▸ h.cl,
    fun hq => h.unended (hended hq)⟩

theorem Ending.record (h : Ending m q log) (hresponded : q'.responded = q.responded)
    (hdelivered : q'.delivered = q.delivered) (hcl : q'.cl = q.cl) (hended : q'.ended = false → q.ended = false) :
    Ending m q' log := by
  refine ⟨h.heard.record hresponded hdelivered hcl hended, h.lawful, h.closed.imp_left fun hq => ?_, h.shorts⟩
  by_contra hq'
  rw [hended (Bool.not_eq_true _ ▸ hq')] at hq
  cases hq

/-- What the reply knows of the record. -/
theorem Replies.record (h : Replies m q r) (hresponded : q'.responded = q.responded)
    (hdelivered : q'.delivered = q.delivered) (hcl : q'.cl = q.cl) (hended : q'.ended = false → q.ended = false) :
    Replies m q' r := by
  refine ⟨fun hphase => ?_, fun hphase => ?_⟩
  · have hlive := h.live hphase
    exact
      { hlive with
        heard := hlive.heard.record hresponded hdelivered hcl hended
        asked := hresponded ▸ hlive.asked
        unsent := hresponded ▸ hlive.unsent
        sent := hresponded ▸ hlive.sent }
  · exact (h.done hphase).imp_left fun hending => hending.record hresponded hdelivered hcl hended

theorem Replies.ended (h : Replies m q r) : Replies m { q with ended := true } r := h.record rfl rfl rfl nofun

/-- A report on a request that is over: it was reset. -/
theorem Replies.late {e : GwNote} (h : Replies m q r) (hphase : r.phase = .done) (hopen : q.ended = false)
    (hheard : Heard q r.log → Heard q' (r.log ++ [e])) (hsends : Heard q r.log → Sends m r.log e) :
    Replies m q' (r.note [e]) := by
  obtain ⟨hending, hfinished⟩ := h.done hphase
  have hreset : .reset ∈ r.log := hending.closed.resolve_left (by simp [hopen])
  refine ⟨fun hlive => absurd hphase hlive, fun _ => ⟨?_, List.mem_append_left _ hfinished⟩⟩
  exact ⟨hheard hending.heard, lawful_snoc.mpr ⟨hending.lawful, hsends hending.heard⟩, Or.inr (by simp [hreset]),
    fun _ _ _ _ => Or.inr (by simp [hreset])⟩

/-- `on_response`. -/
theorem Replies.onResponse (h : Replies m q r) (hearly : q.responded = false) (hopen : q.ended = false)
    (hpending : r.phase.pending = []) (head : RelayHead) (a : SendTurn) :
    Replies m { q with responded := true, cl := head.cl } ((r.note [.response head]).onResponse head a) ∧
      ((r.note [.response head]).onResponse head a).phase.pending = [] := by
  have hno {log : List GwNote} (hheard : Heard q log) (head : RelayHead) : .response head ∉ log := fun hmem => by
    rw [hheard.responded.mpr ⟨head, hmem⟩] at hearly
    cases hearly
  have hheard' {log : List GwNote} (hheard : Heard q log) :
      Heard { q with responded := true, cl := head.cl } (log ++ [.response head]) := by
    refine ⟨by simp, nofun, ?_, fun head' hhead => ?_, fun _ done hdone => ?_⟩
    · rw [framesOf_append]
      exact hheard.delivered.trans (by simp [framesOf])
    · have heq : head' = head := by simpa [hno hheard] using hhead
      rw [heq]
    · exact hheard.unended hopen done (by simpa using hdone)
  unfold GwRelay.onResponse
  split
  · next hphase => exact ⟨h.late hphase hopen hheard' hno, pending_done hphase⟩
  · next recvd old pending finDue hphase =>
    have horigin : r.phase ≠ .done := by rw [show r.phase = _ from hphase]; exact nofun
    have hlive := h.live horigin
    have hwas : r.phase = .origin recvd old pending finDue := hphase
    rw [hwas] at hpending
    have hdue := hlive.due
    have hframes := hlive.frames
    rw [hwas] at hdue hframes
    have hnew : Live m { q with responded := true, cl := head.cl }
        { r with status := head.status, phase := .origin recvd (some (GwRelay.relayed head)) pending finDue,
                 log := r.log ++ [.response head] } :=
      { heard := hheard' hlive.heard
        method := hlive.method
        lawful := lawful_snoc.mpr ⟨hlive.lawful, hno hlive.heard⟩
        goesOn := List.forall_mem_append.mpr ⟨hlive.goesOn, List.forall_mem_singleton.mpr rfl⟩
        frames := by
          show framesOf (r.log ++ _) = acceptedOf (r.log ++ _) ++ pending
          rw [framesOf_append, acceptedOf_append, hframes]
          simp [framesOf, acceptedOf, GwPhase.pending]
        asked := fun _ => rfl
        unsent := fun _ hs => by simpa using hlive.unsent (Or.inr hearly) hs
        sent := nofun
        due := by simpa [GwPhase.finDue] using hdue
        passes := fun _ done _ hdone => absurd (by simpa using hdone) (hlive.heard.unended hopen done)
        status := fun head' hhead => by
          have heq : head' = head := by simpa [hno hlive.heard] using hhead
          rw [heq] }
    have hflush := (hnew.replies nofun).flush a
    exact ⟨hflush.1, hflush.2.2 hpending⟩

theorem Heard.frame (h : Heard q log) (hresponded : q.responded = true) (bs : List UInt8) (held : Bool) :
    Heard { q with delivered := q.delivered + bs.length, held } (log ++ [.frame bs]) := by
  have hframes : framesOf (log ++ [.frame bs]) = framesOf log ++ bs := by simp [framesOf]
  refine ⟨by simpa using h.responded, fun hq => ?_, ?_, fun head hhead => h.cl head (by simpa using hhead),
    fun hq done hdone => h.unended hq done (by simpa using hdone)⟩
  · rw [show q.responded = false from hq] at hresponded
    cases hresponded
  · rw [hframes, List.length_append, ← h.delivered]

/-- A frame is reported: its bytes wait. -/
theorem Live.frame (h : Live m q r) (hresponded : q.responded = true) {recvd : ℕ} {head : Option (List Field)}
    {finDue : Bool} (hphase : r.phase = .origin recvd head [] finDue) (bs : List UInt8) (held : Bool) :
    Live m { q with delivered := q.delivered + bs.length, held }
      (GwRelay.note { r with phase := .origin recvd head bs finDue } [.frame bs]) := by
  obtain ⟨hheard, hmethod, hlawful, hopen', hframes, hasked, hunsent, hsent, hdue, hpasses, hstatus⟩ := h
  rw [hphase] at hframes hasked hunsent hsent hdue
  exact
    { heard := hheard.frame hresponded bs held
      method := hmethod
      lawful := lawful_snoc.mpr ⟨hlawful, trivial⟩
      goesOn := List.forall_mem_append.mpr ⟨hopen', List.forall_mem_singleton.mpr rfl⟩
      frames := by
        show framesOf (r.log ++ _) = acceptedOf (r.log ++ _) ++ bs
        rw [framesOf_append, acceptedOf_append, hframes]
        simp [framesOf, acceptedOf, GwPhase.pending]
      asked := hasked
      unsent := fun hor hs => by simpa using hunsent hor hs
      sent := fun hq hnone => by simpa using hsent hq hnone
      due := by simpa [GwRelay.note, GwPhase.finDue] using hdue
      passes := by simpa using hpasses
      status := fun head' hhead => hstatus head' (by simpa using hhead) }

/-- **`on_body_frame`**, when nothing waits: if it reports all, nothing waits after it. -/
theorem Replies.onBodyFrame (h : Replies m q r) (hresponded : q.responded = true) (hopen : q.ended = false)
    (hpending : r.phase.pending = []) {bs : List UInt8} (hsome : bs ≠ []) (a : SendTurn) (held : Bool) :
    Replies m { q with delivered := q.delivered + bs.length, held } ((r.note [.frame bs]).onBodyFrame bs a).1 ∧
      (((r.note [.frame bs]).onBodyFrame bs a).2 = true →
        ((r.note [.frame bs]).onBodyFrame bs a).1.phase.pending = []) := by
  unfold GwRelay.onBodyFrame
  split
  · next hphase =>
    exact ⟨h.late hphase hopen (fun hheard => hheard.frame hresponded bs held) fun _ => trivial,
      fun _ => pending_done hphase⟩
  next recvd head pending finDue hphase =>
    have hwas : r.phase = .origin recvd head pending finDue := hphase
    have hempty : pending = [] := by rw [hwas] at hpending; exact hpending
    subst hempty
    have hframe := (h.live (by rw [hwas]; exact nofun)).frame hresponded hwas bs held
    dsimp only
    split
    · exact ⟨hframe.replies nofun, fun hall => absurd (of_decide_eq_true hall) hsome⟩
    next hnone =>
      obtain rfl : head = none := by simpa using hnone
      have htakes := hframe.takes rfl hsome
      split
      · next n _ =>
        split
        · next hall =>
          have hwhole := htakes bs.length
          rw [List.take_length, List.drop_length] at hwhole
          refine ⟨Live.replies ?_ ?_, fun _ => hpending⟩
          · simpa only [GwRelay.note, ← hwas] using hwhole
          · rw [GwRelay.note, GwRelay.note, hwas]
            exact nofun
        · exact ⟨(htakes n).replies nofun, nofun⟩
      · split
        · exact ⟨hframe.replies nofun, fun hall => absurd (of_decide_eq_true hall) hsome⟩
        · refine ⟨?_, fun _ => pending_done (phase_reset _ _)⟩
          exact reset_replies (r := r.note [.frame bs]) hframe.heard hframe.lawful (hframe.unclosed rfl)
            (by rw [hphase]; exact nofun) a.drained

theorem Heard.bodyEnd (h : Heard q log) (done : Completion) : Heard { q with ended := true } (log ++ [.bodyEnd done]) := by
  refine ⟨by simpa using h.responded, fun hq => ?_, ?_, fun head hhead => h.cl head (by simpa using hhead), nofun⟩
  · rw [framesOf_append, h.quiet hq]
    rfl
  · rw [framesOf_append]
    exact h.delivered.trans (by simp [framesOf])

/-- **`on_body_end`**: a body that is too short ends in a reset, and otherwise the FIN is due. -/
theorem Replies.onBodyEnd (h : Replies m q r) (hresponded : q.responded = true) (hopen : q.ended = false)
    (done : Completion) (hdelivered : done.delivered = q.delivered) (hcl : done.cl = q.cl)
    (hpending : r.phase.pending = []) (a : SendTurn) :
    Replies m { q with ended := true } ((r.note [.bodyEnd done]).onBodyEnd done a) ∧
      ((r.note [.bodyEnd done]).onBodyEnd done a).phase.pending = [] := by
  have hsends {log : List GwNote} (hheard : Heard q log) : Sends m log (.bodyEnd done) := by
    obtain ⟨head, hhead⟩ := hheard.responded.mp hresponded
    exact ⟨hheard.unended hopen, hdelivered.trans hheard.delivered, head, hhead, hcl.trans (hheard.cl head hhead)⟩
  unfold GwRelay.onBodyEnd
  split
  · next hphase =>
    exact ⟨h.late hphase hopen (fun hheard => hheard.bodyEnd done) hsends, pending_done hphase⟩
  next recvd head pending finDue hphase =>
    have hwas : r.phase = .origin recvd head pending finDue := hphase
    have hlive := h.live (by rw [hwas]; exact nofun)
    have hlawful : Lawful (Sends m) (r.log ++ [.bodyEnd done]) := lawful_snoc.mpr ⟨hlive.lawful, hsends hlive.heard⟩
    split
    · refine ⟨?_, pending_done (phase_reset _ _)⟩
      exact reset_replies (r := r.note [.bodyEnd done]) (hlive.heard.bodyEnd done) hlawful
        (by simp [hlive.unclosed (e := .finished) rfl]) (by rw [hphase]; exact nofun) a.drained
    next hlong =>
      -- the check passed, for the head that was reported
      have hpasses (head : RelayHead) (hhead : .response head ∈ r.log) : Passes m head done := by
        intro happlies n hn
        by_contra hlt
        refine hlong ?_
        have hstatus : r.status = head.status := hlive.status head hhead
        have hdone : done.cl = some n := by rw [hcl, hlive.heard.cl head hhead, hn]
        show (bodyCheckApplies r.method r.status && done.cl.any fun n => done.delivered < n) = true
        rw [hlive.method, hstatus, happlies, hdone]
        simpa using hlt
      have hnew : Live m { q with ended := true }
          { r with phase := .origin recvd head pending true, log := r.log ++ [.bodyEnd done] } := by
        obtain ⟨hheard, hmethod, -, hopen', hframes, hasked, hunsent, hsent, -, -, hstatus⟩ := hlive
        rw [hwas] at hframes hasked hunsent hsent
        exact
          { heard := hheard.bodyEnd done
            method := hmethod
            lawful := hlawful
            goesOn := List.forall_mem_append.mpr ⟨hopen', List.forall_mem_singleton.mpr rfl⟩
            frames := by
              show framesOf (r.log ++ _) = acceptedOf (r.log ++ _) ++ pending
              rw [framesOf_append, acceptedOf_append, hframes]
              simp [framesOf, acceptedOf, GwPhase.pending]
            asked := hasked
            unsent := fun hor hs => by simpa using hunsent hor hs
            sent := fun hq hnone => by simpa using hsent hq hnone
            due := ⟨fun _ => ⟨done, by simp⟩, fun _ => rfl⟩
            passes := fun head d hhead hd => by
              have heq : d = done := by simpa [hheard.unended hopen d] using hd
              rw [heq]
              exact hpasses head (by simpa using hhead)
            status := fun head' hhead => hstatus head' (by simpa using hhead) }
      have hflush := (hnew.replies nofun).flush a
      refine ⟨hflush.1, hflush.2.2 ?_⟩
      rw [hwas] at hpending
      exact hpending

/-- `on_failure`: a reset after the head, and an error reply before it. -/
theorem Replies.onFailure (h : Replies m q r) (f : OriginFailure) (a : SendTurn) :
    Replies m { q with ended := true } ((r.note [.failure f q.responded]).onFailure f q.responded a) := by
  have hnoted : Replies m { q with ended := true } (r.note [.failure f q.responded]) :=
    h.ended.mutely ⟨rfl, rfl, rfl, rfl, rfl, Iff.rfl, _, rfl, by simp [GwNote.mute]⟩
  unfold GwRelay.onFailure
  split
  · exact hnoted.reset a.drained
  · next hearly => exact hnoted.sendError (Bool.not_eq_true _ ▸ hearly) rfl _ _ a

theorem phase_onFailure (r : GwRelay) (f : OriginFailure) (afterHead : Bool) (a : SendTurn) :
    (r.onFailure f afterHead a).phase = .done := by
  unfold GwRelay.onFailure
  split
  · exact phase_reset r a.drained
  · unfold GwRelay.sendError
    split
    · next hphase => exact hphase
    · exact phase_finish _ _

/-! ### The upload leaves the reply alone -/

theorem mute_fillLoop {u : UploadBuf} {recvd : ℕ} {turns : List BodyRead}
    {s : UploadBuf × ℕ × List GwNote × Option Bool} (h : GwRelay.fillLoop u recvd turns = some s) :
    ∀ e ∈ s.2.2.1, e.mute = true := by
  induction turns generalizing u recvd s with
  | nil =>
    unfold GwRelay.fillLoop at h
    split at h
    · cases h
    · cases h
      exact nofun
  | cons turn turns ih =>
    unfold GwRelay.fillLoop at h
    split at h
    · cases h
    · dsimp only at h
      split at h
      · cases h; exact nofun
      · split at h
        · cases h; exact nofun
        · split at h
          · cases h; simp [GwNote.mute]
          · split at h
            · cases h; simp [GwNote.mute]
            · obtain ⟨s', hs', rfl⟩ := Option.map_eq_some_iff.mp h
              intro e he
              rcases List.mem_cons.mp he with rfl | he
              · rfl
              · exact ih hs' e he

theorem Replies.fill (h : Replies m q r) {turns : List BodyRead} {d : List UInt8} {s : GwRelay × Bool}
    (hfill : r.fill turns d = some s) :
    Replies m q s.1 ∧ (r.phase.pending = [] → s.1.phase.pending = []) := by
  unfold GwRelay.fill at hfill
  split at hfill
  · next hphase =>
    cases hfill
    exact ⟨h, id⟩
  · next recvd head pending finDue hphase =>
    obtain ⟨l, hl, rfl⟩ := Option.map_eq_some_iff.mp hfill
    have hread : Replies m q (GwRelay.note { r with upload := l.1, phase := .origin l.2.1 head pending finDue } l.2.2.1) :=
      h.mutely ⟨rfl, rfl, by rw [hphase]; rfl, by rw [hphase]; rfl, by rw [hphase]; rfl, by simp [hphase, GwRelay.note],
        _, rfl, mute_fillLoop hl⟩
    dsimp only
    split
    · exact ⟨hread, fun hempty => by rw [hphase] at hempty; exact hempty⟩
    · exact ⟨hread.reset d, fun _ => pending_done (phase_reset _ _)⟩

/-! ### Runs -/

/-- The reports that the bridge makes (`poll_exchanges`): a head first and once, no frame while one is
held, and nothing after the end. The request is not closed, and the server not shut down. -/
def Relayed.Follows (w : Relayed) (e : RelayEvent) : Prop :=
  e.Honest ∧
    match e with
    | .response _ _ => w.req.responded = false ∧ w.req.ended = false
    | .frame bs _ => w.req.responded = true ∧ w.req.ended = false ∧ w.req.held = false ∧ bs ≠ []
    | .bodyEnd _ _ _ _ => w.req.responded = true ∧ w.req.ended = false ∧ w.req.held = false
    | .failure _ _ => w.req.ended = false
    | .closed | .shutdown _ => False
    | _ => True

/-- The reply is in order, and bytes wait only while the bridge holds the next frame. -/
structure InOrder (m : Method) (w : Relayed) : Prop where
  replies : Replies m w.req w.gw
  held : w.req.held = false → w.gw.phase.pending = []
  early : w.req.responded = false → w.req.held = false

theorem inOrder_start (masq : Bool) (body : BodyKind) : InOrder m (Relayed.start masq m body) := by
  refine ⟨⟨fun _ => ?_, nofun⟩, fun _ => rfl, fun _ => rfl⟩
  exact
    { heard := ⟨⟨nofun, nofun⟩, fun _ => rfl, rfl, nofun, fun _ => nofun⟩
      method := rfl
      lawful := lawful_nil
      goesOn := nofun
      frames := rfl
      asked := nofun
      unsent := fun _ _ => nofun
      sent := nofun
      due := ⟨nofun, nofun⟩
      passes := nofun
      status := nofun }

/-- **An event keeps the reply in order.** -/
theorem InOrder.step {w w' : Relayed} {e : RelayEvent} (h : InOrder m w) (hfollows : w.Follows e)
    (hstep : w.step e = some w') : InOrder m w' := by
  obtain ⟨hreplies, hheld, hearly⟩ := h
  have hmute (gw' : GwRelay) (hm : Mutely w.gw gw') : InOrder m { w with gw := gw' } :=
    ⟨hreplies.mutely hm, fun hq => hm.pending.trans (hheld hq), hearly⟩
  have hcut {q : BridgeRec} {r : GwRelay} (hr : Replies m q r) : Replies m q r.cutUpload :=
    hr.mutely (mutely_cutUpload r)
  cases e with
  | readable turns d =>
    simp only [Relayed.step] at hstep
    split at hstep
    · cases hstep
      exact hmute _ ⟨rfl, rfl, rfl, rfl, rfl, Iff.rfl, _, rfl, by simp [GwNote.mute]⟩
    · obtain ⟨s, hs, rfl⟩ := Option.map_eq_some_iff.mp hstep
      obtain ⟨hfill, hempty⟩ := hreplies.fill hs
      split
      · exact ⟨hcut hfill.ended, fun hq => hempty (hheld hq), hearly⟩
      · exact ⟨hfill, fun hq => hempty (hheld hq), hearly⟩
  | wantH3 turns d =>
    obtain ⟨s, hs, rfl⟩ := Option.map_eq_some_iff.mp hstep
    obtain ⟨hfill, hempty⟩ := hreplies.fill hs
    exact ⟨hfill, fun hq => hempty (hheld hq), hearly⟩
  | writable a =>
    cases hstep
    obtain ⟨hflush, hall, hempty⟩ := hreplies.flush a
    dsimp only
    split
    · next hout => exact ⟨hflush.record rfl rfl rfl id, fun _ => hall hout, fun _ => rfl⟩
    · exact ⟨hflush, fun hq => hempty (hheld hq), hearly⟩
  | response head a =>
    cases hstep
    obtain ⟨-, hno, hopen⟩ := hfollows
    obtain ⟨hresponse, hempty⟩ := hreplies.onResponse hno hopen (hheld (hearly hno)) head a
    exact ⟨hresponse, fun _ => hempty, nofun⟩
  | frame bs a =>
    cases hstep
    obtain ⟨-, hresponded, hopen, hq, hsome⟩ := hfollows
    obtain ⟨hframe, hall⟩ := hreplies.onBodyFrame hresponded hopen (hheld hq) hsome a
      (!((w.gw.note [.frame bs]).onBodyFrame bs a).2)
    refine ⟨hframe, fun hq => hall (by simpa using hq), fun hno => ?_⟩
    rw [show w.req.responded = false from hno] at hresponded
    cases hresponded
  | bodyEnd reused connectMs tls a =>
    cases hstep
    obtain ⟨-, hresponded, hopen, hq⟩ := hfollows
    obtain ⟨hend, hempty⟩ := hreplies.onBodyEnd hresponded hopen
      ⟨reused, connectMs, tls, w.req.delivered, w.req.cl⟩ rfl rfl (hheld hq) a
    exact ⟨hcut hend, fun _ => hempty, hearly⟩
  | failure f a =>
    cases hstep
    exact ⟨hcut (hreplies.onFailure f a), fun _ => pending_done (phase_onFailure _ _ _ _), hearly⟩
  | poll =>
    cases hstep
    exact hmute _ ⟨rfl, rfl, rfl, rfl, rfl, Iff.rfl, _, rfl, by simp [GwNote.mute]⟩
  | newBody =>
    cases hstep
    exact hmute _ ⟨rfl, rfl, rfl, rfl, rfl, Iff.rfl, [], by simp, nofun⟩
  | dropBody =>
    cases hstep
    exact hmute _ ⟨rfl, rfl, rfl, rfl, rfl, Iff.rfl, [], by simp, nofun⟩
  | closed => exact hfollows.2.elim
  | shutdown d => exact hfollows.2.elim

/-- What was accepted is a prefix of what was reported. -/
theorem accepted_prefix (h : Lawful (Sends m) log) : acceptedOf log <+: framesOf log := by
  induction log using List.reverseRecOn with
  | nil => exact List.nil_prefix
  | append_singleton log e ih =>
    obtain ⟨hl, he⟩ := lawful_snoc.mp h
    rw [framesOf_append, acceptedOf_append]
    cases e with
    | body bs =>
      have hframes : framesOf [.body bs] = [] := rfl
      have haccepted : acceptedOf [.body bs] = bs := by simp [acceptedOf]
      rw [hframes, haccepted, List.append_nil]
      exact he.2.1
    | frame bs =>
      have haccepted : acceptedOf [.frame bs] = [] := rfl
      rw [haccepted, List.append_nil]
      exact (ih hl).trans (List.prefix_append _ _)
    | _ => simpa [framesOf, acceptedOf] using ih hl

theorem heads_le_one (h : Lawful (Sends m) log) : log.countP GwNote.isHead ≤ 1 := by
  refine h.countP_le_one _ fun past e he hp x hx => ?_
  cases e with
  | headers hs last ok =>
    cases x with
    | headers hs' last' ok' =>
      cases ok' with
      | false => rfl
      | true => exact absurd hx (he.2.2 hs' last')
    | _ => rfl
  | _ => cases hp

theorem fins_le_one (h : Lawful (Sends m) log) : log.countP GwNote.isFin ≤ 1 := by
  refine h.countP_le_one _ fun past e he hp x hx => ?_
  have hnone : (∀ ok, .fin ok ∉ past) ∧ ∀ hs, .headers hs true true ∉ past := by
    cases e with
    | headers hs last ok => exact ⟨he.2.1, fun hs' => he.2.2 hs' true⟩
    | fin ok => exact ⟨he.2.1, he.2.2.1⟩
    | _ => cases hp
  cases x with
  | fin ok => exact absurd hx (hnone.1 ok)
  | headers hs last ok =>
    cases last with
    | false => rfl
    | true =>
      cases ok with
      | false => rfl
      | true => exact absurd hx (hnone.2 hs)
  | _ => rfl

/-- A body that is too short gets no FIN. -/
theorem not_fin_of_short (h : Lawful (Sends m) log) {head : RelayHead} {done : Completion}
    (hhead : .response head ∈ log) (hdone : .bodyEnd done ∈ log) (hshort : ¬Passes m head done) (ok : Bool) :
    .fin ok ∉ log := by
  intro hfin
  obtain ⟨past, future, hlog⟩ := List.append_of_mem hfin
  obtain ⟨-, -, -, -, -, head', done', hhead', hdone', hpasses⟩ := h past _ future hlog
  have hmem {e : GwNote} (he : e ∈ past) : e ∈ log := by rw [hlog]; exact List.mem_append_left _ he
  -- there is one head and one end
  have heq : GwNote.response head = .response head' := by
    refine h.eq_of_mem (fun e => ∃ head, e = .response head) (fun past e he hp x hx hpx => ?_) hhead (hmem hhead')
      ⟨_, rfl⟩ ⟨_, rfl⟩
    obtain ⟨head, rfl⟩ := hp
    obtain ⟨head', rfl⟩ := hpx
    exact he head' hx
  have heq' : GwNote.bodyEnd done = .bodyEnd done' := by
    refine h.eq_of_mem (fun e => ∃ done, e = .bodyEnd done) (fun past e he hp x hx hpx => ?_) hdone (hmem hdone')
      ⟨_, rfl⟩ ⟨_, rfl⟩
    obtain ⟨done, rfl⟩ := hp
    obtain ⟨done', rfl⟩ := hpx
    exact he.1 done' hx
  cases heq
  cases heq'
  exact hshort hpasses

/-- A body that is too short ends in a reset. -/
theorem Replies.reset_of_short (h : Replies m q r) {head : RelayHead} {done : Completion}
    (hhead : .response head ∈ r.log) (hdone : .bodyEnd done ∈ r.log) (hshort : ¬Passes m head done) : .reset ∈ r.log := by
  by_cases hphase : r.phase = .done
  · exact ((h.done hphase).1.shorts head done hhead hdone).resolve_left hshort
  · exact absurd ((h.live hphase).passes head done hhead hdone) hshort

/-- **The response of a request.** Whatever the bridge reports in its order, and whatever the transport
answers: at most one header section is accepted; what is accepted of the body is a prefix of the frames
reported; there is at most one FIN, and the one of a relayed response comes after a head that was
accepted, every byte and an end that passed the check; a body that is too short ends in a reset and
has no FIN; nothing goes out once the request is done; and no frame is reported while bytes wait. -/
theorem response_relayed {masq : Bool} {method : Method} {body : BodyKind} {es : List RelayEvent} {w : Relayed}
    (hrun : Run Relayed.step Relayed.Follows (Relayed.start masq method body) es w) :
    w.gw.log.countP GwNote.isHead ≤ 1 ∧
    acceptedOf w.gw.log <+: framesOf w.gw.log ∧
    w.gw.log.countP GwNote.isFin ≤ 1 ∧
    (∀ past ok future, w.gw.log = past ++ .fin ok :: future →
      acceptedOf past = framesOf past ∧ (∃ hs, .headers hs false true ∈ past) ∧
      ∃ head done, .response head ∈ past ∧ .bodyEnd done ∈ past ∧ Passes method head done) ∧
    (∀ past done future head n, w.gw.log = past ++ .bodyEnd done :: future → .response head ∈ past →
      bodyCheckApplies method head.status = true → head.cl = some n → (framesOf past).length < n →
      .reset ∈ w.gw.log ∧ ∀ ok, .fin ok ∉ w.gw.log) ∧
    (∀ past future, w.gw.log = past ++ .finished :: future → ∀ e ∈ future, e.isSend = false) ∧
    ∀ bs a, w.Follows (.frame bs a) → w.gw.phase.pending = [] := by
  have h : InOrder method w :=
    Run.invariant (fun _ _ _ hinv hfollows hstep => hinv.step hfollows hstep) hrun (inOrder_start masq body)
  have hlawful : Lawful (Sends method) w.gw.log := by
    by_cases hphase : w.gw.phase = .done
    · exact (h.replies.done hphase).1.lawful
    · exact (h.replies.live hphase).lawful
  refine ⟨heads_le_one hlawful, accepted_prefix hlawful, fins_le_one hlawful, fun past ok future hlog => ?_,
    fun past done future head n hlog hhead happlies hcl hshort => ?_, fun past future hlog e he => ?_,
    fun bs a hfollows => h.held hfollows.2.2.2.1⟩
  · obtain ⟨-, -, -, hall, hsent, hend⟩ := hlawful past _ future hlog
    exact ⟨hall, hsent, hend⟩
  · have hfails : ¬Passes method head done := by
      intro hpasses
      have hle := hpasses happlies n hcl
      rw [(hlawful past _ future hlog).2.1] at hle
      exact absurd hle (not_le.mpr hshort)
    have hhead : .response head ∈ w.gw.log := by rw [hlog]; exact List.mem_append_left _ hhead
    have hdone : .bodyEnd done ∈ w.gw.log := by rw [hlog]; simp
    exact ⟨h.replies.reset_of_short hhead hdone hfails, not_fin_of_short hlawful hhead hdone hfails⟩
  · rw [hlog] at hlawful
    obtain ⟨past', hmem, hallowed⟩ := hlawful.later he
    cases e with
    | headers hs last ok => exact absurd hmem hallowed.1
    | body bs => exact absurd hmem hallowed.1
    | fin ok => exact absurd hmem hallowed.1
    | reset => exact absurd hmem hallowed
    | _ => rfl

/-- The transport takes all it is offered. -/
def takesAll : SendTurn := ⟨.ok (), fun bs => .ok bs.length, .ok (), []⟩

/-- The transport is blocked. -/
def takesNone : SendTurn := ⟨.error .blocked, fun _ => .error .blocked, .error .blocked, []⟩

/-- A response of two bytes. -/
def twoByteHead : RelayHead := ⟨200, [], .h1, [], none, some 2⟩

/-- The head and the frame wait, and go out with the FIN. -/
theorem response_relayed_two :
    ∃ w, Run Relayed.step Relayed.Follows (Relayed.start false [] .none)
        [.response twoByteHead takesNone, .frame [1, 2] takesNone, .writable takesAll, .bodyEnd false 0 .na takesAll] w ∧
      acceptedOf w.gw.log = [1, 2] ∧ .fin true ∈ w.gw.log ∧ w.gw.log.countP GwNote.isFin ≤ 1 ∧
      acceptedOf w.gw.log <+: framesOf w.gw.log := by
  have hall : takesAll.Honest := fun d n h => by
    cases h
    exact le_rfl
  have hnone : takesNone.Honest := fun d n h => by cases h
  refine Run.exists_and (.cons ⟨hnone, rfl, rfl⟩ rfl <| .cons ⟨hnone, rfl, rfl, rfl, by simp⟩ rfl <|
    .cons ⟨hall, trivial⟩ rfl <| .cons ⟨hall, rfl, rfl, rfl⟩ rfl <| .nil _) fun hrun => ?_
  obtain ⟨-, hfront, hfins, -⟩ := response_relayed hrun
  exact ⟨by decide +kernel, by decide +kernel, hfins, hfront⟩

end MqProxy.Server
