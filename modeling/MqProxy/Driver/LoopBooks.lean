import MqProxy.Driver.LoopProtocol

/-!
# The loop core keeps its books

The four laws of `LoopProtocol` together are the `Books` of the loop. Each function of the
loop keeps them; so does each step, and so does every run in which the environment is
`Fair`: an operation has a new id, a socket that `Io` hands out is a new one, and the shard
takes it under an id that is free.

`Books hand due lc` is about the middle of an iteration too: `hand` are the sockets of the
completions that the loop has not yet looked at, `due` the deadlines it has collected and
not yet acted on.
-/

namespace MqProxy.Driver

open MqProxy.Library MqProxy.Runtime

/-- `dial_result` when the answer is used. -/
theorem LoopCore.resolved_eq (lc : LoopCore) (op : ℕ) (r : Except ErrorKind (List SocketAddr))
    (hused : (lc.resolver.finished op).1 = true) :
    lc.resolved op r =
      let lc' := { lc with resolver := (lc.resolver.finished op).2.1 }.calls (lc.resolver.finished op).2.2
      match lc.dials.lookup op, LoopCore.firstAddr r with
      | some .resolving, some a => { lc' with dials := lc.dials.insert op (.connecting a) }.calls [.startConnect op a]
      | some .resolving, none => lc'.failDial op .dns
      | some .resolveOnly, some a => (lc'.dropDial op).note [.resolveReported op (.ok a)]
      | some .resolveOnly, none => (lc'.dropDial op).note [.resolveReported op (.error .dns)]
      | _, _ => lc' := by
  simp only [LoopCore.resolved, hused]
  rfl

/-- **The books of the loop.** -/
structure Books (hand : List ℕ) (due : List Expired) (lc : LoopCore) : Prop where
  reported : Reported lc
  accounted : Accounted hand lc
  timed : Timed due lc
  queued : Queued lc

namespace Books

variable {lc lc' : LoopCore} {hand hand' : List ℕ} {due due' : List Expired} {es : List LoopEdge} {op : ℕ}

/-! ### Sockets come and go -/

/-- A step without a part in the operations. -/
theorem frame (h : Books hand due lc) (hlog : lc'.log = lc.log ++ es)
    (hsame : lc'.dials = lc.dials ∧ lc'.held = lc.held ∧ lc'.resolver = lc.resolver)
    (hasked : es.filterMap LoopEdge.asked = []) (htold : es.filterMap LoopEdge.told = [])
    (hstarts : es.filterMap LoopEdge.starts = []) (haccounted : Accounted hand' lc') (htimed : Timed due' lc') :
    Books hand' due' lc' := by
  obtain ⟨hdials, hheld, hresolver⟩ := hsame
  refine ⟨h.reported.frame hlog (fun o => ?_) hasked htold, haccounted, htimed,
    h.queued.frame hlog hresolver (fun o => ?_) hstarts⟩
  · cases o <;> simp only [LoopCore.pending, hdials, hheld]
  · simp only [LoopCore.Resolving, hdials]

/-- A step that touches no table but that of the deadlines. -/
theorem still (h : Books hand due lc) (hlog : lc'.log = lc.log)
    (hsame : lc'.dials = lc.dials ∧ lc'.held = lc.held ∧ lc'.resolver = lc.resolver) (htcp : lc'.tcp = lc.tcp)
    (hudp : lc'.udp = lc.udp) (htimed : Timed due' lc') : Books hand due' lc' := by
  have hlog : lc'.log = lc.log ++ [] := by rw [hlog, List.append_nil]
  exact h.frame hlog hsame rfl rfl rfl (h.accounted.frame hlog hsame.2.1 htcp hudp rfl rfl) htimed

theorem at_ (h : Books hand due lc) (phase : Phase) : Books hand due (lc.at_ phase) :=
  h.still rfl ⟨rfl, rfl, rfl⟩ rfl rfl (h.timed.frame rfl fun _ => rfl)

/-- `Io` hands out a socket. -/
theorem accepted {s : ℕ} (h : Books hand due lc) (hs : s ∉ lc.log.filterMap LoopEdge.gives) :
    Books (s :: hand) due (lc.note [.accepted s]) := by
  refine h.frame rfl ⟨rfl, rfl, rfl⟩ rfl rfl rfl ?_ (h.timed.frame rfl fun _ => rfl)
  refine h.accounted.give rfl rfl rfl hs fun x => ?_
  rw [count_hand s x hand]
  simp only [LoopCore.note]
  omega

variable {s : ℕ} {answer : Option ℕ}

/-- The shard takes a TCP socket, or it is closed. -/
theorem adoptTcp (h : Books (s :: hand) due lc)
    (hanswer : ∀ id, answer = some id → lc.tcp.lookup id = none) : Books hand due (lc.adoptTcp s answer) := by
  cases answer with
  | some id =>
    have hlog := (List.append_nil lc.log).symm
    refine h.frame hlog ⟨rfl, rfl, rfl⟩ rfl rfl rfl ?_ (h.timed.frame rfl fun _ => rfl)
    refine h.accounted.move hlog rfl fun x => ?_
    show _ = hand.count x + _ + within x (lc.tcp.insert id s) + _ + 0
    rw [within_insert (hanswer id rfl), count_hand s x hand]
    simp only [LoopCore.adoptTcp, LoopCore.addTcp]
    omega
  | none =>
    refine h.frame rfl ⟨rfl, rfl, rfl⟩ rfl rfl rfl ?_ (h.timed.frame rfl fun _ => rfl)
    refine h.accounted.move rfl rfl fun x => ?_
    show _ = hand.count x + _ + _ + _ + [s].count x
    rw [count_hand s x hand]
    simp only [LoopCore.adoptTcp, LoopCore.calls, LoopCore.note]
    omega

/-- A turn of `accepts`. -/
theorem accept {listener : ℕ} {r : Accepted} (h : Books hand due lc)
    (hs : ∀ s, r = .sock s → s ∉ lc.log.filterMap LoopEdge.gives)
    (hanswer : ∀ id, answer = some id → lc.tcp.lookup id = none) : Books hand due (lc.accept listener r answer) := by
  cases r with
  | sock s => exact (h.accepted (hs s rfl)).adoptTcp hanswer
  | emfile => exact h.still rfl ⟨rfl, rfl, rfl⟩ rfl rfl (h.timed.arm (by simp) rfl rfl)
  | wouldBlock => exact h
  | other => exact h

/-- The primary UDP socket. -/
theorem attachPrimaryUdp {id : ℕ} (h : Books hand due lc) (hs : s ∉ lc.log.filterMap LoopEdge.gives)
    (hid : lc.udp.lookup id = none) : Books hand due (lc.attachPrimaryUdp s id) := by
  refine h.frame rfl ⟨rfl, rfl, rfl⟩ rfl rfl rfl ?_ (h.timed.frame rfl fun _ => rfl)
  refine h.accounted.give rfl rfl rfl hs fun x => ?_
  simp only [LoopCore.attachPrimaryUdp, LoopCore.note, within_insert hid]
  omega

/-! ### Dials end -/

/-- The entries that tell the shard of the end of a dial. -/
inductive Tells (op : ℕ) : LoopEdge → Prop
  | dial (r : Except DialError SocketAddr) : Tells op (.dialReported op r)
  | resolve (r : Except DialError SocketAddr) : Tells op (.resolveReported op r)

variable {e : LoopEdge}

/-- A dial leaves the table and the shard is told, after some calls that close nothing. -/
theorem report (h : Books hand due lc) (cs : List IoCall)
    (hop : (lc.dials.lookup op).isSome) (hdials : lc'.dials = lc.dials.erase op) (hheld : lc'.held = lc.held)
    (htcp : lc'.tcp = lc.tcp) (hudp : lc'.udp = lc.udp) (hlog : lc'.log = lc.log ++ (cs.map .io ++ [e]))
    (he : Tells op e) (hcs : (cs.map LoopEdge.io).filterMap LoopEdge.closes = []) (htimed : Timed due' lc')
    (hqueued : Queued lc') : Books hand due' lc' := by
  have htold : (cs.map LoopEdge.io ++ [e]).filterMap LoopEdge.told = [.dial op] := by
    cases he <;> simp
  refine ⟨h.reported.move hlog ?_ fun o => ?_, h.accounted.frame hlog hheld htcp hudp ?_ ?_, htimed, hqueued⟩
  · cases he <;> simp
  · rw [htold, pending_erase hop hdials hheld]
  · cases he <;> simp
  · rw [List.filterMap_append, hcs]
    cases he <;> rfl

theorem filterMap_starts_tells (he : Tells op e) : [e].filterMap LoopEdge.starts = [] := by
  cases he <;> rfl

variable {a : SocketAddr}

/-- A dial that connects is not in the queue. -/
theorem not_resolving (hop : lc.dials.lookup op = some (.connecting a)) : ¬lc.Resolving op := by
  simp [LoopCore.Resolving, hop]

theorem resolving_erase_iff (hop : ¬lc.Resolving op) (hdials : lc'.dials = lc.dials.erase op) (o : ℕ) :
    lc'.Resolving o ↔ lc.Resolving o := by
  rw [resolving_erase hdials]
  grind

/-- The next deadline that is due. -/
theorem expired {x : Expired} (h : Books hand (x :: due) lc) : Books hand due (lc.expired x) := by
  cases x with
  | dial op =>
    have hsome (st : DialState) (hst : lc.dials.lookup op = some st) : (lc.dials.lookup op).isSome := by
      rw [hst]
      rfl
    unfold LoopCore.expired
    dsimp only
    split
    · next hst =>
      exact h.report [] (hsome _ hst) rfl rfl rfl rfl rfl (.dial _) rfl (h.timed.pop rfl rfl)
        (h.queued.cancel rfl rfl rfl rfl)
    · next a hst =>
      refine h.report [.cancelConnect op] (hsome _ hst) rfl rfl rfl rfl (List.append_assoc _ _ _) (.dial _) rfl
        (h.timed.pop rfl rfl) ?_
      exact h.queued.frame (List.append_assoc _ _ _) rfl (resolving_erase_iff (not_resolving hst) rfl) rfl
    · next hst =>
      exact h.report [] (hsome _ hst) rfl rfl rfl rfl rfl (.resolve _) rfl (h.timed.pop rfl rfl)
        (h.queued.cancel rfl rfl rfl rfl)
    · next hst =>
      have hdial := (h.timed.dials op).mpr (Or.inr List.mem_cons_self)
      rw [hst] at hdial
      cases hdial
  | listenerRetry l => exact ⟨h.reported, h.accounted, h.timed.skip (by simp), h.queued⟩
  | shutdownCap => exact h.still rfl ⟨rfl, rfl, rfl⟩ rfl rfl ((h.timed.skip (by simp)).frame rfl fun _ => rfl)

variable (h : Books hand [] lc)
include h

/-- The answer for a name is used, and the dial ends. -/
theorem answered (hop : op ∈ lc.resolver.running)
    (hsome : (lc.dials.lookup op).isSome) (he : Tells op e) :
    Books hand []
      ((({ lc with resolver := (lc.resolver.finished op).2.1 }.calls (lc.resolver.finished op).2.2).dropDial op).note
        [e]) := by
  refine h.report (lc.resolver.finished op).2.2 hsome rfl rfl rfl rfl (List.append_assoc _ _ _) he
    (closes_finished _ _) (h.timed.drop (by simp) rfl rfl) ?_
  exact h.queued.finish hop (List.append_assoc _ _ _) rfl (resolving_erase rfl) (filterMap_starts_tells he)

/-- The answer for a name is used, and the dial goes on. -/
theorem connects (hop : op ∈ lc.resolver.running) (hsome : (lc.dials.lookup op).isSome) :
    Books hand []
      ({ { lc with resolver := (lc.resolver.finished op).2.1 }.calls (lc.resolver.finished op).2.2 with
        dials := lc.dials.insert op (.connecting a) }.calls [.startConnect op a]) := by
  have hdials (o : ℕ) : ((lc.dials.insert op (.connecting a)).lookup o).isSome = (lc.dials.lookup o).isSome := by grind
  refine ⟨h.reported.frame (List.append_assoc _ _ _) (fun o => ?_) ?_ ?_,
    h.accounted.frame (List.append_assoc _ _ _) rfl rfl rfl ?_ ?_, h.timed.frame rfl hdials,
    h.queued.finish hop (List.append_assoc _ _ _) rfl (resolving_connecting rfl) rfl⟩
  · cases o <;> simp [LoopCore.pending, LoopCore.calls, LoopCore.note, hdials]
  · simp
  · simp
  · simp
  · rw [List.filterMap_append, closes_finished]
    rfl

/-- The answer for a name is not used: a slot is freed. -/
theorem unused (hused : (lc.resolver.finished op).1 = false) :
    Books hand [] ({ lc with resolver := (lc.resolver.finished op).2.1 }.calls (lc.resolver.finished op).2.2) := by
  refine ⟨h.reported.frame rfl (fun o => by cases o <;> rfl) (by simp) (by simp),
    h.accounted.frame rfl rfl rfl rfl (by simp) (closes_finished _ _), h.timed.frame rfl fun _ => rfl, ?_⟩
  by_cases hop : op ∈ lc.resolver.running
  · have hlog : lc.log ++ (lc.resolver.finished op).2.2.map .io =
        lc.log ++ ((lc.resolver.finished op).2.2.map .io ++ []) := by
      rw [List.append_nil]
    refine h.queued.finish hop hlog rfl (fun o => ?_) rfl
    -- an abandoned operation is in no table
    refine ⟨fun ho => ⟨ho, ?_⟩, fun ho => ho.1⟩
    rintro rfl
    rcases (h.queued.active o).mpr ho with hrun | hwait
    · rw [(ResolverQueue.used_finished _ _).mpr hrun] at hused
      cases hused
    · exact h.queued.sound.apart o hwait hop
  · rw [ResolverQueue.finished_of_not_running hop]
    exact h.queued.frame rfl rfl (fun _ => Iff.rfl) rfl

/-- `dial_result` for `Resolved`. -/
theorem resolved (op : ℕ) (r : Except ErrorKind (List SocketAddr)) :
    Books hand [] (lc.resolved op r) := by
  cases hused : (lc.resolver.finished op).1 with
  | false =>
    have heq : lc.resolved op r =
        { lc with resolver := (lc.resolver.finished op).2.1 }.calls (lc.resolver.finished op).2.2 := by
      simp only [LoopCore.resolved, hused]
      rfl
    rw [heq]
    exact h.unused hused
  | true =>
    have hrun := (ResolverQueue.used_finished _ _).mp hused
    have hunfold := lc.resolved_eq op r hused
    rcases (h.queued.active op).mp (Or.inl hrun) with hst | hst <;> cases hr : LoopCore.firstAddr r <;>
      rw [hst, hr] at hunfold <;> rw [hunfold]
    · exact h.answered hrun.1 (by rw [hst]; rfl) (.dial _)
    · exact h.connects hrun.1 (by rw [hst]; rfl)
    · exact h.answered hrun.1 (by rw [hst]; rfl) (.resolve _)
    · exact h.answered hrun.1 (by rw [hst]; rfl) (.resolve _)

omit h

/-- `dial_result` for `Connected`, with a socket. -/
theorem connected_ok (h : Books (s :: hand) [] lc) (op : ℕ)
    (hanswer : ∀ id, answer = some id → lc.tcp.lookup id = none) : Books hand [] (lc.connected op (.ok s) answer) := by
  unfold LoopCore.connected
  split
  · next a s' hst heq =>
    cases heq
    refine Books.adoptTcp ?_ hanswer
    refine h.report [] (by rw [hst]; rfl) rfl rfl rfl rfl rfl (.dial _) rfl (h.timed.drop (by simp) rfl rfl) ?_
    exact h.queued.frame rfl rfl (resolving_erase_iff (not_resolving hst) rfl) rfl
  · next heq => cases heq
  · next heq _ =>
    cases heq
    show Books hand [] (lc.adoptTcp s none)
    exact h.adoptTcp fun _ hnone => by cases hnone
  · next heq _ => cases heq

/-- `dial_result` for `Connected`, with an error. -/
theorem connected_error {kind : ErrorKind} (h : Books hand [] lc) (op : ℕ) :
    Books hand [] (lc.connected op (.error kind) answer) := by
  unfold LoopCore.connected
  split
  · next heq => cases heq
  · next hst heq =>
    cases heq
    refine h.report [] (by rw [hst]; rfl) rfl rfl rfl rfl rfl (.dial _) rfl (h.timed.drop (by simp) rfl rfl) ?_
    exact h.queued.frame rfl rfl (resolving_erase_iff (not_resolving hst) rfl) rfl
  · next heq _ => cases heq
  · exact h

/-- `dial_result`. -/
theorem dialResult {ev : Completion} {results : List Completion}
    (h : Books ((ev :: results).filterMap Completion.sock) [] lc)
    (hanswer : ∀ id, answer = some id → lc.tcp.lookup id = none) :
    Books (results.filterMap Completion.sock) [] (lc.dialResult ev answer) := by
  cases ev with
  | resolved op r => exact h.resolved op r
  | connected op r =>
    cases r with
    | ok s => exact h.connected_ok op hanswer
    | error kind => exact h.connected_error op

/-! ### Socket opens end -/

/-- A result that was held goes to the shard. -/
theorem udpOpened {held : List (ℕ × Opened)} {r : Opened} (h : Books hand due lc)
    (hheld : lc.held = (op, r) :: held) (hanswer : ∀ id, answer = some id → lc.udp.lookup id = none) :
    Books hand due ({ lc with held }.udpOpened op r answer) := by
  have hpending (o : LoopOp) : { lc with held }.pending o + [LoopOp.socket op].count o = lc.pending o := by
    cases o with
    | dial o => rfl
    | socket o =>
      simp only [LoopCore.pending, hheld, List.map_cons, List.count_cons, List.count_nil]
      simp
  have hsock (x : ℕ) : (lc.held.filterMap heldSock).count x =
      ([(op, r)].filterMap heldSock).count x + (held.filterMap heldSock).count x := by
    rw [hheld, ← List.singleton_append, List.filterMap_append, List.count_append]
  have hmoved {lc' : LoopCore} {es : List LoopEdge} (hlog : lc'.log = lc.log ++ es)
      (hsame : lc'.dials = lc.dials ∧ lc'.held = held ∧ lc'.resolver = lc.resolver ∧ lc'.deadlines = lc.deadlines)
      (hasked : es.filterMap LoopEdge.asked = []) (htold : es.filterMap LoopEdge.told = [.socket op])
      (hstarts : es.filterMap LoopEdge.starts = []) (haccounted : Accounted hand lc') : Books hand due lc' := by
    obtain ⟨hdials, hnow, hresolver, hdeadlines⟩ := hsame
    refine ⟨h.reported.move hlog hasked fun o => ?_, haccounted, h.timed.frame hdeadlines fun _ => by rw [hdials],
      h.queued.frame hlog hresolver (fun _ => by rw [LoopCore.Resolving, hdials]; rfl) hstarts⟩
    rw [htold, ← hpending]
    cases o <;> simp only [LoopCore.pending, hdials, hnow]
  rcases r with kind | ⟨s, localAddr⟩
  · refine hmoved rfl ⟨rfl, rfl, rfl, rfl⟩ rfl rfl rfl (h.accounted.move rfl rfl fun x => ?_)
    rw [hsock]
    show _ + (0 + _) + _ + _ = _ + _ + _ + _ + 0
    simp only [LoopCore.udpOpened, LoopCore.note]
    omega
  · have hsock (x : ℕ) : (lc.held.filterMap heldSock).count x = [s].count x + (held.filterMap heldSock).count x :=
      hsock x
    cases answer with
    | some id =>
      refine hmoved rfl ⟨rfl, rfl, rfl, rfl⟩ rfl rfl rfl (h.accounted.move rfl rfl fun x => ?_)
      show _ = _ + _ + _ + within x (lc.udp.insert id s) + 0
      rw [hsock, within_insert (hanswer id rfl)]
      simp only [LoopCore.udpOpened, LoopCore.note]
      omega
    | none =>
      have hlog := List.append_assoc lc.log [.udpReported op (.ok localAddr)] [.io (.closeUdp s)]
      refine hmoved hlog ⟨rfl, rfl, rfl, rfl⟩ rfl rfl rfl (h.accounted.move hlog rfl fun x => ?_)
      show _ = _ + _ + _ + _ + [s].count x
      rw [hsock]
      simp only [LoopCore.udpOpened, LoopCore.calls, LoopCore.note]
      omega

theorem shutdownSignal (h : Books hand due lc) (shutdown : Bool) : Books hand due (lc.shutdownSignal shutdown) := by
  unfold LoopCore.shutdownSignal
  split
  · exact h.still rfl ⟨rfl, rfl, rfl⟩ rfl rfl (h.timed.arm (by simp) rfl rfl)
  · exact h

/-! ### Requests of the shard -/

variable {r : IoRequest}

include h

/-- A dial of an address. -/
theorem dialIp {deadline : ℕ}
    (hop : .dial op ∉ lc.log.filterMap LoopEdge.asked) (hasked : asks r = some (.dial op)) :
    Books hand [] (((lc.note [.request r]).enterDial op (.connecting a) deadline).calls [.startConnect op a]) := by
  have hnone := h.reported.lookup_eq_none hop
  have htimed : Timed [] (lc.note [.request r]) := h.timed.frame rfl fun _ => rfl
  refine ⟨h.reported.enter (List.append_assoc _ _ _) (List.filterMap_cons_some hasked) hop rfl
      (pending_insert hnone rfl rfl), h.accounted.frame (List.append_assoc _ _ _) rfl rfl rfl rfl rfl,
    (htimed.enter hnone).frame rfl fun _ => rfl, h.queued.frame (List.append_assoc _ _ _) rfl (fun o => ?_) rfl⟩
  refine (resolving_connecting rfl o).trans ?_
  grind [LoopCore.Resolving, LoopCore.note]

/-- A name is to be resolved. -/
theorem dialName {st : DialState} {host : String} {port : UInt16} {deadline : ℕ}
    (hop : .dial op ∉ lc.log.filterMap LoopEdge.asked) (hst : st = .resolving ∨ st = .resolveOnly)
    (hasked : asks r = some (.dial op)) (hsubmits : LoopEdge.submits (.request r) = some op) :
    Books hand [] (((lc.note [.request r]).enterDial op st deadline).submit op host port) := by
  have hnone := h.reported.lookup_eq_none hop
  have htimed : Timed [] (lc.note [.request r]) := h.timed.frame rfl fun _ => rfl
  refine ⟨h.reported.enter (List.append_assoc _ _ _) (by simp [hasked]) hop
      (by simp) (pending_insert hnone rfl rfl),
    h.accounted.frame (List.append_assoc _ _ _) rfl rfl rfl (by simp) ?_,
    (htimed.enter hnone).frame rfl fun _ => rfl, h.queued.submit hop hst hasked hsubmits⟩
  rw [List.filterMap_append]
  exact closes_submit _ _ _ _

/-- A dial is cancelled. -/
theorem cancelDial (hcancels : cancels r = some (.dial op)) (hasked : asks r = none) :
    Books hand [] ((lc.note [.request r]).cancelDial op) := by
  have hreported {lc' : LoopCore} (cs : List IoCall) (hlog : lc'.log = lc.log ++ (.request r :: cs.map .io))
      (hdials : lc'.dials = lc.dials.erase op) (hheld : lc'.held = lc.held) : Reported lc' := by
    refine h.reported.cancel (x := .dial op) hlog (fun o => ?_) (fun o ho => ?_) ?_ ?_ ?_
    · cases o <;> simp only [LoopCore.pending, hheld, le_refl]
      grind
    · cases o <;> simp only [LoopCore.pending, hheld]
      grind
    · simp [hcancels]
    · simp [hasked]
    · simp
  unfold LoopCore.cancelDial
  split
  · next a hst =>
    exact ⟨hreported _ (List.append_assoc _ _ _) rfl rfl,
      h.accounted.frame (List.append_assoc _ _ _) rfl rfl rfl rfl rfl, h.timed.drop (by simp) rfl rfl,
      h.queued.frame (List.append_assoc _ _ _) rfl (resolving_erase_iff (not_resolving hst) rfl) rfl⟩
  · next st hne hst =>
    exact ⟨hreported [] rfl rfl rfl, h.accounted.frame rfl rfl rfl rfl rfl rfl, h.timed.drop (by simp) rfl rfl,
      h.queued.cancel rfl rfl rfl rfl⟩
  · next hst =>
    have hst : lc.dials.lookup op = none := hst
    have hnot : ¬lc.Resolving op := by simp [LoopCore.Resolving, hst]
    exact ⟨hreported [] rfl rfl rfl, h.accounted.frame rfl rfl rfl rfl rfl rfl, h.timed.drop (by simp) rfl rfl,
      h.queued.frame rfl rfl (resolving_erase_iff hnot rfl) rfl⟩

/-- A socket is to be opened. -/
theorem openUdpSocket {localIp : IpAddr} {opened : Opened}
    (hop : .socket op ∉ lc.log.filterMap LoopEdge.asked)
    (hs : ∀ s, heldSock (op, opened) = some s → s ∉ lc.log.filterMap LoopEdge.gives) :
    Books hand [] { ((lc.note [.request (.openUdpSocket op localIp)]).calls [.openUdp localIp]).note
      [.opened op opened] with held := lc.held ++ [(op, opened)] } := by
  have hlog : lc.log ++ [.request (.openUdpSocket op localIp)] ++ [.io (.openUdp localIp)] ++ [.opened op opened] =
      lc.log ++ [.request (.openUdpSocket op localIp), .io (.openUdp localIp), .opened op opened] := by
    simp
  have hpending (o : LoopOp) :
      { lc with held := lc.held ++ [(op, opened)] }.pending o = lc.pending o + [LoopOp.socket op].count o := by
    cases o with
    | dial o => rfl
    | socket o =>
      simp only [LoopCore.pending, List.map_append, List.count_append, List.map_cons, List.map_nil, List.count_cons,
        List.count_nil]
      simp
  refine ⟨?_, ?_, h.timed.frame rfl fun _ => rfl, h.queued.frame hlog rfl (fun _ => Iff.rfl) rfl⟩
  · exact h.reported.enter hlog rfl hop rfl hpending
  · have hgives : [LoopEdge.request (.openUdpSocket op localIp), .io (.openUdp localIp), .opened op opened].filterMap
        LoopEdge.gives = [(op, opened)].filterMap heldSock := by
      simp only [List.filterMap_cons, List.filterMap_nil]
      rfl
    refine h.accounted.step hlog ⟨?_, fun s hsmem => ?_⟩ fun s => ?_
    · rw [hgives]
      cases hsock : heldSock (op, opened) <;> simp [hsock]
    · rw [hgives, List.mem_filterMap] at hsmem
      obtain ⟨x, hx, hsock⟩ := hsmem
      rw [List.mem_singleton.mp hx] at hsock
      exact hs s hsock
    · rw [hgives]
      show _ = _ + ((lc.held ++ [(op, opened)]).filterMap heldSock).count s + _ + _ + 0
      rw [List.filterMap_append, List.count_append]
      simp only [LoopCore.note, LoopCore.calls]
      omega

omit h

/-- The first entry of a list that satisfies a condition, if there is one, and the others. -/
theorem perm_find_eraseP {α : Type} (p : α → Bool) (l : List α) : l.Perm ((l.find? p).toList ++ l.eraseP p) := by
  induction l with
  | nil => exact .nil
  | cons y l ih =>
    cases hy : p y with
    | true => rw [List.find?_cons_of_pos hy, List.eraseP_cons_of_pos hy, Option.toList_some, List.singleton_append]
    | false =>
      rw [List.find?_cons_of_neg (by simp [hy]), List.eraseP_cons_of_neg (by simp [hy])]
      exact (ih.cons y).trans List.perm_middle.symm

include h

/-- A socket open is cancelled: the held result goes, and its socket is closed. -/
theorem cancelUdpSocket :
    Books hand [] ((lc.note [.request (.cancelUdpSocket op)]).cancelUdpSocket op) := by
  have hheld : (lc.note [.request (.cancelUdpSocket op)]).held = lc.held := rfl
  have hperm := perm_find_eraseP (fun h : ℕ × Opened => h.1 = op) lc.held
  have hfound : ∀ x ∈ (lc.held.find? fun h => h.1 = op).toList, x.1 = op := fun x hx => by
    simpa using List.find?_some (Option.mem_toList.mp hx)
  have hpending (o : LoopOp) {lc' : LoopCore} (hdials : lc'.dials = lc.dials)
      (hnow : lc'.held = lc.held.eraseP fun h => h.1 = op) :
      lc'.pending o ≤ lc.pending o ∧ (o ≠ .socket op → lc'.pending o = lc.pending o) := by
    cases o with
    | dial o => simp [LoopCore.pending, hdials]
    | socket o =>
      simp only [LoopCore.pending, hnow]
      rw [(hperm.map Prod.fst).count_eq, List.map_append, List.count_append]
      refine ⟨Nat.le_add_left _ _, fun ho => ?_⟩
      refine (Nat.add_eq_right.mpr (List.count_eq_zero_of_not_mem fun hmem => ?_)).symm
      obtain ⟨x, hx, rfl⟩ := List.mem_map.mp hmem
      exact ho (congrArg _ (hfound x hx))
  have hreported {lc' : LoopCore} {cs : List IoCall}
      (hlog : lc'.log = lc.log ++ ([.request (.cancelUdpSocket op)] ++ cs.map .io)) (hdials : lc'.dials = lc.dials)
      (hnow : lc'.held = lc.held.eraseP fun h => h.1 = op) : Reported lc' := by
    refine h.reported.cancel hlog (fun o => (hpending o hdials hnow).1) (fun o => (hpending o hdials hnow).2) ?_ ?_ ?_
    · simp [cancels]
    · simp [asks]
    · simp
  unfold LoopCore.cancelUdpSocket
  dsimp only
  rw [hheld]
  split
  · next s localAddr hfind =>
    refine ⟨hreported (List.append_assoc _ _ _) rfl rfl, ?_, h.timed.frame rfl fun _ => rfl,
      h.queued.frame (List.append_assoc _ _ _) rfl (fun _ => Iff.rfl) rfl⟩
    refine h.accounted.move (List.append_assoc _ _ _) rfl fun x => ?_
    rw [hfind] at hperm
    rw [(hperm.filterMap heldSock).count_eq]
    show _ + (s :: (lc.held.eraseP _).filterMap heldSock).count x + _ + _ = _ + _ + _ + _ + [s].count x
    rw [count_hand s x]
    simp only [LoopCore.calls, LoopCore.note]
    omega
  · next hnot =>
    have hlog : lc.log ++ [.request (.cancelUdpSocket op)] =
        lc.log ++ ([.request (.cancelUdpSocket op)] ++ ([] : List IoCall).map .io) := rfl
    have hnone : (lc.held.find? fun h => h.1 = op).toList.filterMap heldSock = [] := by
      rcases hfind : lc.held.find? fun h => h.1 = op with - | ⟨o, kind | ⟨s, a⟩⟩
      · rw [hfind]; rfl
      · rw [hfind]; rfl
      · exact absurd hfind (hnot o s a)
    refine ⟨hreported hlog rfl rfl, h.accounted.move hlog rfl fun x => ?_, h.timed.frame rfl fun _ => rfl,
      h.queued.frame rfl rfl (fun _ => Iff.rfl) rfl⟩
    rw [(hperm.filterMap heldSock).count_eq, List.filterMap_append, hnone]
    rfl

/-- A request that finds nothing to do. -/
theorem idle (hasked : asks r = none) : Books hand [] (lc.note [.request r]) :=
  h.frame rfl ⟨rfl, rfl, rfl⟩ (List.filterMap_cons_none hasked) rfl rfl (h.accounted.frame rfl rfl rfl rfl rfl rfl)
    (h.timed.frame rfl fun _ => rfl)

/-- A request that only changes a socket. -/
theorem onTcp {tcp : ℕ} {c : ℕ → IoCall} (hasked : asks r = none)
    (hcloses : ∀ s, LoopEdge.closes (.io (c s)) = none) (hstarts : ∀ s, LoopEdge.starts (.io (c s)) = none) :
    Books hand [] ((lc.note [.request r]).onTcp tcp c) := by
  unfold LoopCore.onTcp
  split
  · next s _ =>
    exact h.frame (List.append_assoc _ _ _) ⟨rfl, rfl, rfl⟩ (List.filterMap_cons_none hasked) rfl
      (List.filterMap_cons_none (hstarts s))
      (h.accounted.frame (List.append_assoc _ _ _) rfl rfl rfl rfl (List.filterMap_cons_none (hcloses s)))
      (h.timed.frame rfl fun _ => rfl)
  · exact h.idle hasked

/-- A socket leaves its table and is closed. -/
theorem close {c : IoCall} (hasked : asks r = none)
    (hlog : lc'.log = lc.log ++ [.request r, .io c]) (hstarts : LoopEdge.starts (.io c) = none)
    (hcloses : LoopEdge.closes (.io c) = some s) (hdeadlines : lc'.deadlines = lc.deadlines)
    (hsame : lc'.dials = lc.dials ∧ lc'.held = lc.held ∧ lc'.resolver = lc.resolver)
    (htables : ∀ x, within x lc.tcp + within x lc.udp = within x lc'.tcp + within x lc'.udp + [s].count x) :
    Books hand [] lc' := by
  refine h.frame hlog hsame (List.filterMap_cons_none hasked) rfl (List.filterMap_cons_none hstarts)
    (h.accounted.move hlog rfl fun x => ?_) (h.timed.frame hdeadlines fun o => by rw [hsame.1])
  have hone : [LoopEdge.request r, .io c].filterMap LoopEdge.closes = [s] := List.filterMap_cons_some hcloses
  rw [hsame.2.1, hone]
  have := htables x
  omega

omit h

theorem phase_cancelDial (lc : LoopCore) (op : ℕ) : (lc.cancelDial op).phase = lc.phase := by
  unfold LoopCore.cancelDial
  split <;> rfl

theorem phase_cancelUdpSocket (lc : LoopCore) (op : ℕ) : (lc.cancelUdpSocket op).phase = lc.phase := by
  unfold LoopCore.cancelUdpSocket
  dsimp only
  split <;> rfl

theorem phase_onTcp (lc : LoopCore) (tcp : ℕ) (c : ℕ → IoCall) : (lc.onTcp tcp c).phase = lc.phase := by
  unfold LoopCore.onTcp
  split <;> rfl

/-- `execute`, which is one phase of the iteration. -/
theorem execute {opened : Opened} (h : Books hand [] lc)
    (hop : ∀ o, asks r = some o → o ∉ lc.log.filterMap LoopEdge.asked)
    (hs : ∀ op localIp s, r = .openUdpSocket op localIp → heldSock (op, opened) = some s →
      s ∉ lc.log.filterMap LoopEdge.gives)
    (hr : lc.execute r opened = some lc') : Books hand [] lc' ∧ lc'.phase = lc.phase := by
  cases r with
  | dial op target deadline =>
    obtain ⟨host, port⟩ := target
    cases host with
    | ip ip =>
      cases hr
      exact ⟨h.dialIp (hop _ rfl) rfl, rfl⟩
    | domain host =>
      cases hr
      exact ⟨h.dialName (hop _ rfl) (Or.inl rfl) rfl rfl, rfl⟩
  | resolve op target deadline =>
    obtain ⟨host, port⟩ := target
    cases host with
    | ip ip => cases hr
    | domain host =>
      cases hr
      exact ⟨h.dialName (hop _ rfl) (Or.inr rfl) rfl rfl, rfl⟩
  | cancelDial op =>
    cases hr
    exact ⟨h.cancelDial rfl rfl, phase_cancelDial _ _⟩
  | cancelResolve op =>
    cases hr
    exact ⟨h.cancelDial rfl rfl, phase_cancelDial _ _⟩
  | openUdpSocket op localIp =>
    cases hr
    exact ⟨h.openUdpSocket (hop _ rfl) fun s hsock => hs op localIp s rfl hsock, rfl⟩
  | cancelUdpSocket op =>
    cases hr
    exact ⟨h.cancelUdpSocket, phase_cancelUdpSocket _ _⟩
  | closeUdpSocket id =>
    simp only [LoopCore.execute] at hr
    split at hr
    · next s hid =>
      cases hr
      refine ⟨h.close rfl (List.append_assoc _ _ _) rfl rfl rfl ⟨rfl, rfl, rfl⟩ fun x => ?_, rfl⟩
      have herase : within x (lc.udp.erase id) + [s].count x = within x lc.udp := within_erase hid
      show _ = within x lc.tcp + within x (lc.udp.erase id) + _
      omega
    · cases hr
      exact ⟨h.idle rfl, rfl⟩
  | tcpShutdownWrite tcp =>
    cases hr
    exact ⟨h.onTcp rfl (fun _ => rfl) fun _ => rfl, phase_onTcp _ _ _⟩
  | tcpSetNodelay tcp =>
    cases hr
    exact ⟨h.onTcp rfl (fun _ => rfl) fun _ => rfl, phase_onTcp _ _ _⟩
  | tcpSetKeepalive tcp ka =>
    cases hr
    exact ⟨h.onTcp rfl (fun _ => rfl) fun _ => rfl, phase_onTcp _ _ _⟩
  | tcpClose tcp abort =>
    simp only [LoopCore.execute] at hr
    split at hr
    · next s hid =>
      cases hr
      refine ⟨h.close rfl (List.append_assoc _ _ _) rfl rfl rfl ⟨rfl, rfl, rfl⟩ fun x => ?_, rfl⟩
      have herase : within x (lc.tcp.erase tcp) + [s].count x = within x lc.tcp := within_erase hid
      show _ = within x (lc.tcp.erase tcp) + within x lc.udp + _
      omega
    · cases hr
      exact ⟨h.idle rfl, rfl⟩

end Books

/-! ### Runs -/

/-- The deadlines that the loop has collected and not yet acted on. -/
def Phase.due : Phase → List Expired
  | .accepting due _ _ => due
  | .expiring due _ _ => due
  | _ => []

/-- The completions that the loop has not yet looked at. -/
def Phase.results : Phase → List Completion
  | .accepting _ results _ => results
  | .expiring _ results _ => results
  | .completing results _ => results
  | _ => []

/-- The books are kept, wherever the iteration is. -/
def LoopCore.Kept (lc : LoopCore) : Prop := Books (lc.phase.results.filterMap Completion.sock) lc.phase.due lc

/-- **The environment of the loop**: the shard gives each operation a new id, `Io` hands out
new sockets, and the shard takes a socket under an id that is free. -/
def Fair (lc : LoopCore) : LoopAction → Prop
  | .attachPrimaryUdp sock id => sock ∉ lc.log.filterMap LoopEdge.gives ∧ lc.udp.lookup id = none
  | .wake _ results _ =>
    (results.filterMap Completion.sock).Nodup ∧
      ∀ s ∈ results.filterMap Completion.sock, s ∉ lc.log.filterMap LoopEdge.gives
  | .accept _ r answer =>
    (∀ s, r = .sock s → s ∉ lc.log.filterMap LoopEdge.gives) ∧ ∀ id, answer = some id → lc.tcp.lookup id = none
  | .next answer =>
    match lc.phase with
    | .completing _ _ => ∀ id, answer = some id → lc.tcp.lookup id = none
    | .delivering _ => ∀ id, answer = some id → lc.udp.lookup id = none
    | _ => True
  | .request r opened =>
    (∀ o, asks r = some o → o ∉ lc.log.filterMap LoopEdge.asked) ∧
      ∀ op localIp s, r = .openUdpSocket op localIp → heldSock (op, opened) = some s →
        s ∉ lc.log.filterMap LoopEdge.gives
  | .finish _ => True

theorem LoopCore.kept_new (cfg : LoopConfig) : (LoopCore.new cfg).Kept where
  reported := ⟨List.nodup_nil, fun o => by cases o <;> rfl, fun o _ => by cases o <;> rfl⟩
  accounted := ⟨List.nodup_nil, fun _ => rfl⟩
  timed :=
    ⟨List.nodup_nil, List.nodup_nil, fun _ hdue => absurd hdue List.not_mem_nil, fun op => by
      simp [LoopCore.new, Deadlines.Armed, Phase.due]⟩
  queued :=
    ⟨ResolverQueue.sound_empty, fun op => by
      simp [LoopCore.new, LoopCore.Resolving, ResolverQueue.not_active_empty],
      fun op h => by simp [LoopCore.new, ResolverQueue.ops] at h, List.Sublist.refl _⟩

theorem LoopCore.phase_accept (lc : LoopCore) (listener : ℕ) (r : Accepted) (answer : Option ℕ) :
    (lc.accept listener r answer).phase = lc.phase := by
  cases r <;> cases answer <;> rfl

theorem LoopCore.phase_udpOpened (lc : LoopCore) (op : ℕ) (r : Opened) (answer : Option ℕ) :
    (lc.udpOpened op r answer).phase = lc.phase := by
  rcases r with kind | ⟨s, a⟩ <;> cases answer <;> rfl

variable {lc lc' : LoopCore}

/-- The next turn of the loops of step 3. -/
theorem LoopCore.Kept.next {answer : Option ℕ} (h : lc.Kept) (hfair : Fair lc (.next answer))
    (hnext : lc.next answer = some lc') : lc'.Kept := by
  unfold LoopCore.Kept at h
  unfold LoopCore.next at hnext
  simp only [Fair] at hfair
  split at hnext
  · next due results shutdown hphase =>
    cases hnext
    rw [hphase] at h
    exact h.at_ (.expiring due results shutdown)
  · next results shutdown hphase =>
    cases hnext
    rw [hphase] at h
    exact h.at_ (.completing results shutdown)
  · next e due results shutdown hphase =>
    cases hnext
    rw [hphase] at h
    exact h.expired.at_ (.expiring due results shutdown)
  · next shutdown hphase =>
    cases hnext
    rw [hphase] at h
    exact h.at_ (.delivering shutdown)
  · next ev results shutdown hphase =>
    cases hnext
    rw [hphase] at h hfair
    exact (h.dialResult hfair).at_ (.completing results shutdown)
  · next shutdown hphase =>
    rw [hphase] at hfair
    split at hnext
    · next op r held hheld =>
      cases hnext
      unfold LoopCore.Kept
      rw [LoopCore.phase_udpOpened]
      exact h.udpOpened hheld hfair
    · cases hnext
      rw [hphase] at h
      exact (h.shutdownSignal shutdown).at_ .executing
  · cases hnext

/-- **Each step keeps the books.** -/
theorem LoopCore.Kept.step {a : LoopAction} (h : lc.Kept) (hfair : Fair lc a)
    (hstep : lc.step a = some lc') : lc'.Kept := by
  unfold LoopCore.Kept at h
  unfold LoopCore.step at hstep
  split at hstep
  · next sock id hphase =>
    cases hstep
    unfold LoopCore.Kept
    exact h.attachPrimaryUdp hfair.1 hfair.2
  · next now results shutdown hphase =>
    cases hstep
    rw [hphase] at h
    have hnone {β : Type} {f : LoopEdge → Option β} (hf : ∀ ev, f (.completed ev) = none) :
        (results.map LoopEdge.completed).filterMap f = [] := by
      simp [hf]
    have hgives : (results.map LoopEdge.completed).filterMap LoopEdge.gives = results.filterMap Completion.sock := by
      rw [List.filterMap_map]
      rfl
    refine h.frame rfl ⟨rfl, rfl, rfl⟩ (hnone fun _ => rfl) (hnone fun _ => rfl) (hnone fun _ => rfl) ?_
      (h.timed.wake now rfl rfl)
    refine h.accounted.step rfl ?_ fun s => ?_
    · rw [hgives]
      exact hfair
    · rw [hgives, hnone fun _ => rfl]
      show 0 + _ + _ + _ + _ = (results.filterMap Completion.sock).count s + _ + _ + _ + 0
      simp only [LoopCore.note]
      omega
  · next listener r answer due results shutdown hphase =>
    cases hstep
    unfold LoopCore.Kept
    rw [LoopCore.phase_accept]
    exact h.accept hfair.1 hfair.2
  · next answer => exact LoopCore.Kept.next h hfair hstep
  · next r opened hphase =>
    rw [hphase] at h
    obtain ⟨hbooks, hsame⟩ := h.execute hfair.1 hfair.2 hstep
    rw [LoopCore.Kept, hsame, hphase]
    exact hbooks
  · next status hphase =>
    cases hstep
    rw [hphase] at h
    cases status with
    | some code => exact h.at_ (.exited code)
    | none =>
      unfold LoopCore.finish
      dsimp only
      split
      · exact h.at_ (.exited 0)
      · exact h.at_ .waiting
  · cases hstep

/-- What is submitted was asked for. -/
theorem submits_sublist (log : List LoopEdge) :
    ((log.filterMap LoopEdge.submits).map LoopOp.dial).Sublist (log.filterMap LoopEdge.asked) := by
  induction log with
  | nil => exact List.Sublist.refl _
  | cons e log ih =>
    have he : ∀ op, e.submits = some op → e.asked = some (.dial op) := by
      intro op hop
      unfold LoopEdge.submits at hop
      split at hop <;> cases hop <;> rfl
    cases hsubmits : e.submits with
    | none =>
      rw [List.filterMap_cons_none hsubmits]
      exact ih.trans ((List.sublist_cons_self e log).filterMap _)
    | some op =>
      rw [List.filterMap_cons_some hsubmits, List.filterMap_cons_some (he op hsubmits), List.map_cons]
      exact ih.cons_cons _

section Runs

variable {lc : LoopCore}

theorem Reported.count_told_le (h : Reported lc) (o : LoopOp) : (lc.log.filterMap LoopEdge.told).count o ≤ 1 := by
  have hle := h.le o
  have hone := List.nodup_iff_count_le_one.mp h.once o
  omega

theorem Reported.count_told_eq (h : Reported lc) {o : LoopOp} (ho : o ∈ lc.log.filterMap LoopEdge.asked)
    (hpending : lc.pending o = 0) (hcancelled : o ∉ lc.log.filterMap LoopEdge.cancelled) :
    (lc.log.filterMap LoopEdge.told).count o = 1 := by
  have heq := h.eq o hcancelled
  rw [List.count_eq_one_of_mem h.once ho] at heq
  omega

end Runs

/-- **Dials, resolutions and sockets.** In every run of the loop the shard is told of each
operation at most once, and exactly once when it is not pending any more and was not
cancelled. Each socket is in exactly one place: in a completion that the loop has not yet
looked at, in a result that is held for the shard, in a table, or closed. Between two
iterations the deadlines of dials are those of the dial table. A dial whose name is resolved
waits, or is running and not abandoned; at most 64 resolutions run; names wait only while
all slots are used, and start in the order in which the shard asked, each once. -/
theorem operations_settle {cfg : LoopConfig} {as : List LoopAction} {lc : LoopCore}
    (hrun : Run LoopCore.step Fair (LoopCore.new cfg) as lc) :
    (∀ o, (lc.log.filterMap LoopEdge.told).count o ≤ 1) ∧
    (∀ o ∈ lc.log.filterMap LoopEdge.asked, lc.pending o = 0 → o ∉ lc.log.filterMap LoopEdge.cancelled →
      (lc.log.filterMap LoopEdge.told).count o = 1) ∧
    (∀ s ∈ lc.log.filterMap LoopEdge.gives,
      (lc.phase.results.filterMap Completion.sock).count s + (lc.held.filterMap heldSock).count s + within s lc.tcp +
        within s lc.udp + (lc.log.filterMap LoopEdge.closes).count s = 1) ∧
    (lc.phase = .waiting → ∀ op, lc.deadlines.Armed (.dial op) ↔ (lc.dials.lookup op).isSome) ∧
    (∀ op, lc.Resolving op → op ∈ lc.resolver.running ∧ op ∉ lc.resolver.abandoned ∨ op ∈ lc.resolver.ops) ∧
    lc.resolver.running.card ≤ RESOLVER_SLOTS ∧ lc.resolver.abandoned ⊆ lc.resolver.running ∧
    (lc.resolver.waiting ≠ [] → lc.resolver.running.card = RESOLVER_SLOTS) ∧
    (lc.log.filterMap LoopEdge.starts ++ lc.resolver.ops).Sublist (lc.log.filterMap LoopEdge.submits) ∧
    (lc.log.filterMap LoopEdge.starts ++ lc.resolver.ops).Nodup := by
  have h : lc.Kept := hrun.invariant (fun _ _ _ hkept hfair hstep => hkept.step hfair hstep) (LoopCore.kept_new cfg)
  have hsubmits : (lc.log.filterMap LoopEdge.submits).Nodup :=
    (h.reported.once.sublist (submits_sublist lc.log)).of_map _
  refine ⟨h.reported.count_told_le, fun o => h.reported.count_told_eq, fun s hs => ?_, fun hphase op => ?_,
    fun op hop => (h.queued.active op).mpr hop, h.queued.sound.slots, h.queued.sound.abandoned, h.queued.sound.full,
    h.queued.order, hsubmits.sublist h.queued.order⟩
  · rw [← h.accounted.eq s]
    exact List.count_eq_one_of_mem h.accounted.once hs
  · have hdials := h.timed.dials op
    rw [hphase] at hdials
    rw [hdials]
    simp [Phase.due]

/-- The dial of a name that runs into its deadline, and a socket that is held. -/
theorem operations_settle_timeout : ∃ as lc,
    Run LoopCore.step Fair (LoopCore.new ⟨1, 1⟩) as lc ∧ (lc.log.filterMap LoopEdge.told).count (.dial 1) = 1 ∧
      ([] : List ℕ).count 7 + (lc.held.filterMap heldSock).count 7 + within 7 lc.tcp + within 7 lc.udp +
        (lc.log.filterMap LoopEdge.closes).count 7 = 1 := by
  have hrun : Run LoopCore.step Fair (LoopCore.new ⟨1, 1⟩)
      [.wake 0 [] false, .next none, .next none, .next none, .next none,
        .request (.dial 1 ⟨.domain "origin", 443⟩ 5) (.error .other),
        .request (.openUdpSocket 2 (.v4 ⟨[0, 0, 0, 0], rfl⟩)) (.ok (7, .v4 ⟨[0, 0, 0, 0], rfl⟩ 9)), .finish none,
        .wake 9 [] false, .next none, .next none] _ :=
    .cons ⟨List.nodup_nil, by simp⟩ rfl <| .cons trivial rfl <| .cons trivial rfl <|
      .cons (fun _ hid => by cases hid) rfl <| .cons (fun _ hid => by cases hid) rfl <|
      .cons ⟨fun _ ho => by cases ho; decide, fun _ _ _ hr => by cases hr⟩ rfl <|
      .cons ⟨fun _ ho => by cases ho; decide, fun _ _ _ hr hs => by cases hr; cases hs; decide⟩ rfl <|
      .cons trivial rfl <| .cons ⟨List.nodup_nil, by simp⟩ rfl <| .cons trivial rfl <| .cons trivial rfl <| .nil _
  obtain ⟨-, htold, hsock, -⟩ := operations_settle hrun
  exact ⟨_, _, hrun, htold (.dial 1) (by decide) rfl (by decide), hsock 7 (by decide)⟩

end MqProxy.Driver
