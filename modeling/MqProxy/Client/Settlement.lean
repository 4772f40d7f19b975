import MqProxy.Client.ExchangeSpec

/-!
# Every exchange is settled once

Runs of the exchange core: operations of the fronts and H3 events in any order, with any
answers of the transport. The only rule (`Fresh`) is that the transport opens a request
under an id that the table does not hold.

A run logs what the core asked and which `H3Closed` it saw. Of the log only the resets and
the closes of a request matter, since it was opened (`marks`). An operation concerns one
request (`Acts`), and there are few things it can do to it (`Effect`); from these follows
the invariant `Tied`, which ties `live` and `up` of an exchange to its marks.

**`exchanges_settle`**: at most one reset, and none after the close; whatever leaves the
table was closed, was complete, or has been reset by then; a request that is not in the
table is left alone.
-/

namespace MqProxy.Client

open MqProxy.Http MqProxy.Library
open MqProxy.Runtime (StreamError)
open MqProxy.Ingress.HttpConnect (ascii)

variable {O : Type}

/-! ### Runs -/

/-- What can happen to the exchanges, with the answers of the transport. -/
inductive XStep (O : Type) where
  | openReq (conn : ℕ) (head : ReqHead) (owner : O) (opened : Option ℕ) (sent : Bool)
  | sendBody (id : ℕ) (data : List UInt8) (fin : Bool) (finished : Except StreamError Unit)
      (sent : Except StreamError ℕ)
  | uploadEof (id : ℕ) (buffered : UInt64)
  | reset (id : ℕ)
  | event (ev : XEvent)
  | drainOwner (order : List ℕ) (pred : O → Bool)
  | readHead (id : ℕ) (fields : List Field) (recv : Except StreamError Bool)
  | readBody (id : ℕ) (recv : Except StreamError (ℕ × Bool))

/-- The request of an event. -/
def XEvent.id : XEvent → ℕ
  | .readable id => id
  | .writable id => id
  | .closed id => id

/-- The request that an operation names. -/
def XStep.id : XStep O → Option ℕ
  | .openReq .. | .drainOwner .. => none
  | .sendBody id .. => some id
  | .uploadEof id _ => some id
  | .reset id => some id
  | .event ev => some ev.id
  | .readHead id .. => some id
  | .readBody id _ => some id

/-- The table and the calls after an operation. -/
def Exchanges.step (t : Exchanges O) : XStep O → Exchanges O × List XCall
  | .openReq conn head owner opened sent =>
    let r := t.openReq conn head owner opened sent
    (r.1, r.2.1)
  | .sendBody id data fin finished sent =>
    let r := t.sendBody id data fin finished sent
    (r.1, r.2.1)
  | .uploadEof id buffered =>
    let r := t.uploadEof id buffered
    (r.1, r.2.1)
  | .reset id => t.fail id
  | .event ev => ((t.onEvent ev).1, [])
  | .drainOwner order pred => t.drainOwner order pred
  | .readHead id fields recv =>
    let r := t.readHead id fields recv
    (r.1, r.2.1)
  | .readBody id recv =>
    let r := t.readBody id recv
    (r.1, r.2.1)

/-- What a run logs. -/
inductive Note where
  /-- A call of the transport. -/
  | call (c : XCall)
  /-- An `H3Closed` was processed. -/
  | closed (id : ℕ)
  deriving DecidableEq

/-- The events of an operation that are logged. -/
def XStep.notes : XStep O → List Note
  | .event (.closed id) => [.closed id]
  | _ => []

/-- The table and the log. -/
structure Core (O : Type) where
  table : Exchanges O
  log : List Note

/-- One operation. -/
def Core.step (w : Core O) (a : XStep O) : Option (Core O) :=
  some ⟨(w.table.step a).1, w.log ++ (a.notes ++ (w.table.step a).2.map .call)⟩

/-- The transport opens a request under a new id. -/
def Fresh (w : Core O) : XStep O → Prop
  | .openReq _ _ _ (some id) _ => w.table.lookup id = none
  | _ => True

/-- What settles a request. -/
inductive Mark where
  | reset
  | closed
  deriving DecidableEq

/-- The marks of a request after one note more; they start over when it is opened. -/
def mark (id : ℕ) (ms : List Mark) : Note → List Mark
  | .call (.openRequest _ opened) => if opened = some id then [] else ms
  | .call (.reset id') => if id' = id then ms ++ [.reset] else ms
  | .closed id' => if id' = id then ms ++ [.closed] else ms
  | .call _ => ms

/-- **The resets and closes of the request that an id stands for**, in order. -/
def marks (id : ℕ) (log : List Note) : List Mark := log.foldl (mark id) []

/-- At most one reset, and none after a close. -/
structure Orderly (ms : List Mark) : Prop where
  once : ms.count .reset ≤ 1
  final : ∀ pre post, ms = pre ++ .closed :: post → .reset ∉ post

/-- The response has been read to its end and is as long as it said. -/
def WholeResponse (x : Exch O) (recv : Except StreamError (ℕ × Bool)) : Prop :=
  ∃ status cl delivered,
    (x.down = .body status cl delivered true ∧ Exchanges.isShort x.method status cl delivered = false) ∨
    (x.down = .body status cl delivered false ∧
      ∃ n, recv = .ok (n, true) ∧ Exchanges.isShort x.method status cl (delivered + UInt64.ofNat n) = false)

/-- The operation reads the end of the response, and the upload is done. -/
def Completes (x : Exch O) : XStep O → Prop
  | .readBody _ recv => x.up = .done ∧ WholeResponse x recv
  | _ => False

/-! ### What an operation does to its request -/

/-- The marks after some calls more. -/
def callMarks (id : ℕ) (ms : List Mark) (calls : List XCall) : List Mark := (calls.map Note.call).foldl (mark id) ms

@[simp] theorem callMarks_nil (id : ℕ) (ms : List Mark) : callMarks id ms [] = ms := rfl

@[simp] theorem callMarks_append (id : ℕ) (ms : List Mark) (calls calls' : List XCall) :
    callMarks id ms (calls ++ calls') = callMarks id (callMarks id ms calls) calls' := by
  rw [callMarks, List.map_append, List.foldl_append]
  rfl

@[simp] theorem callMarks_reset (id id' : ℕ) (ms : List Mark) :
    callMarks id ms [.reset id'] = if id' = id then ms ++ [.reset] else ms := rfl

theorem callMarks_ite (id : ℕ) (ms : List Mark) (b : Prop) [Decidable b] (cs cs' : List XCall) :
    callMarks id ms (if b then cs else cs') = if b then callMarks id ms cs else callMarks id ms cs' :=
  apply_ite _ b cs cs'

theorem callMarks_quiet (id : ℕ) (ms : List Mark) {calls : List XCall} (h : ∀ c ∈ calls, c.quiet = true) :
    callMarks id ms calls = ms := by
  induction calls generalizing ms with
  | nil => rfl
  | cons c calls ih =>
    have hc : mark id ms (.call c) = ms := by
      have hquiet := h c List.mem_cons_self
      cases c with
      | openRequest conn opened =>
        cases opened with
        | none => rfl
        | some id' => cases hquiet
      | reset id' => cases hquiet
      | _ => rfl
    show callMarks id (mark id ms (.call c)) calls = ms
    rw [hc]
    exact ih ms fun c hc => h c (List.mem_cons_of_mem _ hc)

/-- **What an operation `a` on `id` can do to the table**, and the calls it makes. -/
inductive Acts (a : XStep O) (id : ℕ) (t : Exchanges O) : Exchanges O × List XCall → Prop
  /-- Nothing. -/
  | same {calls : List XCall} (hcalls : ∀ c ∈ calls, c.quiet = true) : Acts a id t (t, calls)
  /-- The exchange moves on, and is as live as before. -/
  | moved {x y : Exch O} {calls : List XCall} (hx : t.lookup id = some x) (hcalls : ∀ c ∈ calls, c.quiet = true)
      (hlive : y.live = x.live) (hup : y.up ≠ .done → x.up ≠ .done) : Acts a id t (t.insert id y, calls)
  /-- The upload breaks: the request is reset, and its exchange kept. -/
  | broken {x y : Exch O} {calls : List XCall} (hx : t.lookup id = some x) (hcalls : ∀ c ∈ calls, c.quiet = true)
      (hup : x.up ≠ .done) (hlive : y.live = false) (hdone : y.up = .done) :
      Acts a id t (t.insert id y, calls ++ [.reset id])
  /-- The exchange fails. -/
  | failed {x : Exch O} {calls : List XCall} (hx : t.lookup id = some x) (hcalls : ∀ c ∈ calls, c.quiet = true) :
      Acts a id t (t.erase id, calls ++ if x.live then [.reset id] else [])
  /-- The response is complete. -/
  | ended {x : Exch O} {calls : List XCall} (hx : t.lookup id = some x) (hcalls : ∀ c ∈ calls, c.quiet = true)
      (hcompletes : x.up = .done → Completes x a) :
      Acts a id t (t.erase id, calls ++ if x.up = .done then [] else [.reset id])

theorem acts_fail (a : XStep O) (id : ℕ) (t : Exchanges O) (calls : List XCall)
    (hcalls : ∀ c ∈ calls, c.quiet = true) : Acts a id t ((t.fail id).1, calls ++ (t.fail id).2) := by
  rw [Exchanges.fail]
  split
  · simpa using Acts.same hcalls
  · next x hx => exact .failed hx hcalls

theorem toSend_ne_none {up : Up} {data data' : List UInt8} {fin fin' : Bool} {excess : ℕ}
    (h : Exchanges.toSend up data fin = some (data', fin', excess)) : up ≠ .done := by
  rintro rfl
  cases h

theorem acts_sendBody (t : Exchanges O) (id : ℕ) (data : List UInt8) (fin : Bool) (finished : Except StreamError Unit)
    (sent : Except StreamError ℕ) :
    Acts (.sendBody id data fin finished sent) id t (t.step (.sendBody id data fin finished sent)) := by
  simp only [Exchanges.step, Exchanges.sendBody]
  split
  · exact .same (by simp)
  · next x hx =>
    split
    · exact .same (by simp)
    · next data' fin' excess hsend =>
      have hup := toSend_ne_none hsend
      have hcall : ∀ c ∈ [if data' = [] then XCall.finish id else .sendBody id data' fin'], c.quiet = true := by
        intro c hc
        rw [List.mem_singleton.mp hc]
        split <;> rfl
      split
      · exact .same (by simp)
      · split
        · split
          · exact .same hcall
          · split
            · exact .moved hx hcall rfl fun _ => hup
            · exact .moved hx hcall rfl fun _ => hup
        · exact .same hcall
        · exact .same hcall
        · exact .broken hx hcall hup rfl rfl
        · exact .broken hx hcall hup rfl rfl

theorem acts_uploadEof (t : Exchanges O) (id : ℕ) (buffered : UInt64) :
    Acts (.uploadEof id buffered) id t (t.step (.uploadEof id buffered)) := by
  simp only [Exchanges.step, Exchanges.uploadEof]
  split
  · split
    · exact acts_fail _ _ _ [] (by simp)
    · exact .same (by simp)
  · exact .same (by simp)

theorem acts_readHead (t : Exchanges O) (id : ℕ) (fields : List Field) (recv : Except StreamError Bool) :
    Acts (.readHead id fields recv) id t (t.step (.readHead id fields recv)) := by
  have hreads := Exchanges.readHead_spec t id fields recv
  simp only [Exchanges.step]
  generalize t.readHead id fields recv = r at hreads ⊢
  cases hreads with
  | waits hcalls => exact .same hcalls
  | fails hcalls => exact acts_fail _ _ _ _ hcalls
  | head fin hx => exact .moved hx (by simp [XCall.quiet]) rfl fun h => h

theorem acts_readBody (t : Exchanges O) (id : ℕ) (recv : Except StreamError (ℕ × Bool)) :
    Acts (.readBody id recv) id t (t.step (.readBody id recv)) := by
  have hcall : ∀ c ∈ [XCall.recvBody id], c.quiet = true := by simp [XCall.quiet]
  have hreads := Exchanges.readBody_spec t id recv
  simp only [Exchanges.step]
  generalize t.readBody id recv = r at hreads ⊢
  cases hreads with
  | waits hcalls => exact .same hcalls
  | fails hcalls => exact acts_fail _ _ _ _ hcalls
  | data hx => exact .moved hx hcall rfl fun h => h
  | ended hx hdown hlong =>
    exact .ended hx (List.forall_mem_nil _) fun hup => ⟨hup, _, _, _, .inl ⟨hdown, hlong⟩⟩
  | last hx hdown hrecv hlong =>
    exact .ended hx hcall fun hup => ⟨hup, _, _, _, .inr ⟨hdown, _, hrecv, hlong⟩⟩

variable {t : Exchanges O} {id : ℕ}

/-! ### What happens to each request -/

/-- **What a step can do to the request `id`**: its exchange and its marks before and after. -/
inductive Effect (a : XStep O) : Option (Exch O) → List Mark → Option (Exch O) → List Mark → Prop
  /-- Nothing. -/
  | same (o : Option (Exch O)) (ms : List Mark) : Effect a o ms o ms
  /-- The exchange moves on. -/
  | moved {x y : Exch O} {ms : List Mark} (hlive : y.live = x.live) (hup : y.up ≠ .done → x.up ≠ .done) :
      Effect a (some x) ms (some y) ms
  /-- Its upload breaks, and the request is reset. -/
  | broken {x y : Exch O} {ms : List Mark} (hup : x.up ≠ .done) (hlive : y.live = false) (hdone : y.up = .done) :
      Effect a (some x) ms (some y) (ms ++ [.reset])
  /-- The request is closed. -/
  | closed {x y : Exch O} {ms : List Mark} (hlive : y.live = false) (hdone : y.up = .done) :
      Effect a (some x) ms (some y) (ms ++ [.closed])
  /-- A request that has left the table is closed. -/
  | late (ms : List Mark) : Effect a none ms none (ms ++ [.closed])
  /-- The exchange fails. -/
  | failed {x : Exch O} {ms : List Mark} : Effect a (some x) ms none (if x.live then ms ++ [.reset] else ms)
  /-- The response is complete. -/
  | ended {x : Exch O} {ms : List Mark} (hcompletes : x.up = .done → Completes x a) :
      Effect a (some x) ms none (if x.up = .done then ms else ms ++ [.reset])
  /-- The request is opened. -/
  | opened {x : Exch O} {ms : List Mark} (hlive : x.live = true) : Effect a none ms (some x) []
  /-- The request is opened, but its head is not taken. -/
  | refused (ms : List Mark) : Effect a none ms none [.reset]

variable {a : XStep O}

theorem Acts.lookup_ne {r : Exchanges O × List XCall} (h : Acts a id t r) {i : ℕ} (hi : i ≠ id) :
    r.1.lookup i = t.lookup i := by
  cases h with
  | same => rfl
  | moved => exact AList.lookup_insert_ne hi
  | broken => exact AList.lookup_insert_ne hi
  | failed => exact AList.lookup_erase_ne hi
  | ended => exact AList.lookup_erase_ne hi

/-- An operation on a request does to it what it acts, and nothing to the others. -/
theorem Acts.effect {r : Exchanges O × List XCall} (h : Acts a id t r)
    (id' : ℕ) (ms : List Mark) : Effect a (t.lookup id') ms (r.1.lookup id') (callMarks id' ms r.2) := by
  by_cases hid : id' = id
  · subst hid
    cases h with
    | same hcalls =>
      rw [callMarks_quiet _ _ hcalls]
      exact .same _ _
    | moved hx hcalls hlive hup =>
      rw [callMarks_quiet _ _ hcalls, AList.lookup_insert, hx]
      exact .moved hlive hup
    | broken hx hcalls hup hlive hdone =>
      rw [callMarks_append, callMarks_quiet _ _ hcalls, callMarks_reset, if_pos rfl, AList.lookup_insert, hx]
      exact .broken hup hlive hdone
    | failed hx hcalls =>
      rw [callMarks_append, callMarks_quiet _ _ hcalls, AList.lookup_erase, hx, callMarks_ite, callMarks_reset,
        if_pos rfl]
      exact .failed
    | ended hx hcalls hcompletes =>
      rw [callMarks_append, callMarks_quiet _ _ hcalls, AList.lookup_erase, hx, callMarks_ite, callMarks_reset,
        if_pos rfl]
      exact .ended hcompletes
  · have hmarks : callMarks id' ms r.2 = ms := by
      have hid := Ne.symm hid
      cases h with
      | same hcalls => exact callMarks_quiet _ _ hcalls
      | moved hx hcalls => exact callMarks_quiet _ _ hcalls
      | _ hx hcalls => simp [callMarks_quiet _ _ hcalls, callMarks_ite, hid]
    rw [hmarks, h.lookup_ne hid]
    exact .same _ _

/-- Nothing happened, or the exchange failed. -/
inductive FailsOnce : Option (Exch O) → List Mark → Option (Exch O) → List Mark → Prop
  | same (o : Option (Exch O)) (ms : List Mark) : FailsOnce o ms o ms
  | failed (x : Exch O) (ms : List Mark) : FailsOnce (some x) ms none (if x.live then ms ++ [.reset] else ms)

variable {o o' : Option (Exch O)} {ms ms' : List Mark}

theorem FailsOnce.trans {o'' : Option (Exch O)} {ms'' : List Mark} (h : FailsOnce o ms o' ms')
    (h' : FailsOnce o' ms' o'' ms'') : FailsOnce o ms o'' ms'' := by
  cases h with
  | same => exact h'
  | failed x =>
    cases h' with
    | same => exact .failed x ms

theorem FailsOnce.effect (h : FailsOnce o ms o' ms') : Effect a o ms o' ms' := by
  cases h with
  | same => exact .same _ _
  | failed => exact .failed

theorem failsOnce_fail (t : Exchanges O) (id id' : ℕ) (ms : List Mark) :
    FailsOnce (t.lookup id) ms ((t.fail id').1.lookup id) (callMarks id ms (t.fail id').2) := by
  rw [Exchanges.fail]
  split
  · exact .same _ _
  · next x hx =>
    rw [callMarks_ite, callMarks_reset]
    by_cases hid : id = id'
    · subst hid
      rw [hx, AList.lookup_erase, if_pos rfl]
      exact .failed x ms
    · rw [AList.lookup_erase_ne hid, if_neg (Ne.symm hid), callMarks_nil, ite_self]
      exact .same _ _

/-- Exchanges that fail one after the other. -/
theorem failsOnce_foldl {r : Exchanges O × List XCall} (ids : List ℕ) (s : Exchanges O × List XCall) (id : ℕ)
    (ms : List Mark)
    (h : ids.foldl (fun (s : Exchanges O × List XCall) id => ((s.1.fail id).1, s.2 ++ (s.1.fail id).2)) s = r) :
    FailsOnce (s.1.lookup id) (callMarks id ms s.2) (r.1.lookup id) (callMarks id ms r.2) := by
  induction ids generalizing s with
  | nil =>
    cases h
    exact .same _ _
  | cons id' ids ih =>
    have hfirst := failsOnce_fail s.1 id id' (callMarks id ms s.2)
    rw [← callMarks_append] at hfirst
    exact hfirst.trans (ih _ h)

/-- The calls of an opening start the marks over. -/
theorem callMarks_opened (id id' conn : ℕ) (hs : List Field) (fin : Bool) (ms : List Mark) :
    callMarks id ms [.openRequest conn (some id'), .sendHeaders id' hs fin] = if id' = id then [] else ms := by
  show (if some id' = some id then [] else ms) = _
  simp only [Option.some.injEq]

variable {w : Core O}

theorem effect_openReq {conn : ℕ} {head : ReqHead} {owner : O} {opened : Option ℕ} {sent : Bool}
    (hfresh : Fresh w (.openReq conn head owner opened sent)) (id : ℕ) (ms : List Mark) :
    Effect (.openReq conn head owner opened sent) (w.table.lookup id) ms
      ((w.table.openReq conn head owner opened sent).1.lookup id)
      (callMarks id ms (w.table.openReq conn head owner opened sent).2.1) := by
  rw [Exchanges.openReq]
  cases render head with
  | error r => exact .same _ _
  | ok wire =>
    cases opened with
    | none => exact .same _ _
    | some id' =>
      simp only
      have hnone : w.table.lookup id' = none := hfresh
      by_cases hid : id' = id
      · subst hid
        rw [hnone]
        split
        · rw [callMarks_opened, if_pos rfl, AList.lookup_insert]
          exact .opened rfl
        · rw [callMarks_append, callMarks_opened, if_pos rfl, callMarks_reset, if_pos rfl, hnone]
          exact .refused ms
      · split
        · rw [callMarks_opened, if_neg hid, AList.lookup_insert_ne (Ne.symm hid)]
          exact .same _ _
        · rw [callMarks_append, callMarks_opened, if_neg hid, callMarks_reset, if_neg hid]
          exact .same _ _

theorem effect_closed (t : Exchanges O) (id id' : ℕ) (ms : List Mark) :
    Effect (.event (.closed id')) (t.lookup id) ms ((t.onEvent (.closed id')).1.lookup id) (mark id ms (.closed id')) := by
  rw [Exchanges.onEvent, mark]
  by_cases hid : id' = id
  · subst hid
    rw [if_pos rfl]
    cases hx : t.lookup id' with
    | none =>
      simp only [hx]
      exact .late ms
    | some x =>
      simp only
      rw [AList.lookup_insert]
      exact .closed rfl rfl
  · rw [if_neg hid]
    split
    · exact .same _ _
    · rw [AList.lookup_insert_ne (Ne.symm hid)]
      exact .same _ _

/-- **What a step does to each request.** -/
theorem effect_step {w' : Core O} (hfresh : Fresh w a) (hstep : w.step a = some w') (id : ℕ) :
    Effect a (w.table.lookup id) (marks id w.log) (w'.table.lookup id) (marks id w'.log) := by
  cases hstep
  have hlog : ∀ calls : List XCall, marks id (w.log ++ (a.notes ++ calls.map .call)) =
      callMarks id (a.notes.foldl (mark id) (marks id w.log)) calls := by
    intro calls
    rw [marks, List.foldl_append, List.foldl_append]
    rfl
  rw [hlog]
  cases a with
  | openReq conn head owner opened sent => exact effect_openReq hfresh id _
  | sendBody id' data fin finished sent => exact (acts_sendBody _ _ _ _ _ _).effect id _
  | uploadEof id' buffered => exact (acts_uploadEof _ _ _).effect id _
  | reset id' => exact (acts_fail _ id' _ [] (by simp)).effect id _
  | event ev =>
    cases ev with
    | readable id' => exact .same _ _
    | writable id' => exact .same _ _
    | closed id' => exact effect_closed _ _ _ _
  | drainOwner order pred => exact (failsOnce_foldl _ (w.table, []) id _ rfl).effect
  | readHead id' fields recv => exact (acts_readHead _ _ _ _).effect id _
  | readBody id' recv => exact (acts_readBody _ _ _).effect id _

/-! ### The invariant -/

theorem orderly_nil : Orderly [] := ⟨by simp, by simp⟩

theorem orderly_reset : Orderly [.reset] where
  once := by simp
  final := by
    intro pre post h
    have hmem : Mark.closed ∈ [Mark.reset] := by
      rw [h]
      exact List.mem_append_right _ List.mem_cons_self
    simp at hmem

theorem Orderly.closed (h : Orderly ms) : Orderly (ms ++ [.closed]) where
  once := by
    rw [List.count_append]
    exact h.once
  final := by
    intro pre post hsplit
    rcases List.eq_nil_or_concat post with rfl | ⟨post, m, rfl⟩
    · simp
    · rw [List.concat_eq_append, ← List.cons_append, ← List.append_assoc] at hsplit
      obtain ⟨hms, hm⟩ := List.append_inj' hsplit rfl
      cases hm
      simpa using h.final pre post hms

/-- **The invariant** of a request: a live exchange has no marks, one that is not live has some,
and one with an upload to do is live. -/
structure Tied (o : Option (Exch O)) (ms : List Mark) : Prop where
  orderly : Orderly ms
  live : ∀ x, o = some x → x.live = true → ms = []
  spent : ∀ x, o = some x → x.live = false → ms ≠ []
  up : ∀ x, o = some x → x.up ≠ .done → x.live = true

theorem Effect.tied (h : Effect a o ms o' ms') (ht : Tied o ms) : Tied o' ms' := by
  cases h with
  | same => exact ht
  | @moved x y _ hlive hup =>
    refine ⟨ht.orderly, ?_, ?_, ?_⟩
    all_goals rintro _ ⟨⟩ h
    · exact ht.live x rfl (hlive ▸ h)
    · exact ht.spent x rfl (hlive ▸ h)
    · rw [hlive]
      exact ht.up x rfl (hup h)
  | @broken x y _ hup hlive hdone =>
    rw [ht.live x rfl (ht.up x rfl hup)]
    refine ⟨orderly_reset, ?_, by simp, ?_⟩
    all_goals rintro _ ⟨⟩ h
    · rw [hlive] at h
      cases h
    · exact absurd hdone h
  | @closed x y _ hlive hdone =>
    refine ⟨ht.orderly.closed, ?_, by simp, ?_⟩
    all_goals rintro _ ⟨⟩ h
    · rw [hlive] at h
      cases h
    · exact absurd hdone h
  | late => exact ⟨ht.orderly.closed, by simp, by simp, by simp⟩
  | @failed x _ =>
    refine ⟨?_, by simp, by simp, by simp⟩
    split
    · next hlive =>
      rw [ht.live x rfl hlive]
      exact orderly_reset
    · exact ht.orderly
  | @ended x _ _ =>
    refine ⟨?_, by simp, by simp, by simp⟩
    split
    · exact ht.orderly
    · next hup =>
      rw [ht.live x rfl (ht.up x rfl hup)]
      exact orderly_reset
  | @opened x _ hlive =>
    refine ⟨orderly_nil, fun _ _ _ => rfl, ?_, ?_⟩
    all_goals rintro _ ⟨⟩ h
    · rw [hlive] at h
      cases h
    · exact hlive
  | refused => exact ⟨orderly_reset, by simp, by simp, by simp⟩

/-- **An exchange that leaves the table is settled.** -/
theorem Effect.settled {x : Exch O} (h : Effect a (some x) ms none ms')
    (ht : Tied (some x) ms) : .closed ∈ ms' ∨ Completes x a ∨ .reset ∈ ms' := by
  cases h with
  | failed =>
    split
    · simp
    · next hlive =>
      have hne := ht.spent x rfl (Bool.not_eq_true _ ▸ hlive)
      obtain ⟨m, hm⟩ := List.exists_mem_of_ne_nil _ hne
      cases m with
      | reset => exact .inr (.inr hm)
      | closed => exact .inl hm
  | ended hcompletes =>
    split
    · next hup => exact .inr (.inl (hcompletes hup))
    · simp

/-- In every state that is reached, each request is tied to its marks. -/
theorem tied_run {as : List (XStep O)} (hrun : Run Core.step Fresh ⟨∅, []⟩ as w) (id : ℕ) :
    Tied (w.table.lookup id) (marks id w.log) := by
  apply hrun.invariant (I := fun w => Tied (w.table.lookup id) (marks id w.log))
  · intro s a s' htied hfresh hstep
    exact (effect_step hfresh hstep id).tied htied
  · exact ⟨orderly_nil, by simp, by simp, by simp⟩

/-- A request that is not in the table is left alone. -/
theorem step_absent (ha : a.id = some id) (h : t.lookup id = none) : t.step a = (t, []) := by
  cases a with
  | openReq conn head owner opened sent => cases ha
  | drainOwner order pred => cases ha
  | sendBody id' data fin finished sent =>
    cases ha
    simp only [Exchanges.step, Exchanges.sendBody, h]
  | uploadEof id' buffered =>
    cases ha
    simp only [Exchanges.step, Exchanges.uploadEof, h, Option.map_none]
  | reset id' =>
    cases ha
    simp only [Exchanges.step, Exchanges.fail, h]
  | event ev =>
    cases ha
    cases ev with
    | readable id' => rfl
    | writable id' => rfl
    | closed id' =>
      have h : t.lookup id' = none := h
      simp only [Exchanges.step, Exchanges.onEvent, h]
  | readHead id' fields recv =>
    cases ha
    simp only [Exchanges.step, Exchanges.readHead, h]
  | readBody id' recv =>
    cases ha
    simp only [Exchanges.step, Exchanges.readBody, h]

/-- A request that was opened has an exchange, or was reset. -/
theorem openReq_owned {w' : Core O} {conn : ℕ} {head : ReqHead} {owner : O} {sent : Bool} {hs : List Field}
    (hrender : render head = .ok hs) (hstep : w.step (.openReq conn head owner (some id) sent) = some w') :
    (w'.table.lookup id).isSome = true ∨ .reset ∈ marks id w'.log := by
  cases hstep
  simp only [Exchanges.step, Exchanges.openReq, hrender]
  split
  · rw [AList.lookup_insert]
    exact .inl rfl
  · refine .inr ?_
    rw [List.map_append, marks, List.foldl_append, List.foldl_append, List.foldl_append]
    show .reset ∈ (if id = id then _ ++ [Mark.reset] else _)
    rw [if_pos rfl]
    exact List.mem_append_right _ List.mem_cons_self

/-- **Exchanges settle**, after every run and in every step from there: a request is reset at most
once, and not after its close; an exchange that leaves the table was closed, or is complete, or has
been reset; a request that was opened has an exchange or was reset; an operation on a request that
is not in the table does nothing. -/
theorem exchanges_settle {w : Core O} {as : List (XStep O)} (hrun : Run Core.step Fresh ⟨∅, []⟩ as w) :
    (∀ id, Orderly (marks id w.log)) ∧
    (∀ a w' id x, Fresh w a → w.step a = some w' → w.table.lookup id = some x → w'.table.lookup id = none →
      .closed ∈ marks id w'.log ∨ Completes x a ∨ .reset ∈ marks id w'.log) ∧
    (∀ conn head owner id sent hs w', render head = .ok hs →
      w.step (.openReq conn head owner (some id) sent) = some w' →
      (w'.table.lookup id).isSome = true ∨ .reset ∈ marks id w'.log) ∧
    ∀ a id, a.id = some id → w.table.lookup id = none → w.table.step a = (w.table, []) := by
  refine ⟨fun id => (tied_run hrun id).orderly, ?_, ?_, fun a id => step_absent⟩
  · intro a w' id x hfresh hstep hx hnone
    have heffect := effect_step hfresh hstep id
    have htied := tied_run hrun id
    rw [hx] at heffect htied
    rw [hnone] at heffect
    exact heffect.settled htied
  · intro conn head owner id sent hs w' hrender hstep
    exact openReq_owned hrender hstep

/-- A request without a body whose response is complete with its head. -/
theorem exchanges_settle_empty :
    ∃ w : Core Unit, Run Core.step Fresh ⟨∅, []⟩
      [.openReq 1 ⟨ascii "GET", ⟨ascii "https", ascii "a.b", ascii "/"⟩, [], none, none, none, none, [], .empty⟩ ()
          (some 7) true,
        .readHead 7 [(ascii ":status", ascii "200")] (.ok true), .readBody 7 (.error .blocked)] w ∧
      w.table.lookup 7 = none ∧ Orderly (marks 7 w.log) := by
  refine Run.exists_and (.cons rfl rfl (.cons trivial rfl (.cons trivial rfl (.nil _)))) fun hrun => ?_
  exact ⟨rfl, (exchanges_settle hrun).1 7⟩

/-- An upload that breaks: the request is reset, and its exchange leaves the table later, in a
step that resets nothing, without having been closed or completed. -/
theorem left_after_reset :
    ∃ (w w' : Core Unit) (x : Exch Unit),
      Run Core.step Fresh ⟨∅, []⟩
        [.openReq 1 ⟨ascii "PUT", ⟨ascii "https", ascii "a.b", ascii "/"⟩, [], none, none, none, none, [], .known 5⟩ ()
            (some 7) true,
          .sendBody 7 [0x61] false (.ok ()) (.error .reset)] w ∧
      w.step (.reset 7) = some w' ∧ w.table.lookup 7 = some x ∧ w'.table.lookup 7 = none ∧
      (w.table.step (.reset 7)).2 = [] ∧ .closed ∉ marks 7 w'.log ∧ ¬Completes x (.reset 7) := by
  refine ⟨_, _, _, .cons rfl rfl (.cons trivial rfl (.nil _)), rfl, rfl, rfl, rfl, by decide, id⟩

end MqProxy.Client
