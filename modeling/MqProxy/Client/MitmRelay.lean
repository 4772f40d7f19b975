import MqProxy.Client.MitmStream
import MqProxy.Library.History

/-!
# What a MITM stream relays

Runs of one stream: its steps with any answers of h2 and of the transport, the readiness that
it is told, and everything that others do to the exchanges in between. `Rules` says when each
event of the log may happen, given the events before it; **`stream_relays`** is that the log
keeps to the rules, with what follows from them for the whole log.

Of h2 it is assumed that nothing follows the end of a body, and that it fails a body that does
not match its content-length (`H2`). Of the transport: it takes no more than it is given, and
writes no more than a buffer holds.
-/

namespace MqProxy.Client

open MqProxy.Http MqProxy.Library
open MqProxy.Runtime (StreamError)
open MqProxy.Server (HttpCrate)
open MqProxy.Ingress.HttpConnect (ascii)

variable {O : Type}

/-! ### Reading the log -/

/-- The DATA in an event. -/
@[simp] def MEvent.dataBytes : MEvent → List UInt8
  | .data bs => bs
  | _ => []

/-- The accepted bytes in an event. -/
@[simp] def MEvent.acceptedBytes : MEvent → List UInt8
  | .accepted bs => bs
  | _ => []

/-- The bytes of the response in an event. -/
@[simp] def MEvent.bodyBytes : MEvent → List UInt8
  | .body bs _ => bs
  | _ => []

/-- The DATA for the browser in an event. -/
@[simp] def MEvent.sentBytes : MEvent → List UInt8
  | .sent bs _ => bs
  | _ => []

/-- The credit in an event. -/
@[simp] def MEvent.credit : MEvent → ℕ
  | .released n => n
  | _ => 0

/-- The dropped bytes in an event. -/
@[simp] def MEvent.dropped : MEvent → ℕ
  | .discarded n => n
  | _ => 0

/-- The browser's DATA. -/
def dataOf (log : List MEvent) : List UInt8 := log.flatMap MEvent.dataBytes

/-- What the exchange accepted. -/
def acceptedOf (log : List MEvent) : List UInt8 := log.flatMap MEvent.acceptedBytes

/-- The response body. -/
def bodyOf (log : List MEvent) : List UInt8 := log.flatMap MEvent.bodyBytes

/-- The DATA that went to the browser. -/
def sentOf (log : List MEvent) : List UInt8 := log.flatMap MEvent.sentBytes

/-- The credit that was returned. -/
def releasedOf (log : List MEvent) : ℕ := (log.map MEvent.credit).sum

/-- The bytes that were dropped. -/
def discardedOf (log : List MEvent) : ℕ := (log.map MEvent.dropped).sum

section Snoc

variable (log : List MEvent) (e : MEvent)

@[simp] theorem dataOf_snoc : dataOf (log ++ [e]) = dataOf log ++ e.dataBytes := by simp [dataOf]

@[simp] theorem acceptedOf_snoc : acceptedOf (log ++ [e]) = acceptedOf log ++ e.acceptedBytes := by simp [acceptedOf]

@[simp] theorem bodyOf_snoc : bodyOf (log ++ [e]) = bodyOf log ++ e.bodyBytes := by simp [bodyOf]

@[simp] theorem sentOf_snoc : sentOf (log ++ [e]) = sentOf log ++ e.sentBytes := by simp [sentOf]

@[simp] theorem releasedOf_snoc : releasedOf (log ++ [e]) = releasedOf log + e.credit := by simp [releasedOf]

@[simp] theorem discardedOf_snoc : discardedOf (log ++ [e]) = discardedOf log + e.dropped := by simp [discardedOf]

end Snoc

/-- A FIN was passed. -/
def Finned (log : List MEvent) : Prop := MEvent.fin ∈ log ∨ MEvent.finTaken ∈ log

/-- **The rules of a relay**, for a request with method `m`: when an event may follow `past`. -/
def Rules (m : Method) (past : List MEvent) : MEvent → Prop
  | .data bs => bs ≠ [] → ¬Finned past
  | .accepted bs => acceptedOf past ++ bs <+: dataOf past ∧ ∀ n, MEvent.discarded n ∉ past
  | .fin => acceptedOf past = dataOf past
  | .finTaken => acceptedOf past = dataOf past
  | .released n => releasedOf past + n ≤ (acceptedOf past).length + discardedOf past
  | .response endStream => ∃ h, past.getLast? = some (.head h) ∧
      endStream = Relay.bodiless (decide (m = ascii "HEAD")) h.status
  | .reject _ => ∀ endStream, MEvent.response endStream ∉ past
  | .body bs true => ∃ h, MEvent.head h ∈ past ∧
      (bodyCheckApplies m h.status = true → ∀ c, h.cl = some c → c ≤ (bodyOf past ++ bs).length)
  | .sent bs endStream =>
      sentOf past ++ bs <+: bodyOf past ∧ (endStream = true → past.getLast? = some (.body bs true))
  | _ => True

/-- **What h2 gives**: nothing after the end, and as much as the content-length says. -/
def H2 (b : BodyLen) (past : List MEvent) : MEvent → Prop
  | .data bs => MEvent.eof ∉ past ∧ ∀ n, b = .known n → (dataOf past).length + bs.length ≤ n
  | .eof => ∀ n, b = .known n → (dataOf past).length = n
  | _ => True

section Lawful

variable {m : Method} {log : List MEvent}

/-- **The accepted bytes are the first of the DATA.** -/
theorem accepted_of_lawful (h : Lawful (Rules m) log) : acceptedOf log <+: dataOf log := by
  induction log using List.reverseRecOn with
  | nil => simp [acceptedOf]
  | append_singleton log e ih =>
    obtain ⟨hlog, he⟩ := lawful_snoc.mp h
    rw [acceptedOf_snoc, dataOf_snoc]
    cases e with
    | accepted bs => simpa using he.1
    | data bs => simpa using (ih hlog).trans (List.prefix_append _ bs)
    | _ => simpa using ih hlog

/-- **The browser's DATA are the first bytes of the response.** -/
theorem sent_of_lawful (h : Lawful (Rules m) log) : sentOf log <+: bodyOf log := by
  induction log using List.reverseRecOn with
  | nil => simp [sentOf]
  | append_singleton log e ih =>
    obtain ⟨hlog, he⟩ := lawful_snoc.mp h
    rw [sentOf_snoc, bodyOf_snoc]
    cases e with
    | sent bs endStream => simpa using he.1
    | body bs last => simpa using (ih hlog).trans (List.prefix_append _ bs)
    | _ => simpa using ih hlog

/-- The credit is covered. -/
theorem released_of_lawful (h : Lawful (Rules m) log) : releasedOf log ≤ (acceptedOf log).length + discardedOf log := by
  induction log using List.reverseRecOn with
  | nil => simp [releasedOf]
  | append_singleton log e ih =>
    obtain ⟨hlog, he⟩ := lawful_snoc.mp h
    have ih := ih hlog
    rw [releasedOf_snoc, acceptedOf_snoc, discardedOf_snoc, List.length_append]
    cases e with
    | released n => exact he
    | _ =>
      simp only [MEvent.credit]
      omega

/-- All the DATA there is comes before a FIN. -/
theorem fin_of_lawful (h : Lawful (Rules m) log) {past future : List MEvent} {e : MEvent}
    (hlog : log = past ++ e :: future) (he : e = .fin ∨ e = .finTaken) : acceptedOf past = dataOf log := by
  have hfin : acceptedOf past = dataOf past := by
    have := h past e future hlog
    rcases he with rfl | rfl <;> exact this
  have hnone : ∀ x ∈ future, x.dataBytes = [] := by
    intro x hx
    obtain ⟨past', hmem, hx⟩ := (hlog ▸ h).later hx
    cases x with
    | data bs =>
      by_contra hbs
      rcases he with rfl | rfl
      · exact hx hbs (Or.inl hmem)
      · exact hx hbs (Or.inr hmem)
    | _ => rfl
  rw [hfin, hlog, dataOf, dataOf, List.flatMap_append, List.flatMap_cons, List.flatMap_eq_nil_iff.mpr hnone]
  rcases he with rfl | rfl <;> simp

theorem length_of_h2 {b : BodyLen} {n : ℕ} (h : Lawful (H2 b) log) (hb : b = .known n) : (dataOf log).length ≤ n := by
  induction log using List.reverseRecOn with
  | nil => simp [dataOf]
  | append_singleton log e ih =>
    obtain ⟨hlog, he⟩ := lawful_snoc.mp h
    rw [dataOf_snoc, List.length_append]
    cases e with
    | data bs => exact he.2 n hb
    | _ => simpa using ih hlog

end Lawful

/-- An event that moves no bytes. -/
def MEvent.quiet : MEvent → Bool
  | .data _ | .accepted _ | .body _ _ | .sent _ _ => false
  | _ => true

theorem quiet_bytes {e : MEvent} (h : e.quiet = true) :
    e.dataBytes = [] ∧ e.acceptedBytes = [] ∧ e.bodyBytes = [] ∧ e.sentBytes = [] := by
  cases e <;> first | exact ⟨rfl, rfl, rfl, rfl⟩ | cases h

theorem finned_snoc {log : List MEvent} {e : MEvent} : Finned (log ++ [e]) ↔ Finned log ∨ e = .fin ∨ e = .finTaken := by
  simp only [Finned, List.mem_append, List.mem_singleton, eq_comm]
  tauto

@[simp] theorem Relay.log_note (w : Relay O) (es : List MEvent) : (w.note es).log = w.log ++ es := rfl

@[simp] theorem Relay.log_setUp (w : Relay O) (up : MUp) : (w.setUp up).log = w.log := rfl

/-! ### The invariant -/

/-- The browser sends no more. -/
def Over (b : BodyLen) (log : List MEvent) : Prop :=
  MEvent.eof ∈ log ∨ ∃ n, b = .known n ∧ (dataOf log).length = n

/-- What the exchange still expects, after `k` accepted bytes. -/
def Left (b : BodyLen) (k : ℕ) : Up → Prop
  | .known remaining => ∃ n, b = .known n ∧ k + remaining.toNat = n
  | .streaming => ∀ n, b ≠ .known n
  | .done => True

/-- The exchange of the stream. -/
structure Serves (b : BodyLen) (m : Method) (log : List MEvent) (x : Exch O) : Prop where
  method : x.method = m
  left : Left b (acceptedOf log).length x.up
  body : ∀ status cl delivered fin, x.down = .body status cl delivered fin →
    (∃ h, MEvent.head h ∈ log ∧ h.status = status ∧ h.cl = cl) ∧ delivered.toNat ≤ (bodyOf log).length

/-- **The invariant** of a stream whose exchange is `id`. -/
structure Kept (id : ℕ) (b : BodyLen) (m : Method) (w : Relay O) : Prop where
  lawful : Lawful (Rules m) w.log
  head : w.stream.methodIsHead = decide (m = ascii "HEAD")
  ex : ∀ i, w.stream.ex = some i → i = id
  gone : w.stream.ex = none → w.table.lookup id = none
  carry : ∀ c blocked, w.stream.up = .recv c blocked →
    dataOf w.log = acceptedOf w.log ++ c ∧ ∀ n, MEvent.discarded n ∉ w.log
  finned : Finned w.log → acceptedOf w.log = dataOf w.log ∧ Over b w.log
  serves : ∀ x, w.table.lookup id = some x → Serves b m w.log x
  await : w.stream.down = .awaitHead → bodyOf w.log = [] ∧ ∀ endStream, MEvent.response endStream ∉ w.log
  body : w.stream.down = .body → sentOf w.log = bodyOf w.log

/-- An event that accepts no bytes. -/
theorem Serves.snoc {b : BodyLen} {m : Method} {log : List MEvent} {x : Exch O} {e : MEvent} (h : Serves b m log x)
    (he : e.acceptedBytes = []) : Serves b m (log ++ [e]) x := by
  refine ⟨h.method, by rw [acceptedOf_snoc, he, List.append_nil]; exact h.left, fun status cl delivered fin hx => ?_⟩
  obtain ⟨⟨hd, hmem, hstatus⟩, hle⟩ := h.body status cl delivered fin hx
  refine ⟨⟨hd, List.mem_append_left _ hmem, hstatus⟩, ?_⟩
  rw [bodyOf_snoc, List.length_append]
  exact Nat.le_add_right_of_le hle

/-- What a part of a step does: the log grows, and the invariant is kept if h2 keeps to its side. -/
def Goes (id : ℕ) (b : BodyLen) (m : Method) (w w' : Relay O) : Prop :=
  w.log <+: w'.log ∧ (Lawful (H2 b) w'.log → Kept id b m w → Kept id b m w')

section Kept

variable {id : ℕ} {b : BodyLen} {m : Method} {w w' w'' : Relay O}

theorem Goes.refl (w : Relay O) : Goes id b m w w := ⟨List.prefix_refl _, fun _ h => h⟩

theorem Goes.trans (h : Goes id b m w w') (h' : Goes id b m w' w'') : Goes id b m w w'' := by
  refine ⟨h.1.trans h'.1, fun hh2 hkept => h'.2 hh2 (h.2 ?_ hkept)⟩
  obtain ⟨more, hmore⟩ := h'.1
  rw [← hmore] at hh2
  exact hh2.of_append

namespace Kept

variable (h : Kept id b m w)
include h

/-- The upload side moves on. -/
theorem setUp {up : MUp}
    (hup : ∀ c blocked, up = .recv c blocked → dataOf w.log = acceptedOf w.log ++ c ∧ ∀ n, MEvent.discarded n ∉ w.log) :
    Kept id b m (w.setUp up) :=
  { h with carry := hup }

theorem stop : Kept id b m (w.setUp .done) := h.setUp fun _ _ hup => nomatch hup

/-- The download side moves on. -/
theorem setDown {down : MDown}
    (hawait : down = .awaitHead → bodyOf w.log = [] ∧ ∀ endStream, MEvent.response endStream ∉ w.log)
    (hbody : down = .body → sentOf w.log = bodyOf w.log) : Kept id b m (w.setDown down) :=
  { h with await := hawait, body := hbody }

theorem close : Kept id b m (w.setDown .done) := h.setDown (nomatch ·) (nomatch ·)

theorem readiness (ready : Bool) :
    Kept id b m { w with stream := { w.stream with h3Ready := ready } } := { h with }

/-- The exchange is as before, its upload is over, or it is gone. -/
theorem wane {t : Exchanges O}
    (ht : ∀ y, t.lookup id = some y → ∃ x, w.table.lookup id = some x ∧ Upload.Wanes x y) :
    Kept id b m { w with table := t } := by
  refine { h with gone := fun hex => ?_, serves := fun y hy => ?_ }
  · cases hy : t.lookup id with
    | none => rfl
    | some y =>
      obtain ⟨x, hx, -⟩ := ht y hy
      rw [h.gone hex] at hx
      cases hx
  · obtain ⟨x, hx, hmethod, hup, hdown⟩ := ht y hy
    have hserves := h.serves x hx
    refine ⟨hmethod.trans hserves.method, ?_, fun status cl delivered fin hy => ?_⟩
    · rcases hup with ⟨hup, -⟩ | hdone
      · rw [hup]
        exact hserves.left
      · rw [hdone]
        trivial
    · exact hserves.body status cl delivered fin (hdown status cl delivered fin hy)

/-- `ended`, of an exchange that is gone. -/
theorem ended (hgone : w.table.lookup id = none) : Kept id b m w.ended :=
  { h with ex := nofun, gone := fun _ => hgone, carry := nofun }

theorem cancel : Kept id b m w.cancel := by
  have hgone : w.cancel.table.lookup id = none := by
    show (w.stream.ex.elim w.table fun i => (w.table.fail i).1).lookup id = none
    cases hex : w.stream.ex with
    | none => exact h.gone hex
    | some i =>
      rw [h.ex i hex, Option.elim_some, Exchanges.lookup_fail_self]
  have hkept : Kept id b m { w with table := w.cancel.table } := h.wane fun y hy => by
    rw [hgone] at hy
    cases hy
  exact (hkept.ended hgone).close

/-! ### One event more -/

/-- A FIN behind an event that moves no bytes of the request. -/
theorem finned_snoc {e : MEvent} (hdata : e.dataBytes = []) (haccepted : e.acceptedBytes = [])
    (he : e = .fin ∨ e = .finTaken → acceptedOf w.log = dataOf w.log ∧ Over b w.log) (hf : Finned (w.log ++ [e])) :
    acceptedOf (w.log ++ [e]) = dataOf (w.log ++ [e]) ∧ Over b (w.log ++ [e]) := by
  have hold : acceptedOf w.log = dataOf w.log ∧ Over b w.log := (Client.finned_snoc.mp hf).elim h.finned he
  rw [Over, acceptedOf_snoc, dataOf_snoc, hdata, haccepted, List.append_nil, List.append_nil]
  exact ⟨hold.1, hold.2.imp_left (List.mem_append_left _)⟩

/-- **One event more**, after which the table is `t`. -/
theorem snoc {e : MEvent} {t : Exchanges O} (hrule : Rules m w.log e)
    (hup : ∀ c blocked, w.stream.up = .recv c blocked → e.dataBytes = [] ∧ e.acceptedBytes = [] ∧ ∀ n, e ≠ .discarded n)
    (hawait : w.stream.down = .awaitHead → e.bodyBytes = [] ∧ ∀ endStream, e ≠ .response endStream)
    (hbody : w.stream.down = .body → e.bodyBytes = [] ∧ e.sentBytes = [])
    (hfin : Finned (w.log ++ [e]) → acceptedOf (w.log ++ [e]) = dataOf (w.log ++ [e]) ∧ Over b (w.log ++ [e]))
    (ht : ∀ y, t.lookup id = some y → (w.table.lookup id).isSome ∧ Serves b m (w.log ++ [e]) y) :
    Kept id b m ({ w with table := t }.note [e]) := by
  refine { h with
    lawful := lawful_snoc.mpr ⟨h.lawful, hrule⟩
    gone := fun hex => ?_
    carry := fun c blocked hc => ?_
    finned := hfin
    serves := fun y hy => (ht y hy).2
    await := fun hd => ?_
    body := fun hd => ?_ }
  · cases hy : t.lookup id with
    | none => exact hy
    | some y => exact absurd (h.gone hex) (Option.isSome_iff_ne_none.mp (ht y hy).1)
  · obtain ⟨hdata, haccepted, hdiscarded⟩ := hup c blocked hc
    obtain ⟨hcarry, hnone⟩ := h.carry c blocked hc
    rw [Relay.log_note, dataOf_snoc, acceptedOf_snoc, hdata, haccepted, List.append_nil, List.append_nil]
    exact ⟨hcarry, fun n => by simpa [Ne.symm (hdiscarded n)] using hnone n⟩
  · obtain ⟨hbytes, hresponse⟩ := hawait hd
    obtain ⟨hnil, hnone⟩ := h.await hd
    rw [Relay.log_note, bodyOf_snoc, hbytes, List.append_nil]
    exact ⟨hnil, fun s => by simpa [Ne.symm (hresponse s)] using hnone s⟩
  · obtain ⟨hbytes, hsent⟩ := hbody hd
    rw [Relay.log_note, sentOf_snoc, bodyOf_snoc, hbytes, hsent, List.append_nil, List.append_nil]
    exact h.body hd

/-- **An event that moves no bytes.** -/
theorem note {e : MEvent} (hquiet : e.quiet = true) (hrule : Rules m w.log e)
    (hfin : e = .fin ∨ e = .finTaken → Over b w.log) (hup : ∀ n, e = .discarded n → w.stream.up = .done)
    (hdown : ∀ endStream, e = .response endStream → w.stream.down ≠ .awaitHead) : Kept id b m (w.note [e]) := by
  obtain ⟨hdata, haccepted, hbody, hsent⟩ := quiet_bytes hquiet
  refine h.snoc hrule (fun c blocked hc => ⟨hdata, haccepted, fun n hn => ?_⟩)
    (fun hd => ⟨hbody, fun s hs => hdown s hs hd⟩) (fun _ => ⟨hbody, hsent⟩)
    (h.finned_snoc hdata haccepted fun he => ⟨?_, hfin he⟩)
    fun x hx => ⟨Option.isSome_of_eq_some hx, (h.serves x hx).snoc haccepted⟩
  · cases (hup n hn).symm.trans hc
  · rcases he with rfl | rfl <;> exact hrule

variable {bs : List UInt8}

/-- DATA, when the bytes before are all accepted. -/
theorem data (hup : w.stream.up = .recv [] false)
    (hh2 : Lawful (H2 b) (w.note [.data bs]).log) : Kept id b m ((w.note [.data bs]).setUp (.recv bs false)) := by
  obtain ⟨hcarry, hnone⟩ := h.carry [] false hup
  rw [List.append_nil] at hcarry
  obtain ⟨-, hopen, hlen⟩ := lawful_snoc.mp hh2
  -- after a FIN there are no more bytes
  have hempty (hf : Finned w.log) : bs = [] := by
    rcases (h.finned hf).2 with heof | ⟨n, hb, hn⟩
    · exact absurd heof hopen
    · have := hlen n hb
      exact List.length_eq_zero_iff.mp (by omega)
  have hdata : Kept id b m ((w.setUp .done).note [.data bs]) := by
    refine h.stop.snoc (fun hbs hf => hbs (hempty hf)) nofun (fun _ => ⟨rfl, nofun⟩) (fun _ => ⟨rfl, rfl⟩)
      (fun hf => ?_) fun x hx => ⟨Option.isSome_of_eq_some hx, (h.serves x hx).snoc rfl⟩
    have hf : Finned w.log := (Client.finned_snoc.mp hf).resolve_right (by simp)
    rw [hempty hf]
    exact ⟨by simpa using (h.finned hf).1, by simpa [Over] using (h.finned hf).2⟩
  refine hdata.setUp fun c blocked hc => ?_
  cases hc
  exact ⟨by simp [hcarry], fun n hn => hnone n (by simpa using hn)⟩

/-- The exchange accepts bytes. -/
theorem accept (hup : w.stream.up = .done) {t : Exchanges O}
    (hdata : acceptedOf w.log ++ bs <+: dataOf w.log) (hnone : ∀ n, MEvent.discarded n ∉ w.log)
    (ht : ∀ y, t.lookup id = some y → ∃ x, w.table.lookup id = some x ∧ y.method = x.method ∧ y.down = x.down ∧
      Left b ((acceptedOf w.log).length + bs.length) y.up) :
    Kept id b m ({ w with table := t }.note [.accepted bs]) := by
  refine h.snoc ⟨hdata, hnone⟩ (fun c blocked hc => nomatch hup.symm.trans hc) (fun _ => ⟨rfl, nofun⟩)
    (fun _ => ⟨rfl, rfl⟩) (fun hf => ?_) fun y hy => ?_
  · have hf : Finned w.log := (Client.finned_snoc.mp hf).resolve_right (by simp)
    obtain ⟨hall, hover⟩ := h.finned hf
    have hbs : bs = [] := by
      have := hdata.length_le
      rw [List.length_append, hall] at this
      exact List.length_eq_zero_iff.mp (by omega)
    exact ⟨by simpa [hbs] using hall, by simpa [Over] using hover⟩
  · obtain ⟨x, hx, hmethod, hdown, hleft⟩ := ht y hy
    have hserves := h.serves x hx
    refine ⟨Option.isSome_of_eq_some hx, hmethod.trans hserves.method, by simpa using hleft, ?_⟩
    intro status cl delivered fin hy
    simpa using hserves.body status cl delivered fin (hdown ▸ hy)

/-- DATA goes to the browser. -/
theorem sent (hdown : w.stream.down = .done) {endStream : Bool}
    (hrule : Rules m w.log (.sent bs endStream)) : Kept id b m (w.note [.sent bs endStream]) :=
  h.snoc hrule (fun _ _ _ => ⟨rfl, rfl, nofun⟩) (fun hd => nomatch hdown.symm.trans hd)
    (fun hd => nomatch hdown.symm.trans hd) (h.finned_snoc rfl rfl nofun)
    fun x hx => ⟨Option.isSome_of_eq_some hx, (h.serves x hx).snoc rfl⟩

/-- Bytes of the response. -/
theorem received (hdown : w.stream.down = .done) {bs : List UInt8}
    {last : Bool} {t : Exchanges O} (hrule : Rules m w.log (.body bs last))
    (ht : ∀ y, t.lookup id = some y → ∃ x status cl delivered, w.table.lookup id = some x ∧
      x.down = .body status cl delivered false ∧
      y = { x with down := .body status cl (delivered + UInt64.ofNat bs.length) false }) :
    Kept id b m ({ w with table := t }.note [.body bs last]) := by
  refine h.snoc hrule (fun _ _ _ => ⟨rfl, rfl, nofun⟩) (fun hd => nomatch hdown.symm.trans hd)
    (fun hd => nomatch hdown.symm.trans hd) (h.finned_snoc rfl rfl nofun) fun y hy => ?_
  obtain ⟨x, status, cl, delivered, hx, hxdown, rfl⟩ := ht y hy
  have hserves := h.serves x hx
  obtain ⟨hhead, hle⟩ := hserves.body status cl delivered false hxdown
  refine ⟨Option.isSome_of_eq_some hx, hserves.method, by simpa using hserves.left, ?_⟩
  intro status' cl' delivered' fin' hy
  cases hy
  refine ⟨by simpa using hhead, ?_⟩
  rw [bodyOf_snoc, List.length_append]
  exact (Upload.toNat_add_le delivered bs.length).trans (Nat.add_le_add_right hle _)

end Kept

/-! ### Reading the response -/

variable {fin : Bool}

/-- The buffer after a read holds what was read. -/
theorem take_payload {recv : Except StreamError (List UInt8 × Bool)} {k : ℕ}
    (h : (recv.map fun p => (p.1.length, p.2)) = .ok (k, fin)) :
    ∃ bs, recv = .ok (bs, fin) ∧ bs.length = k ∧ (recvBytes recv).take k = bs := by
  cases recv with
  | error e => cases h
  | ok p =>
    obtain ⟨bs, f⟩ := p
    cases h
    exact ⟨bs, rfl, rfl, List.take_length⟩

/-- **What a read of the stream comes to.** Where there are bytes, the download side is left to
the caller. -/
inductive Reads (id : ℕ) (b : BodyLen) (m : Method) (w : Relay O) (buffer : Except StreamError (List UInt8 × Bool)) :
    Relay O × BodyOut → Prop
  | waits {t : Exchanges O} (hkept : Kept id b m { w with table := t }) :
      Reads id b m w buffer ({ w with table := t }, .wait)
  | fails {t : Exchanges O} (hkept : Kept id b m { w with table := t }) (hgone : t.lookup id = none) :
      Reads id b m w buffer ({ w with table := t }, .fail)
  | data {t : Exchanges O} (bs : List UInt8) (hbytes : (recvBytes buffer).take bs.length = bs) (hpos : bs ≠ [])
      (hfin : buffer = .ok (bs, false))
      (hkept : Kept id b m ({ w.setDown .done with table := t }.note [.body bs false])) :
      Reads id b m w buffer ({ w with table := t }.note [.body bs false], .data bs.length)
  | last {t : Exchanges O} (bs : List UInt8) (hbytes : (recvBytes buffer).take bs.length = bs)
      (hlen : bs = [] ∨ buffer = .ok (bs, true))
      (hkept : Kept id b m ({ w.setDown .done with table := t }.note [.body bs true])) (hgone : t.lookup id = none) :
      Reads id b m w buffer ({ w with table := t }.note [.body bs true], .last bs.length)

variable {x : Exch O}

/-- The end of a response that is not short. -/
theorem Kept.whole {status : ℕ} {cl : Option ℕ} {delivered delivered' : UInt64}
    (h : Kept id b m w) (bs : List UInt8) (hx : w.table.lookup id = some x)
    (hdown : x.down = .body status cl delivered fin)
    (hlong : Exchanges.isShort x.method status cl delivered' = false)
    (hle : delivered'.toNat ≤ delivered.toNat + bs.length) : Rules m w.log (.body bs true) := by
  have hserves := h.serves x hx
  obtain ⟨⟨hh, hmem, rfl, rfl⟩, hbody⟩ := hserves.body status cl delivered fin hdown
  refine ⟨hh, hmem, fun happlies c hc => ?_⟩
  simp only [Exchanges.isShort, hserves.method, happlies, Bool.true_and, hc, Option.any_some, decide_eq_false_iff_not,
    Nat.not_lt] at hlong
  rw [List.length_append]
  omega

theorem reads_readBody (h : Kept id b m w) (n : ℕ) (recv : Recv) : Reads id b m w (recv n) (w.readBody id n recv) := by
  have hreads := Exchanges.readBody_spec w.table id ((recv n).map fun p => (p.1.length, p.2))
  have hdone : Kept id b m (w.setDown .done) := h.close
  have hgone : (w.table.erase id).lookup id = none := AList.lookup_erase _ _
  unfold Relay.readBody
  dsimp only
  generalize w.table.readBody id ((recv n).map fun p => (p.1.length, p.2)) = r at hreads ⊢
  cases hreads with
  | waits => exact .waits h
  | fails =>
    have hgone := w.table.lookup_fail_self id
    exact .fails (h.wane fun y hy => nomatch hgone.symm.trans hy) hgone
  | @data x status cl delivered k hx hdown hrecv hpos =>
    obtain ⟨bs, hbuffer, rfl, htake⟩ := take_payload hrecv
    dsimp only
    rw [htake]
    have hsome : bs ≠ [] := fun hbs => hpos (by rw [hbs]; rfl)
    refine .data bs htake hsome hbuffer (hdone.received rfl trivial fun y hy => ?_)
    cases (AList.lookup_insert _).symm.trans hy
    exact ⟨x, status, cl, delivered, hx, hdown, rfl⟩
  | ended hx hdown hlong =>
    have hrule := hdone.whole [] hx hdown hlong le_rfl
    exact .last [] rfl (Or.inl rfl) (hdone.received rfl hrule fun y hy => nomatch hgone.symm.trans hy) hgone
  | @last x status cl delivered k hx hdown hrecv hlong =>
    obtain ⟨bs, hbuffer, rfl, htake⟩ := take_payload hrecv
    have hrule := hdone.whole bs hx hdown hlong (Upload.toNat_add_le delivered bs.length)
    dsimp only
    rw [htake]
    exact .last bs htake (Or.inr hbuffer) (hdone.received rfl hrule fun y hy => nomatch hgone.symm.trans hy) hgone

variable {t : Exchanges O}

/-- `finish`, with the bytes of the read. -/
theorem Kept.finish {bs : List UInt8} {sent : Bool} (hdown : w.stream.down = .body)
    (hsent : sentOf w.log = bodyOf w.log) (hgone : t.lookup id = none)
    (h : Kept id b m ({ w.setDown .done with table := t }.note [.body bs true])) :
    Kept id b m (({ w with table := t }.note [.body bs true]).finish bs sent) := by
  have hended := h.ended hgone
  have hrule : Rules m (w.log ++ [.body bs true]) (.sent bs true) := by
    refine ⟨?_, fun _ => List.getLast?_concat⟩
    rw [sentOf_snoc, bodyOf_snoc, hsent]
    simp
  unfold Relay.finish
  dsimp only
  split
  · cases sent with
    | true => exact hended.sent rfl hrule
    | false => exact hended.cancel
  · next hne => exact absurd hdown hne

variable (h : Kept id b m w)
include h

/-- `fail`. -/
theorem Kept.fail (hgone : w.table.lookup id = none) : Kept id b m w.fail := by
  unfold Relay.fail
  dsimp only
  split
  · exact ((h.ended hgone).note (e := .reset) rfl trivial nofun nofun nofun).close
  · exact (h.ended hgone).close

theorem Kept.drain (a : DownTurn) : Kept id b m (w.drain id a).1 := by
  unfold Relay.drain
  split
  · exact h
  · next hdown =>
    have hdown : w.stream.down = .drain := not_not.mp hdown
    have hback : w = (w.setDown .done).setDown .drain := by
      simp only [Relay.setDown, ← hdown]
    split
    · exact h.cancel
    · have hreads := reads_readBody h DL_CHUNK a.recv
      generalize w.readBody id DL_CHUNK a.recv = r at hreads ⊢
      cases hreads with
      | waits hkept => exact hkept
      | fails hkept hgone => exact (hkept.ended hgone).close
      | data bs hbytes hpos hfin hkept =>
        rw [hback]
        exact hkept.setDown nofun nofun
      | last bs hbytes hlen hkept hgone => exact (hkept.ended hgone).close

theorem Kept.payloadTurn (hdown : w.stream.down = .body) (cap : ℕ) (a : DownTurn) :
    Kept id b m (w.payloadTurn id cap a).1 := by
  have hsent := h.body hdown
  have hback : w = (w.setDown .done).setDown .body := by
    simp only [Relay.setDown, ← hdown]
  unfold Relay.payloadTurn
  have hreads := reads_readBody h (min cap DL_CHUNK) a.recv
  dsimp only
  generalize w.readBody id (min cap DL_CHUNK) a.recv = r at hreads ⊢
  cases hreads with
  | waits hkept => exact hkept.readiness false
  | fails hkept hgone => exact hkept.fail hgone
  | data bs hbytes hpos hfin hkept =>
    dsimp only
    rw [hbytes]
    have hrule : Rules m (w.log ++ [.body bs false]) (.sent bs false) := by
      refine ⟨?_, nofun⟩
      rw [sentOf_snoc, bodyOf_snoc, hsent]
      simp
    have hall : sentOf (w.log ++ [.body bs false] ++ [.sent bs false]) =
        bodyOf (w.log ++ [.body bs false] ++ [.sent bs false]) := by
      simp only [sentOf_snoc, bodyOf_snoc, hsent, MEvent.sentBytes, MEvent.bodyBytes, List.append_nil]
    split
    · rw [hback]
      exact (hkept.sent rfl hrule).setDown nofun fun _ => hall
    · exact hkept.cancel
  | last bs hbytes hlen hkept hgone =>
    dsimp only
    rw [hbytes]
    exact Kept.finish hdown hsent hgone hkept

variable {room : Bool} {a : DownTurn} {r : Relay O × Bool}

theorem Kept.bodyTurn (hdown : w.stream.down = .body)
    (hturn : w.bodyTurn id room a = some r) : Kept id b m r.1 := by
  unfold Relay.bodyTurn at hturn
  split at hturn
  · cases hturn
    exact h
  split at hturn
  · cases hturn
  · cases hturn
    exact h
  · cases hturn
    exact h.cancel
  · cases hturn
    exact h.payloadTurn hdown _ a

theorem Kept.relayBody
    (hprobe : ∀ bs fin, a.probe 0 = .ok (bs, fin) → bs = []) (hbody : w.body id room a = some r) : Kept id b m r.1 := by
  unfold Relay.body at hbody
  split at hbody
  · cases hbody
    exact h
  next hdown =>
    have hdown : w.stream.down = .body := not_not.mp hdown
    split at hbody
    · cases hbody
      exact h.cancel
    have hreads := reads_readBody h 0 a.probe
    generalize w.readBody id 0 a.probe = p at hreads hbody
    cases hreads with
    | fails hkept hgone =>
      cases hbody
      exact hkept.fail hgone
    | last bs hbytes hlen hkept hgone =>
      cases hbody
      have hnil : bs = [] := hlen.elim (fun hnil => hnil) (hprobe bs true)
      subst hnil
      exact Kept.finish hdown (h.body hdown) hgone hkept
    | data bs hbytes hpos hfin hkept => exact absurd (hprobe bs false hfin) hpos
    | waits hkept => exact hkept.bodyTurn hdown hbody

/-- A reject response, when there was none before. -/
theorem Kept.rejected (hdown : w.stream.down = .awaitHead)
    (hgone : t.lookup id = none) (r : Reject) :
    Kept id b m ((({ w with table := t }.note [.reject r]).ended).setDown .done) := by
  have hkept : Kept id b m { w with table := t } := h.wane fun y hy => nomatch hgone.symm.trans hy
  exact ((hkept.note (e := .reject r) rfl (h.await hdown).2 nofun nofun nofun).ended hgone).close

/-- The head of the response, while it is awaited. -/
theorem Kept.headed {hd : RespHead} (hx : w.table.lookup id = some x)
    (ht : t.lookup id = some { x with down := .body hd.status hd.cl 0 fin }) :
    Kept id b m ({ w with table := t }.note [.head hd]) := by
  refine h.snoc trivial (fun _ _ _ => ⟨rfl, rfl, nofun⟩) (fun _ => ⟨rfl, nofun⟩) (fun _ => ⟨rfl, rfl⟩)
    (h.finned_snoc rfl rfl nofun) fun y hy => ⟨Option.isSome_of_eq_some hx, ?_⟩
  cases ht.symm.trans hy
  have hserves := h.serves x hx
  refine ⟨hserves.method, by simpa using hserves.left, fun status cl delivered fin hdown => ?_⟩
  cases hdown
  exact ⟨⟨hd, by simp, rfl, rfl⟩, Nat.zero_le _⟩

theorem Kept.awaitHead
    (hprobe : ∀ bs fin, a.probe 0 = .ok (bs, fin) → bs = []) (hawait : w.awaitHead id room a = some r) :
    Kept id b m r.1 := by
  unfold Relay.awaitHead at hawait
  split at hawait
  · cases hawait
    exact h
  next hdown =>
    have hdown : w.stream.down = .awaitHead := not_not.mp hdown
    split at hawait
    · cases hawait
      exact h.cancel
    have hreads := Exchanges.readHead_spec w.table id a.fields a.recvHead
    dsimp only at hawait
    generalize w.table.readHead id a.fields a.recvHead = p at hreads hawait
    cases hreads with
    | waits =>
      cases hawait
      exact h
    | fails =>
      cases hawait
      exact h.rejected hdown (w.table.lookup_fail_self id) _
    | @head x hd fin hx hxdown hcollect =>
      generalize ht : w.table.insert id _ = t at hawait
      have hkept : Kept id b m ({ w with table := t }.note [.head hd]) := h.headed hx (ht ▸ AList.lookup_insert _)
      dsimp only at hawait
      split at hawait
      · cases hawait
        exact (hkept.note (e := .reset) rfl trivial nofun nofun nofun).cancel
      · have hrule : Rules m (w.log ++ [.head hd]) (.response (Relay.bodiless w.stream.methodIsHead hd.status)) :=
          ⟨hd, List.getLast?_concat, by rw [h.head]⟩
        have hnil := (h.await hdown).1
        have hresponded (down : MDown) (hdown : down ≠ .awaitHead) :
            Kept id b m (((({ w with table := t }.note [.head hd]).setDown down).note
              [.response (Relay.bodiless w.stream.methodIsHead hd.status)])) := by
          refine (hkept.setDown (fun hd => absurd hd hdown) fun _ => ?_).note rfl hrule nofun nofun fun _ _ => hdown
          have hsent := sent_of_lawful h.lawful
          rw [hnil, List.prefix_nil] at hsent
          simp [hsent, hnil]
        split at hawait
        · cases hawait
          exact ((hresponded .drain nofun).readiness true).drain a
        · obtain ⟨r', hbody, rfl⟩ := Option.map_eq_some_iff.mp hawait
          have hrelayed : Kept id b m r'.1 := ((hresponded .body nofun).readiness true).relayBody hprobe hbody
          exact hrelayed

theorem Kept.download
    (hprobe : ∀ bs fin, a.probe 0 = .ok (bs, fin) → bs = []) (hdownload : w.download room a = some r) :
    Kept id b m r.1 := by
  unfold Relay.download at hdownload
  split at hdownload
  · cases hdownload
    exact h
  next i hex =>
    cases h.ex i hex
    split at hdownload
    · exact h.awaitHead hprobe hdownload
    · exact h.relayBody hprobe hdownload
    · cases hdownload
      exact h.drain a
    · cases hdownload
      exact h

omit h

/-! ### Sending the request body -/

theorem Relay.note_cons (w : Relay O) (e : MEvent) (es : List MEvent) : w.note (e :: es) = (w.note [e]).note es := by
  simp [Relay.note]

variable {carry : List UInt8}

/-- What is accepted. -/
theorem Sends.accepted {y : Exch O} {took : List UInt8 × Bool} {n k : ℕ}
    (h : Sends x carry fin y took (.accepted n)) (hleft : Left b k x.up) :
    n ≤ carry.length ∧ y.method = x.method ∧ y.down = x.down ∧ Left b (k + n) y.up ∧
      (took.2 = true → n = carry.length ∧ (fin = true ∨ ∃ r, x.up = .known r ∧ r.toNat ≤ carry.length)) := by
  cases h with
  | nothing hsend => exact ⟨Nat.zero_le _, rfl, rfl, hleft, nofun⟩
  | @part d f e _ hsend hpos hle hmore =>
    have hlen := Exchanges.toSend_length hsend
    refine ⟨by omega, rfl, rfl, ?_, nofun⟩
    show Left b (k + n) (x.up.less n)
    cases hup : x.up with
    | done => trivial
    | streaming =>
      rw [hup] at hleft
      exact hleft
    | known r =>
      rw [hup] at hleft hsend
      obtain ⟨total, hb, htotal⟩ := hleft
      obtain ⟨-, hdlen, -, -⟩ := Upload.toSend_known hsend
      refine ⟨total, hb, ?_⟩
      rw [Upload.toNat_sub (by omega)]
      omega
  | @last d e hsend =>
    have hlen := Exchanges.toSend_length hsend
    refine ⟨by omega, rfl, rfl, trivial, fun _ => ⟨by omega, ?_⟩⟩
    cases hup : x.up with
    | done =>
      rw [hup] at hsend
      cases hsend
    | streaming =>
      rw [hup] at hsend
      cases hsend
      exact Or.inl rfl
    | known r =>
      rw [hup] at hsend
      obtain ⟨-, hdlen, hf, -⟩ := Upload.toSend_known hsend
      have := hf.mp rfl
      exact Or.inr ⟨r, rfl, by omega⟩

/-- What is not accepted. -/
theorem Sends.wanes {y : Exch O} {took : List UInt8 × Bool} {out : SendOut}
    (h : Sends x carry fin y took out) (hout : ∀ n, out ≠ .accepted n) : Upload.Wanes x y := by
  cases h with
  | ceased hup => exact Upload.wanes_refl x
  | held hup => exact Upload.wanes_refl x
  | broken hup => exact ⟨rfl, Or.inr rfl, fun _ _ _ _ hdown => nomatch hdown⟩
  | nothing hsend => exact absurd rfl (hout _)
  | part hsend hpos hle hmore => exact absurd rfl (hout _)
  | last hsend => exact absurd rfl (hout _)

namespace Kept

include h

/-- The credit for the bytes of the last events. -/
theorem release {k : ℕ}
    (hk : releasedOf w.log + k ≤ (acceptedOf w.log).length + discardedOf w.log) : Kept id b m (w.note [.released k]) :=
  h.note (e := .released k) rfl hk nofun nofun nofun

/-- The rest is dropped. -/
theorem discard (hup : w.stream.up = .done) (k : ℕ) :
    Kept id b m (w.note [.discarded k, .released k]) := by
  rw [Relay.note_cons]
  refine (h.note (e := .discarded k) rfl trivial nofun (fun _ _ => hup) nofun).release ?_
  have := released_of_lawful h.lawful
  simp only [Relay.log_note, releasedOf_snoc, acceptedOf_snoc, discardedOf_snoc, MEvent.credit, MEvent.dropped,
    MEvent.acceptedBytes, List.append_nil]
  omega

/-- Bytes are accepted, perhaps with the FIN. -/
theorem take {carry : List UInt8} {fin : Bool} {n : ℕ} {t : Exchanges O} (finTaken : Bool)
    (hup : w.stream.up = .done) (hh2 : Lawful (H2 b) w.log) (hcarry : dataOf w.log = acceptedOf w.log ++ carry)
    (hnone : ∀ n, MEvent.discarded n ∉ w.log) (hn : n ≤ carry.length) (hfin : fin = true → MEvent.eof ∈ w.log)
    (ht : ∀ y, t.lookup id = some y → ∃ x, w.table.lookup id = some x ∧ y.method = x.method ∧ y.down = x.down ∧
      Left b ((acceptedOf w.log).length + n) y.up)
    (htaken : finTaken = true → n = carry.length ∧
      (fin = true ∨ ∃ x r, w.table.lookup id = some x ∧ x.up = .known r ∧ r.toNat ≤ carry.length)) :
    Kept id b m ({ w with table := t }.note
      (.accepted (carry.take n) :: ((if finTaken then [MEvent.finTaken] else []) ++ [MEvent.released n]))) := by
  have hlen : (carry.take n).length = n := by
    rw [List.length_take]
    omega
  have hdata : acceptedOf w.log ++ carry.take n <+: dataOf w.log := by
    rw [hcarry]
    exact (List.prefix_append_right_inj _).mpr ( List.take_prefix n carry)
  have hkept := h.accept hup hdata hnone fun y hy => by
    rw [hlen]
    exact ht y hy
  have hreleased := released_of_lawful h.lawful
  rw [Relay.note_cons]
  cases finTaken with
  | false =>
    refine hkept.release ?_
    simp only [Relay.log_note, releasedOf_snoc, acceptedOf_snoc, discardedOf_snoc, MEvent.credit, MEvent.dropped,
      MEvent.acceptedBytes, List.length_append, hlen]
    omega
  | true =>
    obtain ⟨rfl, hwhy⟩ := htaken rfl
    rw [List.take_length]
    rw [List.take_length] at hkept
    have hover : Over b (w.log ++ [.accepted carry]) := by
      rcases hwhy with hfinal | ⟨x, r, hx, hr, hle⟩
      · exact Or.inl (List.mem_append_left _ (hfin hfinal))
      · have hleft := (h.serves x hx).left
        rw [hr] at hleft
        obtain ⟨total, hb, htotal⟩ := hleft
        have hmost := length_of_h2 hh2 hb
        refine Or.inr ⟨total, hb, ?_⟩
        rw [dataOf_snoc, hcarry, MEvent.dataBytes, List.append_nil, List.length_append]
        · rw [hcarry, List.length_append] at hmost
          omega
        · exact fun _ h => nomatch h
    have htook := hkept.note (e := .finTaken) rfl (show acceptedOf _ = dataOf _ by simp [hcarry]) (fun _ => hover)
      nofun nofun
    rw [if_pos rfl, List.singleton_append, Relay.note_cons]
    refine htook.release ?_
    simp only [Relay.log_note, releasedOf_snoc, acceptedOf_snoc, discardedOf_snoc, MEvent.credit, MEvent.dropped,
      MEvent.acceptedBytes, List.length_append, List.append_nil]
    omega

/-- The FIN is passed, after the last byte. -/
theorem passFin {fin : Bool}
    (hfin : fin = true → acceptedOf w.log = dataOf w.log ∧ MEvent.eof ∈ w.log) :
    Kept id b m (w.note (if fin then [.fin] else [])) := by
  cases fin with
  | false => simpa [Relay.note] using h
  | true => exact h.note (e := .fin) rfl (hfin rfl).1 (fun _ => Or.inl (hfin rfl).2) nofun nofun

end Kept

theorem Exchanges.honest_reply (t : Exchanges O) (id : ℕ) (data : List UInt8) (fin : Bool) {a : Turn} (ha : a.Honest) :
    t.Honest id data fin (t.reply id data fin a) := by
  intro x d f e k hx hsend hk
  simp only [reply, hx, Option.bind_some, hsend] at hk
  exact ha d f k hk

theorem log_send (w : Relay O) (i : ℕ) (carry : List UInt8) (fin moved : Bool) (a : Turn) :
    w.log <+: (w.send i carry fin moved a).1.log := by
  unfold Relay.send
  dsimp only
  split
  · split
    · exact (List.prefix_append _ _).trans (List.prefix_append _ _)
    · exact (List.prefix_append _ _).trans (List.prefix_append _ _)
  · exact List.prefix_append _ _
  · exact (List.prefix_append _ _).trans (List.prefix_append _ _)

/-- **What a round of the upload passes on** keeps the invariant. -/
theorem goes_send {a : Turn} (ha : a.Honest) (moved : Bool)
    (hup : w.stream.up = .recv carry false) (hfin : fin = true → carry = [] ∧ MEvent.eof ∈ w.log) :
    Goes id b m w (w.send id carry fin moved a).1 := by
  refine ⟨log_send w id carry fin moved a, ?_⟩
  have hcases := Exchanges.sendBody_cases a.finished (w.table.honest_reply id carry fin ha)
  unfold Relay.send
  dsimp only
  generalize w.table.sendBody id carry fin a.finished (w.table.reply id carry fin a) = r at hcases ⊢
  generalize w.table.took id carry fin a.finished (w.table.reply id carry fin a) = took at hcases ⊢
  obtain ⟨t, calls, out⟩ := r
  dsimp only at hcases ⊢
  intro hh2 h
  obtain ⟨hcarry, hnone⟩ := h.carry carry false hup
  have hempty (hf : fin = true) : acceptedOf w.log = dataOf w.log := by
    rw [hcarry, (hfin hf).1, List.append_nil]
  -- the state in which the answer is handled, with the upload side left open
  let v : Relay O := (w.setUp .done).note (if fin then [.fin] else [])
  have hv : Kept id b m v := h.stop.passFin fun hf => ⟨hempty hf, (hfin hf).2⟩
  have hd : dataOf v.log = acceptedOf v.log ++ carry := by
    cases fin <;> simp [v, hcarry]
  have hopen (n : ℕ) : MEvent.discarded n ∉ v.log := by
    have := hnone n
    cases fin <;> simpa [v] using this
  have heof (hf : fin = true) : MEvent.eof ∈ v.log := List.mem_append_left _ (hfin hf).2
  have hwane (hout : ∀ n, out ≠ .accepted n) : Kept id b m { v with table := t } := by
    refine hv.wane fun z hz => ?_
    rcases hcases with ⟨-, hgone, -⟩ | ⟨x, y, hx, hy, hsends⟩
    · exact nomatch hgone.symm.trans hz
    · cases hy.symm.trans hz
      exact ⟨x, hx, hsends.wanes hout⟩
  cases out with
  | blocked => exact (hwane nofun).setUp fun c blocked hc => by cases hc; exact ⟨hd, hopen⟩
  | done => exact ((hwane nofun).discard rfl carry.length).stop
  | accepted n =>
    obtain ⟨-, -, hout, -⟩ | ⟨x, y, hx, hy, hsends⟩ := hcases
    · cases hout
    obtain ⟨hn, hmethod, hdown, hleft, htaken⟩ := hsends.accepted (hv.serves x hx).left
    have hh2v : Lawful (H2 b) v.log := by
      cases fin <;> exact hh2.of_append
    have htook := hv.take (t := t) took.2 rfl hh2v hd hopen hn heof
      (fun z hz => ⟨x, hx, by cases hy.symm.trans hz; exact ⟨hmethod, hdown, hleft⟩⟩)
      fun hf => (htaken hf).imp_right (Or.imp_right fun ⟨r, hr⟩ => ⟨x, r, hx, hr⟩)
    cases fin with
    | true => exact htook.stop
    | false =>
      refine htook.setUp fun c blocked hc => ?_
      cases hc
      have hmore : dataOf (v.log ++ .accepted (carry.take n) ::
          ((if took.2 then [.finTaken] else []) ++ [.released n])) = dataOf v.log := by
        cases took.2 <;> simp [dataOf]
      have hall : acceptedOf (v.log ++ .accepted (carry.take n) ::
          ((if took.2 then [.finTaken] else []) ++ [.released n])) = acceptedOf v.log ++ carry.take n := by
        cases took.2 <;> simp [acceptedOf]
      refine ⟨?_, fun k hk => hopen k ?_⟩
      · show dataOf (v.log ++ _) = acceptedOf (v.log ++ _) ++ _
        rw [hmore, hall, hd, List.append_assoc, List.take_append_drop]
      · have hk : MEvent.discarded k ∈ v.log ++ _ := hk
        cases hf : took.2 <;> simpa [hf] using hk

/-- **One round of the upload.** -/
theorem goes_uploadTurn {a : UpTurn} (ha : a.toTurn.Honest) (moved : Bool) :
    Goes id b m w (w.uploadTurn moved a).1 := by
  unfold Relay.uploadTurn
  split
  · next i carry hex hup =>
    split
    · next hcarry =>
      subst hcarry
      split
      · exact .refl w
      · next bs hpoll => exact ⟨List.prefix_append _ _, fun hh2 h => h.data hup hh2⟩
      · exact ⟨List.prefix_refl _, fun _ h => h.cancel⟩
      · refine ⟨(List.prefix_append _ _).trans (log_send (w.note [.eof]) _ _ _ _ _), fun hh2 h => ?_⟩
        cases h.ex i hex
        have hgoes : Goes id b m (w.note [.eof]) ((w.note [.eof]).send id [] true moved a.toTurn).1 :=
          goes_send ha moved hup fun _ => ⟨rfl, List.mem_append_right _ List.mem_cons_self⟩
        exact hgoes.2 hh2 (h.note (e := .eof) rfl trivial nofun nofun nofun)
    · refine ⟨log_send w i carry false moved _, fun hh2 h => ?_⟩
      cases h.ex i hex
      have hgoes : Goes id b m w (w.send id carry false moved a.toTurn).1 := goes_send ha moved hup nofun
      exact hgoes.2 hh2 h
  · exact .refl w

theorem goes_upload {turns : List UpTurn} {moved : Bool}
    (hturns : ∀ a ∈ turns, a.toTurn.Honest) (hupload : w.upload moved turns = some r) : Goes id b m w r.1 := by
  induction turns generalizing w moved with
  | nil => cases hupload
  | cons a turns ih =>
    have hturn : Goes id b m w (w.uploadTurn moved a).1 := goes_uploadTurn (hturns a List.mem_cons_self) moved
    rw [Relay.upload] at hupload
    split at hupload
    · next w' moved' hgo =>
      rw [hgo] at hturn
      exact hturn.trans (ih (fun a' ha' => hturns a' (List.mem_cons_of_mem _ ha')) hupload)
    · next w' moved' hgo =>
      rw [hgo] at hturn
      cases hupload
      exact hturn

end Kept

/-! ### Runs -/

/-- What can happen to a stream and the exchanges. -/
inductive RelayStep (O : Type) where
  | step (room : Bool) (ups : List UpTurn) (a : DownTurn)
  | ready (r : Ready)
  /-- The exchanges, as others use them. -/
  | other (a : XStep O)

/-- One step. -/
def Relay.next (w : Relay O) : RelayStep O → Option (Relay O)
  | .step room ups a => (w.step room ups a).map Prod.fst
  | .ready r => some { w with stream := w.stream.onReady r }
  | .other a => some { w with table := (w.table.step a).1 }

/-- **The surroundings of a stream**: the transport takes no more than it is given and leaves an
empty buffer empty, h2 keeps to `H2`, and others leave the stream's exchange alone or end it. -/
def Relay.Allowed (id : ℕ) (b : BodyLen) (w : Relay O) : RelayStep O → Prop
  | .step _ ups a => (∀ u ∈ ups, u.toTurn.Honest) ∧ (∀ bs fin, a.probe 0 = .ok (bs, fin) → bs = []) ∧
      ∀ r, w.upload false ups = some r → Lawful (H2 b) r.1.log
  | .ready _ => True
  | .other a => Upload.Spares id a

section Runs

variable {id : ℕ} {b : BodyLen} {m : Method} {w w' : Relay O}

/-- **Each step keeps the invariant.** -/
theorem Kept.next {a : RelayStep O} (h : Kept id b m w) (hallowed : w.Allowed id b a) (hnext : w.next a = some w') :
    Kept id b m w' := by
  cases a with
  | step room ups a =>
    obtain ⟨hturns, hprobe, hh2⟩ := hallowed
    obtain ⟨r, hstep, rfl⟩ := Option.map_eq_some_iff.mp hnext
    obtain ⟨u, hupload, hstep⟩ := Option.bind_eq_some_iff.mp hstep
    obtain ⟨d, hdownload, rfl⟩ := Option.map_eq_some_iff.mp hstep
    have hkept := (goes_upload hturns hupload).2 (hh2 u hupload) h
    have hkept' : Kept id b m d.1 := hkept.download hprobe hdownload
    exact hkept'
  | ready r =>
    cases hnext
    cases r with
    | readable => exact h.readiness true
    | writable =>
      show Kept id b m { w with stream := w.stream.onReady .writable }
      unfold MStream.onReady
      dsimp only
      split
      · next carry blocked hup =>
        refine h.setUp fun c blocked' hc => ?_
        cases hc
        exact h.carry carry blocked hup
      · exact h
  | other a =>
    cases hnext
    exact h.wane fun y hy => Upload.wanes_step hallowed hy

/-- A stream that was just opened. -/
theorem kept_open {http : HttpCrate} {t₀ t : Exchanges O} {tunnel : Option ℕ} {stream : ℕ} {owner : O} {parts : Parts}
    {endStream sent : Bool} {sni auth : List UInt8} {opened : Option ℕ} {calls : List XCall} {s : MStream}
    {head : ReqHead} (hmap : mapRequest http parts endStream sni auth = .ok head)
    (hopen : MStream.openStream http t₀ tunnel stream owner parts endStream sni auth opened sent = (t, calls, .ok s)) :
    ∃ id, opened = some id ∧ Kept id head.body head.method ⟨s, t, []⟩ := by
  obtain ⟨-, -, -, -, -, hmethod, hbody, -⟩ := mapRequest_ok hmap
  unfold MStream.openStream at hopen
  rw [hmap] at hopen
  cases tunnel with
  | none => cases hopen
  | some conn =>
    dsimp only at hopen
    cases hout : (t₀.openReq conn head owner opened sent).2.2 with
    | error r =>
      rw [hout] at hopen
      cases hopen
    | ok id =>
      obtain ⟨hopened, htable⟩ := Exchanges.openReq_ok hout
      rw [hout] at hopen
      cases hopen
      refine ⟨id, hopened, ⟨lawful_nil, by rw [hmethod], fun i hi => (Option.some.inj hi).symm, nofun, ?_,
        fun hf => ?_, fun x hx => ?_, fun _ => ⟨rfl, nofun⟩, nofun⟩⟩
      · intro c blocked hc
        dsimp only at hc
        split at hc
        · cases hc
        · cases hc
          exact ⟨rfl, nofun⟩
      · rcases hf with hf | hf <;> cases hf
      · have hx : (t₀.openReq conn head owner opened sent).1.lookup id = some x := hx
        rw [htable, AList.lookup_insert] at hx
        cases hx
        refine ⟨rfl, ?_, nofun⟩
        show Left head.body 0 (Exchanges.upOf head.body)
        cases hlen : head.body with
        | empty => trivial
        | unknown => exact nofun
        | known n =>
          rw [hlen] at hbody
          have hn := lt_of_bodyLen hbody
          show Left (.known n) 0 (if n = 0 then .done else .known (UInt64.ofNat n))
          split
          · trivial
          · refine ⟨n, rfl, ?_⟩
            rw [UInt64.toNat_ofNat', Nat.mod_eq_of_lt (by omega), Nat.zero_add]

end Runs

/-- **What a stream relays.** After every run of a stream that was opened: the bytes that the
exchange accepted are the first of the browser's DATA; at no point does the credit exceed the
bytes accepted and those discarded, and after a discard nothing is accepted; a FIN is passed
when all of the DATA has been accepted. The DATA sent to the browser are the first bytes of the
response body; with END_STREAM they are those of the `Last` result right before, which says
that the response is as long as its length; a head ends the stream only if the response has no
body, and a reject response comes in place of a head. A stream that is done has left the table. -/
theorem stream_relays {http : HttpCrate} {t₀ t : Exchanges O} {tunnel : Option ℕ} {stream id : ℕ} {owner : O}
    {parts : Parts} {endStream sent : Bool} {sni auth : List UInt8} {calls : List XCall} {s : MStream} {head : ReqHead}
    {as : List (RelayStep O)} {w : Relay O} (hmap : mapRequest http parts endStream sni auth = .ok head)
    (hopen : MStream.openStream http t₀ tunnel stream owner parts endStream sni auth (some id) sent = (t, calls, .ok s))
    (hrun : Run Relay.next (Relay.Allowed id head.body) ⟨s, t, []⟩ as w) :
    acceptedOf w.log <+: dataOf w.log ∧
    (∀ past future, w.log = past ++ future → releasedOf past ≤ (acceptedOf past).length + discardedOf past) ∧
    (∀ past n future, w.log = past ++ .discarded n :: future → ∀ bs, MEvent.accepted bs ∉ future) ∧
    (∀ past e future, w.log = past ++ e :: future → e = .fin ∨ e = .finTaken → acceptedOf past = dataOf w.log) ∧
    sentOf w.log <+: bodyOf w.log ∧
    (∀ past bs future, w.log = past ++ .sent bs true :: future → past.getLast? = some (.body bs true)) ∧
    (∀ past bs future, w.log = past ++ .body bs true :: future → ∃ h, MEvent.head h ∈ past ∧
      (bodyCheckApplies head.method h.status = true → ∀ c, h.cl = some c → c ≤ (bodyOf past ++ bs).length)) ∧
    (∀ past ends future, w.log = past ++ .response ends :: future → ∃ h, past.getLast? = some (.head h) ∧
      ends = Relay.bodiless (decide (head.method = ascii "HEAD")) h.status) ∧
    (∀ past r future, w.log = past ++ .reject r :: future → ∀ ends, MEvent.response ends ∉ past) ∧
    (w.stream.isDone = true → w.table.lookup id = none) := by
  obtain ⟨i, hi, hkept⟩ := kept_open hmap hopen
  cases hi
  have h : Kept id head.body head.method w :=
    hrun.invariant (fun _ _ _ hinv hallowed hnext => hinv.next hallowed hnext) hkept
  refine ⟨accepted_of_lawful h.lawful, fun past future hlog => ?_, fun past n future hlog bs hbs => ?_,
    fun past e future hlog he => fin_of_lawful h.lawful hlog he, sent_of_lawful h.lawful,
    fun past bs future hlog => (h.lawful past _ future hlog).2 rfl,
    fun past bs future hlog => h.lawful past _ future hlog,
    fun past ends future hlog => h.lawful past _ future hlog, fun past r future hlog => h.lawful past _ future hlog,
    fun hdone => ?_⟩
  · have hlawful := h.lawful
    rw [hlog] at hlawful
    exact released_of_lawful hlawful.of_append
  · have hlawful := h.lawful
    rw [hlog] at hlawful
    obtain ⟨past', hmem, -, hnone⟩ := hlawful.later hbs
    exact hnone n hmem
  · simp only [MStream.isDone, Bool.and_eq_true, decide_eq_true_iff] at hdone
    exact h.gone hdone.1.1

/-- A request with three bytes. -/
def putRequest : Parts :=
  ⟨ascii "PUT", some (ascii "https"), some (ascii "a.b"), some (ascii "/"),
    ⟨[(ascii "content-length", ascii "3")], by decide +kernel⟩⟩

/-- The transport takes all that it is given. -/
def takesAll (poll : PollData) : UpTurn := ⟨⟨.ok (), fun d _ => .ok d.length⟩, poll⟩

/-- A response with one byte. -/
def oneByte : DownTurn :=
  ⟨false, [(ascii ":status", ascii "200")], .ok false, true, false, fun _ => .error .blocked, 10, [],
    fun _ => .ok ([9], true), true⟩

/-- The table and the stream of that request. -/
def putOpened : Exchanges Unit × List XCall × Except MapErr MStream :=
  MStream.openStream ⟨fun _ => true, fun _ => true, fun _ => true⟩ (∅ : Exchanges Unit) (some 1) 5 () putRequest false
    (ascii "a.b") (ascii "Bearer t") (some 7) true

/-- The three bytes go up with the FIN, and the response comes down. -/
theorem stream_relays_put :
    ∃ w : Relay Unit, Run Relay.next (Relay.Allowed 7 (.known 3))
        ⟨⟨5, some 7, false, .recv [] false, .awaitHead, false⟩, putOpened.1, []⟩
        [.step true [takesAll (.data [1, 2, 3]), takesAll .pending, takesAll .pending] oneByte] w ∧
      w.log = [.data [1, 2, 3], .accepted [1, 2, 3], .finTaken, .released 3, .head ⟨200, [], none, false⟩,
        .response false, .body [9] true, .sent [9] true] ∧
      acceptedOf w.log <+: dataOf w.log ∧ sentOf w.log <+: bodyOf w.log ∧ w.table.lookup 7 = none := by
  have hlawful : Lawful (H2 (.known 3))
      ([] ++ [.data [1, 2, 3]] ++ [.accepted [1, 2, 3]] ++ [.finTaken] ++ [.released 3]) := by
    simp only [lawful_snoc, H2, and_true]
    exact ⟨lawful_nil, by simp, fun n hn => by cases hn; decide⟩
  have hhonest (poll : PollData) : (takesAll poll).toTurn.Honest := by
    rintro d f k ⟨⟩
    exact le_rfl
  have hturns : ∀ u ∈ [takesAll (.data [1, 2, 3]), takesAll .pending, takesAll .pending], u.toTurn.Honest := by
    intro u hu
    simp only [List.mem_cons, List.not_mem_nil, or_false] at hu
    rcases hu with rfl | rfl | rfl <;> exact hhonest _
  refine Run.exists_and (.cons ⟨hturns, (fun _ _ hprobe => by cases hprobe), fun r hr => by cases hr; exact hlawful⟩ rfl
    (.nil _)) fun hrun => ?_
  have hmap : mapRequest ⟨fun _ => true, fun _ => true, fun _ => true⟩ putRequest false (ascii "a.b")
      (ascii "Bearer t") = .ok ⟨ascii "PUT", ⟨ascii "https", ascii "a.b", ascii "/"⟩, ascii "Bearer t", none, none,
        none, none, [], .known 3⟩ := rfl
  have hopen : MStream.openStream ⟨fun _ => true, fun _ => true, fun _ => true⟩ (∅ : Exchanges Unit) (some 1) 5 ()
      putRequest false (ascii "a.b") (ascii "Bearer t") (some 7) true =
        (putOpened.1, _, .ok ⟨5, some 7, false, .recv [] false, .awaitHead, false⟩) := rfl
  obtain ⟨haccepted, -, -, -, hsent, -, -, -, -, hdone⟩ := stream_relays hmap hopen hrun
  exact ⟨rfl, haccepted, hsent, hdone rfl⟩

end MqProxy.Client
