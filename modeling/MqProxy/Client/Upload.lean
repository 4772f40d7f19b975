import MqProxy.Client.ExchangeSpec
import MqProxy.Client.Settlement

/-!
# The upload of an exchange

A front has some bytes `S` for a request that it opened with a length of `n`. It offers them
to `send_body` in slices, each from the first byte on that was not yet accepted, while
everything else happens to the exchanges in any order: other requests, events, reads of the
response, resets.

`Upload` keeps count of this: how many bytes the front was told are accepted, which bytes and
FINs the transport took, and what was read of the response. **`upload_accounted`** says that
these counts are what they should be after every run; `upload` is the loop with which the
gateway of the fetch listener uploads, and it ends.
-/

namespace MqProxy.Client

open MqProxy.Http MqProxy.Library
open MqProxy.Runtime (StreamError)
open MqProxy.Ingress.HttpConnect (ascii)

variable {O : Type}

/-- The bytes that an answer says are accepted. -/
def SendOut.count : SendOut → ℕ
  | .accepted n => n
  | _ => 0

/-- The bytes that an answer says are read. -/
def BodyOut.count : BodyOut → ℕ
  | .data n => n
  | .last n => n
  | _ => 0

/-- The head of an answer. -/
def HeadOut.head? : HeadOut → Option RespHead
  | .head h => some h
  | _ => none

/-- The exchanges, and what was counted for one request. -/
structure Upload (O : Type) where
  table : Exchanges O
  /-- The bytes that the front was told are accepted. -/
  taken : ℕ
  /-- The bytes that the transport took. -/
  sent : List UInt8
  /-- For each FIN that the transport took, how many bytes it had taken with it. -/
  fins : List ℕ
  /-- The response head that was read. -/
  head : Option RespHead
  /-- The bytes of the response that were read. -/
  received : ℕ

namespace Upload

/-- One operation, counted for the request `id`. -/
def step (id : ℕ) (u : Upload O) (a : XStep O) : Option (Upload O) :=
  let u' := { u with table := (u.table.step a).1 }
  some <|
    match a with
    | .sendBody i data fin finished sent =>
      if i = id then
        let took := u.table.took id data fin finished sent
        { u' with
          taken := u.taken + (u.table.sendBody id data fin finished sent).2.2.count
          sent := u.sent ++ took.1
          fins := if took.2 then u.fins ++ [(u.sent ++ took.1).length] else u.fins }
      else u'
    | .readHead i fields recv =>
      if i = id then { u' with head := (u.table.readHead id fields recv).2.2.head?.or u.head } else u'
    | .readBody i recv =>
      if i = id then { u' with received := u.received + (u.table.readBody id recv).2.2.count } else u'
    | _ => u'

/-- **The front and the transport**: a slice starts with the first byte that was not accepted,
the transport takes no more than it is given, and it opens no other request under the same
id. -/
def Offers (id : ℕ) (S : List UInt8) (u : Upload O) : XStep O → Prop
  | .sendBody i data fin _ sent => i = id → data <+: S.drop u.taken ∧ u.table.Honest id data fin sent
  | .openReq _ _ _ opened _ => opened ≠ some id
  | _ => True

/-- How far the upload is. -/
def Progress (id n : ℕ) (u : Upload O) : Prop :=
  (∃ x remaining, u.table.lookup id = some x ∧ x.up = .known remaining ∧ x.live = true ∧ 0 < remaining.toNat ∧
    u.sent.length + remaining.toNat = n ∧ u.taken = u.sent.length ∧ u.fins = []) ∨
  ((∀ x, u.table.lookup id = some x → x.up = .done) ∧
    (u.fins = [] ∧ u.sent.length < n ∨ u.fins = [n] ∧ u.sent.length = n))

/-- What is known of the response. -/
def Response (id : ℕ) (m : Method) (u : Upload O) : Prop :=
  ∀ x, u.table.lookup id = some x → x.method = m ∧ ∀ status cl delivered fin, x.down = .body status cl delivered fin →
    ∃ h, u.head = some h ∧ h.status = status ∧ h.cl = cl ∧ delivered.toNat ≤ u.received

/-- **The invariant** of the upload. -/
structure Inv (id n : ℕ) (S : List UInt8) (m : Method) (u : Upload O) : Prop where
  sent : u.sent <+: S.take n
  progress : u.Progress id n
  response : u.Response id m

variable {id n : ℕ} {S : List UInt8} {m : Method} {u u' : Upload O}

/-- An upload that is not over lacks some bytes. -/
theorem Inv.left {x : Exch O} (h : u.Inv id n S m) (hx : u.table.lookup id = some x) (hup : x.up ≠ .done) :
    ∃ remaining, x.up = .known remaining ∧ x.live = true ∧ 0 < remaining.toNat ∧
      u.sent.length + remaining.toNat = n ∧ u.taken = u.sent.length ∧ u.fins = [] := by
  rcases h.progress with ⟨x', r, hx', hleft⟩ | ⟨hdone, -⟩
  · cases hx.symm.trans hx'
    exact ⟨r, hleft⟩
  · exact absurd (hdone x hx) hup

/-- An exchange that is as before, or whose upload is over; its response is no further. -/
def Wanes (x y : Exch O) : Prop :=
  y.method = x.method ∧ (y.up = x.up ∧ y.live = x.live ∨ y.up = .done) ∧
    ∀ status cl delivered fin, y.down = .body status cl delivered fin → x.down = .body status cl delivered fin

theorem wanes_refl (x : Exch O) : Wanes x x := ⟨rfl, Or.inl ⟨rfl, rfl⟩, fun _ _ _ _ h => h⟩

/-- Nothing was sent for the request. -/
structure Unsent (u u' : Upload O) : Prop where
  sent : u'.sent = u.sent
  taken : u'.taken = u.taken
  fins : u'.fins = u.fins

/-- The upload is as before, or over. -/
theorem Progress.wane (h : u.Progress id n) (hu : u.Unsent u')
    (hx : ∀ y, u'.table.lookup id = some y →
      ∃ x, u.table.lookup id = some x ∧ (y.up = x.up ∧ y.live = x.live ∨ y.up = .done)) :
    u'.Progress id n := by
  rw [Progress, hu.sent, hu.taken, hu.fins]
  rcases h with ⟨x, r, hlookup, hup, hlive, hpos, hlen, htook, hnone⟩ | ⟨hdone, hend⟩
  · by_cases hover : ∀ y, u'.table.lookup id = some y → y.up = .done
    · exact Or.inr ⟨hover, Or.inl ⟨hnone, by omega⟩⟩
    · push Not at hover
      obtain ⟨y, hy, hne⟩ := hover
      obtain ⟨x', hx', hsame⟩ := hx y hy
      cases hlookup.symm.trans hx'
      obtain ⟨hup', hlive'⟩ := hsame.resolve_right hne
      exact Or.inl ⟨y, r, hy, hup'.trans hup, hlive'.trans hlive, hpos, hlen, htook, hnone⟩
  · refine Or.inr ⟨fun y hy => ?_, hend⟩
    obtain ⟨x, hlookup, ⟨hup, -⟩ | hover⟩ := hx y hy
    · rw [hup]
      exact hdone x hlookup
    · exact hover

/-- **A step that sends nothing and reads nothing** for the request. -/
theorem Inv.wane (h : u.Inv id n S m) (hu : u.Unsent u') (hhead : u'.head = u.head)
    (hreceived : u'.received = u.received)
    (hx : ∀ y, u'.table.lookup id = some y → ∃ x, u.table.lookup id = some x ∧ Wanes x y) : u'.Inv id n S m := by
  refine ⟨hu.sent ▸ h.sent, h.progress.wane hu fun y hy => ?_, fun y hy => ?_⟩
  · obtain ⟨x, hlookup, -, hup, -⟩ := hx y hy
    exact ⟨x, hlookup, hup⟩
  · obtain ⟨x, hlookup, hmethod, -, hdown⟩ := hx y hy
    obtain ⟨hm, hbody⟩ := h.response x hlookup
    refine ⟨hmethod.trans hm, fun status cl delivered fin hy => ?_⟩
    rw [hhead, hreceived]
    exact hbody status cl delivered fin (hdown status cl delivered fin hy)

/-- A step after which the request is gone. -/
theorem Inv.gone (h : u.Inv id n S m) (hu : u.Unsent u') (hlookup : u'.table.lookup id = none) : u'.Inv id n S m := by
  refine ⟨hu.sent ▸ h.sent, h.progress.wane hu fun y hy => ?_, fun y hy => ?_⟩
  · cases hlookup.symm.trans hy
  · cases hlookup.symm.trans hy

/-! ### Sending -/

/-- The next bytes of what the front has. -/
theorem prefix_take_append {sent data : List UInt8} {k : ℕ} (hsent : sent <+: S.take n)
    (hdata : data <+: S.drop sent.length) (hlen : sent.length + k ≤ n) : sent ++ data.take k <+: S.take n := by
  have hS : sent = S.take sent.length := by
    have h : sent <+: S := hsent.trans ( List.take_prefix n S)
    exact List.prefix_iff_eq_take.mp h
  have hnext : data.take k <+: (S.drop sent.length).take k := hdata.take k
  have hmore : sent ++ data.take k <+: S.take (sent.length + k) := by
    rw [List.take_add, ← hS]
    exact (List.prefix_append_right_inj sent).mpr hnext
  exact hmore.trans (List.take_prefix_take_left hlen)

theorem toSend_known {remaining : UInt64} {data d : List UInt8} {fin f : Bool} {e : ℕ}
    (h : Exchanges.toSend (.known remaining) data fin = some (d, f, e)) :
    d = data.take (min data.length remaining.toNat) ∧ d.length = min data.length remaining.toNat ∧
      (f = true ↔ d.length = remaining.toNat) ∧ e = data.length - d.length := by
  cases h
  have hlen : (data.take (min data.length remaining.toNat)).length = min data.length remaining.toNat := by
    rw [List.length_take]
    omega
  refine ⟨rfl, hlen, ?_, by rw [hlen]⟩
  rw [hlen, decide_eq_true_iff]

/-- A part is less than what is left. -/
theorem lt_of_part {remaining : UInt64} {data d : List UInt8} {fin f : Bool} {e k : ℕ}
    (h : Exchanges.toSend (.known remaining) data fin = some (d, f, e)) (hle : k ≤ d.length)
    (hmore : ¬(f = true ∧ k = d.length)) : k < remaining.toNat := by
  obtain ⟨-, hlen, hf, -⟩ := toSend_known h
  exact lt_of_le_of_ne (by omega) fun hk => hmore ⟨hf.mpr (by omega), by omega⟩

theorem toNat_sub {remaining : UInt64} {k : ℕ} (hk : k ≤ remaining.toNat) :
    (remaining - UInt64.ofNat k).toNat = remaining.toNat - k := by
  have hlt : k < 2 ^ 64 := lt_of_le_of_lt hk remaining.toNat_lt
  have hof : (UInt64.ofNat k).toNat = k := by
    rw [UInt64.toNat_ofNat']
    exact Nat.mod_eq_of_lt hlt
  rw [UInt64.toNat_sub_of_le]
  · rw [hof]
  · rw [UInt64.le_iff_toNat_le, hof]
    exact hk

/-- What the counts are after a `send_body` for the request. -/
structure Counted (u u' : Upload O) (id : ℕ) (y : Exch O) (took : List UInt8 × Bool) (out : SendOut) : Prop where
  lookup : u'.table.lookup id = some y
  taken : u'.taken = u.taken + out.count
  sent : u'.sent = u.sent ++ took.1
  fins : u'.fins = if took.2 then u.fins ++ [(u.sent ++ took.1).length] else u.fins
  head : u'.head = u.head
  received : u'.received = u.received

/-- A `send_body` that moves nothing. -/
theorem Counted.idle {x y : Exch O} {out : SendOut} (hc : Counted u u' id y ([], false) out) (hout : out.count = 0)
    (h : u.Inv id n S m) (hx : u.table.lookup id = some x) (hy : Wanes x y) : u'.Inv id n S m := by
  refine h.wane ⟨by simp [hc.sent], by simp [hc.taken, hout], hc.fins⟩ hc.head hc.received fun z hz => ⟨x, hx, ?_⟩
  cases hc.lookup.symm.trans hz
  exact hy

/-- The response is not touched. -/
theorem Counted.response {x y : Exch O} {took : List UInt8 × Bool} {out : SendOut} (hc : Counted u u' id y took out)
    (h : u.Response id m) (hx : u.table.lookup id = some x) (hmethod : y.method = x.method) (hdown : y.down = x.down) :
    u'.Response id m := by
  intro z hz
  rw [hc.lookup] at hz
  cases hz
  obtain ⟨hm, hbody⟩ := h x hx
  refine ⟨hmethod.trans hm, fun status cl delivered fin hz => ?_⟩
  rw [hc.head, hc.received]
  exact hbody status cl delivered fin (hdown ▸ hz)

/-- **Sending keeps the invariant.** -/
theorem Inv.sends {x y : Exch O} {data : List UInt8} {fin : Bool} {took : List UInt8 × Bool} {out : SendOut}
    (h : u.Inv id n S m) (hx : u.table.lookup id = some x) (hdata : data <+: S.drop u.taken)
    (hsends : Sends x data fin y took out) (hc : Counted u u' id y took out) : u'.Inv id n S m := by
  cases hsends with
  | ceased hup => exact hc.idle rfl h hx (wanes_refl x)
  | nothing hsend => exact hc.idle rfl h hx (wanes_refl x)
  | held hup => exact hc.idle rfl h hx (wanes_refl x)
  | broken hup => exact hc.idle rfl h hx ⟨rfl, Or.inr rfl, fun _ _ _ _ hdown => by cases hdown⟩
  | @part d f e k hsend hpos hle hmore =>
    obtain ⟨r, hup, hlive, hr, hlen, htook, hnone⟩ := h.left hx (toSend_ne_none hsend)
    rw [hup] at hsend
    obtain ⟨hd, hdlen, -, -⟩ := toSend_known hsend
    have hlt := lt_of_part hsend hle hmore
    have htake : d.take k = data.take k := by
      rw [hd, List.take_take]
      congr 1
      omega
    have hklen : (d.take k).length = k := by
      rw [List.length_take]
      omega
    rw [htook] at hdata
    refine ⟨?_, Or.inl ⟨_, r - UInt64.ofNat k, hc.lookup, ?_, hlive, ?_, ?_, ?_, ?_⟩, hc.response h.response hx rfl rfl⟩
    · rw [hc.sent, htake]
      exact prefix_take_append h.sent hdata (by omega)
    · show x.up.less k = _
      rw [hup]
      rfl
    · rw [toNat_sub hlt.le]
      omega
    · rw [hc.sent, List.length_append, hklen, toNat_sub hlt.le]
      omega
    · rw [hc.sent, hc.taken, List.length_append, hklen, htook]
      rfl
    · rw [hc.fins]
      exact hnone
  | @last d e hsend =>
    obtain ⟨r, hup, hlive, hr, hlen, htook, hnone⟩ := h.left hx (toSend_ne_none hsend)
    rw [hup] at hsend
    obtain ⟨hd, hdlen, hf, -⟩ := toSend_known hsend
    have hdr := hf.mp rfl
    have hfull : (u.sent ++ d).length = n := by
      rw [List.length_append]
      omega
    rw [htook] at hdata
    refine ⟨?_, Or.inr ⟨fun z hz => ?_, Or.inr ⟨?_, ?_⟩⟩, hc.response h.response hx rfl rfl⟩
    · rw [hc.sent, hd]
      exact prefix_take_append h.sent hdata (by omega)
    · rw [hc.lookup] at hz
      cases hz
      rfl
    · rw [hc.fins]
      show u.fins ++ [(u.sent ++ d).length] = [n]
      rw [hnone, hfull]
      rfl
    · rw [hc.sent, hfull]

/-! ### Reading -/

/-- The counts after a `read_head` for the request. -/
theorem Inv.readsHead {fields : List Field} {r : Exchanges O × List XCall × HeadOut} (h : u.Inv id n S m)
    (hreads : Exchanges.ReadsHead u.table id fields r) (htable : u'.table = r.1) (hu : u.Unsent u')
    (hhead : u'.head = r.2.2.head?.or u.head) (hreceived : u'.received = u.received) : u'.Inv id n S m := by
  have hlookup := congrArg (AList.lookup id) htable
  cases hreads with
  | waits => exact h.wane hu hhead hreceived fun y hy => ⟨y, hlookup.symm.trans hy, wanes_refl y⟩
  | fails => exact h.gone hu (hlookup.trans (Exchanges.lookup_fail_self _ _))
  | @head x hd fin hx hdown hcollect =>
    have hy := hlookup.trans (AList.lookup_insert _)
    refine ⟨hu.sent ▸ h.sent, h.progress.wane hu fun y hy' => ⟨x, hx, ?_⟩, fun y hy' => ?_⟩
    · cases hy.symm.trans hy'
      exact Or.inl ⟨rfl, rfl⟩
    · cases hy.symm.trans hy'
      refine ⟨(h.response x hx).1, fun status cl delivered fin hbody => ?_⟩
      cases hbody
      exact ⟨hd, hhead, rfl, rfl, Nat.zero_le _⟩

theorem toNat_add_le (a : UInt64) (k : ℕ) : (a + UInt64.ofNat k).toNat ≤ a.toNat + k := by
  rw [UInt64.toNat_add, UInt64.toNat_ofNat']
  have hmod := Nat.mod_le (a.toNat + k % 2 ^ 64) (2 ^ 64)
  have hk := Nat.mod_le k (2 ^ 64)
  omega

/-- The counts after a `read_body` for the request. -/
theorem Inv.readsBody {recv : Except StreamError (ℕ × Bool)} {r : Exchanges O × List XCall × BodyOut}
    (h : u.Inv id n S m) (hreads : Exchanges.ReadsBody u.table id recv r) (htable : u'.table = r.1)
    (hu : u.Unsent u') (hhead : u'.head = u.head) (hreceived : u'.received = u.received + r.2.2.count) :
    u'.Inv id n S m := by
  have hlookup := congrArg (AList.lookup id) htable
  cases hreads with
  | waits => exact h.wane hu hhead hreceived fun y hy => ⟨y, hlookup.symm.trans hy, wanes_refl y⟩
  | fails => exact h.gone hu (hlookup.trans (Exchanges.lookup_fail_self _ _))
  | ended => exact h.gone hu (hlookup.trans (AList.lookup_erase _ _))
  | last => exact h.gone hu (hlookup.trans (AList.lookup_erase _ _))
  | @data x status cl delivered k hx hdown hrecv hpos =>
    have hy := hlookup.trans (AList.lookup_insert _)
    refine ⟨hu.sent ▸ h.sent, h.progress.wane hu fun y hy' => ⟨x, hx, ?_⟩, fun y hy' => ?_⟩
    · cases hy.symm.trans hy'
      exact Or.inl ⟨rfl, rfl⟩
    · cases hy.symm.trans hy'
      obtain ⟨hm, hbody⟩ := h.response x hx
      refine ⟨hm, fun status' cl' delivered' fin' hdown' => ?_⟩
      cases hdown'
      obtain ⟨hd, hheads, hstatus, hcl, hle⟩ := hbody status cl delivered false hdown
      refine ⟨hd, by rw [hhead]; exact hheads, hstatus, hcl, ?_⟩
      rw [hreceived]
      exact (toNat_add_le delivered k).trans (Nat.add_le_add_right hle k)

/-! ### Runs -/

/-- The exchanges of some owners go. -/
theorem lookup_drainOwner (t : Exchanges O) (order : List ℕ) (pred : O → Bool) (id : ℕ) :
    (t.drainOwner order pred).1.lookup id = none ∨ (t.drainOwner order pred).1.lookup id = t.lookup id := by
  have hfold (ids : List ℕ) (s : Exchanges O × List XCall) :
      let r := ids.foldl (fun (s : Exchanges O × List XCall) i => ((s.1.fail i).1, s.2 ++ (s.1.fail i).2)) s
      r.1.lookup id = none ∨ r.1.lookup id = s.1.lookup id := by
    induction ids generalizing s with
    | nil => exact Or.inr rfl
    | cons i ids ih =>
      rcases ih ((s.1.fail i).1, s.2 ++ (s.1.fail i).2) with hnone | hsame
      · exact Or.inl hnone
      · have hfail := Exchanges.lookup_fail s.1 i id
        split at hfail
        · exact Or.inl (hsame.trans hfail)
        · exact Or.inr (hsame.trans hfail)
  exact hfold _ (t, [])

/-- Nothing is sent or read for the request, and no other one is opened under its id. -/
def Spares (id : ℕ) : XStep O → Prop
  | .openReq _ _ _ opened _ => opened ≠ some id
  | .sendBody i _ _ _ _ => i ≠ id
  | .readHead i _ _ => i ≠ id
  | .readBody i _ => i ≠ id
  | _ => True

/-- **What others do to a request**: it is as before, its upload is over, or it is gone. -/
theorem wanes_step {a : XStep O} {t : Exchanges O} {y : Exch O} (hspares : Spares id a)
    (hy : (t.step a).1.lookup id = some y) : ∃ x, t.lookup id = some x ∧ Wanes x y := by
  have hsame (h : (t.step a).1.lookup id = none ∨ (t.step a).1.lookup id = t.lookup id) :
      ∃ x, t.lookup id = some x ∧ Wanes x y := by
    rcases h with h | h
    · cases h.symm.trans hy
    · exact ⟨y, h ▸ hy, wanes_refl y⟩
  have hfail (i : ℕ) : (t.fail i).1.lookup id = none ∨ (t.fail i).1.lookup id = t.lookup id := by
    rw [Exchanges.lookup_fail]
    split
    · exact Or.inl rfl
    · exact Or.inr rfl
  cases a with
  | openReq conn head owner opened sent =>
    refine hsame (Or.inr ?_)
    show (t.openReq conn head owner opened sent).1.lookup id = _
    cases hout : (t.openReq conn head owner opened sent).2.2 with
    | error r => rw [Exchanges.openReq_error hout]
    | ok i =>
      obtain ⟨rfl, htable⟩ := Exchanges.openReq_ok hout
      rw [htable]
      exact AList.lookup_insert_ne fun hid => hspares (congrArg some hid.symm)
  | sendBody i data fin finished sent => exact hsame (Or.inr (Exchanges.lookup_sendBody_ne _ (Ne.symm hspares) _ _ _ _))
  | readHead i fields recv => exact hsame (Or.inr ((acts_readHead _ _ _ _).lookup_ne (Ne.symm hspares)))
  | readBody i recv => exact hsame (Or.inr ((acts_readBody _ _ _).lookup_ne (Ne.symm hspares)))
  | uploadEof i buffered =>
    refine hsame ?_
    simp only [Exchanges.step, Exchanges.uploadEof]
    split
    · split
      · exact hfail i
      · exact Or.inr rfl
    · exact Or.inr rfl
  | reset i => exact hsame (hfail i)
  | drainOwner order pred => exact hsame (lookup_drainOwner t order pred id)
  | event ev =>
    cases ev with
    | readable i => exact hsame (Or.inr rfl)
    | writable i => exact hsame (Or.inr rfl)
    | closed i =>
      have hy : (t.onEvent (.closed i)).1.lookup id = some y := hy
      simp only [Exchanges.onEvent] at hy
      split at hy
      · exact ⟨y, hy, wanes_refl y⟩
      · next x hx =>
        by_cases hi : id = i
        · subst hi
          cases (AList.lookup_insert _).symm.trans hy
          refine ⟨x, hx, rfl, Or.inr rfl, fun status cl delivered fin hdown => ?_⟩
          revert hdown
          cases x.down with
          | body status' cl' delivered' fin' => cases fin' <;> simp [Exchanges.downClosed]
          | _ => simp [Exchanges.downClosed]
        · rw [AList.lookup_insert_ne hi] at hy
          exact ⟨y, hy, wanes_refl y⟩

/-- **Each operation keeps the invariant.** -/
theorem Inv.step {a : XStep O} (h : u.Inv id n S m) (hoffers : Offers id S u a) (hstep : u.step id a = some u') :
    u'.Inv id n S m := by
  cases hstep
  cases a with
  | sendBody i data fin finished sent =>
    dsimp only
    split
    · next hi =>
      subst hi
      obtain ⟨hdata, hhonest⟩ := hoffers rfl
      rcases Exchanges.sendBody_cases finished hhonest with ⟨-, hgone, hout, htook⟩ | ⟨x, y, hx, hy, hsends⟩
      · exact h.gone ⟨by simp [htook], by simp [hout, SendOut.count], by simp [htook]⟩ hgone
      · exact h.sends hx hdata hsends ⟨hy, rfl, rfl, rfl, rfl, rfl⟩
    · next hi => exact h.wane ⟨rfl, rfl, rfl⟩ rfl rfl fun y => wanes_step hi
  | readHead i fields recv =>
    dsimp only
    split
    · next hi =>
      subst hi
      exact h.readsHead (Exchanges.readHead_spec u.table i fields recv) rfl ⟨rfl, rfl, rfl⟩ rfl rfl
    · next hi => exact h.wane ⟨rfl, rfl, rfl⟩ rfl rfl fun y => wanes_step hi
  | readBody i recv =>
    dsimp only
    split
    · next hi =>
      subst hi
      exact h.readsBody (Exchanges.readBody_spec u.table i recv) rfl ⟨rfl, rfl, rfl⟩ rfl rfl
    · next hi => exact h.wane ⟨rfl, rfl, rfl⟩ rfl rfl fun y => wanes_step hi
  | openReq => exact h.wane ⟨rfl, rfl, rfl⟩ rfl rfl fun y => wanes_step hoffers
  | _ => exact h.wane ⟨rfl, rfl, rfl⟩ rfl rfl fun y => wanes_step trivial

end Upload

/-! ### The loop of the gateway -/

/-- `DL_CHUNK`. -/
def DL_CHUNK : ℕ := 16 * 1024

/-- What the transport answers in one turn of the loop. -/
structure Turn where
  finished : Except StreamError Unit
  sent : List UInt8 → Bool → Except StreamError ℕ

/-- The transport takes no more than it is given. -/
def Turn.Honest (a : Turn) : Prop := ∀ d f k, a.sent d f = .ok k → k ≤ d.length

/-- How the loop ends: there are no bytes, the transport is blocked, or the upload is over. -/
inductive Uploaded where
  | empty
  | blocked
  | done
  deriving DecidableEq

namespace Exchanges

/-- What `h3_send_body` answers. -/
def answer (t : Exchanges O) (id : ℕ) (data : List UInt8) (a : Turn) : Except StreamError ℕ :=
  match (t.lookup id).bind fun x => toSend x.up data false with
  | some (d, f, _) => a.sent d f
  | none => .ok 0

/-- The loop of `Gateway::upload`: `rx` is offered in slices of at most `DL_CHUNK`. `none` if the
turns do not suffice; the bytes that are left come with the result. -/
def upload (t : Exchanges O) (id : ℕ) (rx : List UInt8) :
    List Turn → Option (Exchanges O × List XCall × List UInt8 × Uploaded)
  | [] => if rx = [] then some (t, [], [], .empty) else none
  | a :: turns =>
    if rx = [] then some (t, [], [], .empty)
    else
      let data := rx.take DL_CHUNK
      let r := t.sendBody id data false a.finished (t.answer id data a)
      match r.2.2 with
      | .accepted n => (upload r.1 id (rx.drop n) turns).map fun s => (s.1, r.2.1 ++ s.2.1, s.2.2)
      | .blocked => some (r.1, r.2.1, rx, .blocked)
      -- the rest is discarded
      | .done => some (r.1, r.2.1, [], .done)

/-- **What each `send_body` does, the loop does.** -/
theorem upload_rel {R : Exchanges O → Exchanges O → Prop} (hrefl : ∀ t, R t t)
    (htrans : ∀ {t t' t''}, R t t' → R t' t'' → R t t'') {id : ℕ}
    (hsend : ∀ t data fin finished sent, R t (sendBody t id data fin finished sent).1) {t : Exchanges O}
    {rx : List UInt8} {turns : List Turn} {r : Exchanges O × List XCall × List UInt8 × Uploaded}
    (h : t.upload id rx turns = some r) : R t r.1 := by
  induction turns generalizing t rx r with
  | nil =>
    unfold upload at h
    split at h
    · cases h
      exact hrefl t
    · cases h
  | cons a turns ih =>
    unfold upload at h
    split at h
    · cases h
      exact hrefl t
    · have hfirst := hsend t (rx.take DL_CHUNK) false a.finished (t.answer id (rx.take DL_CHUNK) a)
      dsimp only at h
      generalize t.sendBody id (rx.take DL_CHUNK) false a.finished (t.answer id (rx.take DL_CHUNK) a) = q at h hfirst
      split at h
      · obtain ⟨s, hs, rfl⟩ := Option.map_eq_some_iff.mp h
        have hrest : R q.1 s.1 := ih hs
        exact htrans hfirst hrest
      · cases h
        exact hfirst
      · cases h
        exact hfirst

theorem honest_answer (t : Exchanges O) (id : ℕ) (data : List UInt8) {a : Turn} (ha : a.Honest) :
    t.Honest id data false (t.answer id data a) := by
  intro x d f e k hx hsend hk
  simp only [answer, hx, Option.bind_some, hsend] at hk
  exact ha d f k hk

theorem toSend_length {up : Up} {data d : List UInt8} {fin f : Bool} {e : ℕ}
    (h : toSend up data fin = some (d, f, e)) : d.length + e = data.length := by
  cases up with
  | done => cases h
  | streaming =>
    cases h
    rfl
  | known r =>
    obtain ⟨-, hlen, -, he⟩ := Upload.toSend_known h
    omega

/-- A length that is not yet sent is not zero. -/
def Sending (t : Exchanges O) (id : ℕ) : Prop :=
  ∀ x remaining, t.lookup id = some x → x.up = .known remaining → 0 < remaining.toNat

/-- **A slice that is not empty is never answered with zero bytes**, and stays so. -/
theorem sendBody_sending {t : Exchanges O} {id : ℕ} {data : List UInt8} {fin : Bool} {sent : Except StreamError ℕ}
    (h : t.Sending id) (finished : Except StreamError Unit) (hhonest : t.Honest id data fin sent) :
    (t.sendBody id data fin finished sent).1.Sending id ∧
      (data ≠ [] → (t.sendBody id data fin finished sent).2.2 ≠ .accepted 0) := by
  rcases sendBody_cases finished hhonest with ⟨-, hgone, hout, -⟩ | ⟨x, y, hx, hlookup, hsends⟩
  · rw [hout]
    exact ⟨fun z r hz => (nomatch hgone.symm.trans hz), fun _ hout => (nomatch hout)⟩
  · generalize (t.sendBody id data fin finished sent).2.2 = out at hsends ⊢
    generalize t.took id data fin finished sent = took at hsends
    have hkeeps (hy : ∀ r, y.up = .known r → 0 < r.toNat) :
        (t.sendBody id data fin finished sent).1.Sending id := by
      intro z r hz hup
      rw [hlookup] at hz
      cases hz
      exact hy r hup
    cases hsends with
    | ceased hup => exact ⟨hkeeps fun r => h x r hx, fun _ hout => by cases hout⟩
    | @nothing e hsend =>
      refine ⟨hkeeps fun r => h x r hx, fun hdata _ => hdata ?_⟩
      cases hup : x.up with
      | done => exact absurd hup (toSend_ne_none hsend)
      | streaming =>
        rw [hup] at hsend
        cases hsend
        rfl
      | known r =>
        rw [hup] at hsend
        obtain ⟨-, hlen, -, -⟩ := Upload.toSend_known hsend
        have hr := h x r hx hup
        rw [List.length_nil] at hlen
        exact List.length_eq_zero_iff.mp (by omega)
    | held hup => exact ⟨hkeeps fun r => h x r hx, fun _ hout => by cases hout⟩
    | broken hup => exact ⟨hkeeps fun r (hdone : Up.done = _) => (nomatch hdone), fun _ hout => nomatch hout⟩
    | @part d f e k hsend hpos hle hmore =>
      refine ⟨hkeeps fun r hr => ?_, fun _ hout => ?_⟩
      · cases hup : x.up with
        | done => exact absurd hup (toSend_ne_none hsend)
        | streaming =>
          simp only [hup, Up.less] at hr
          cases hr
        | known r' =>
          simp only [hup, Up.less, Up.known.injEq] at hr
          rw [hup] at hsend
          have hlt := Upload.lt_of_part hsend hle hmore
          rw [← hr, Upload.toNat_sub hlt.le]
          omega
      · cases hout
        exact lt_irrefl _ hpos
    | @last d e hsend =>
      refine ⟨hkeeps fun r (hdone : Up.done = _) => (nomatch hdone), fun hdata hout => hdata ?_⟩
      have hlen := toSend_length hsend
      have hzero : d.length + e = 0 := SendOut.accepted.inj hout
      exact List.length_eq_zero_iff.mp (by omega)

/-- **The loop ends.** -/
theorem upload_ends {t : Exchanges O} {id : ℕ} {rx : List UInt8} {turns : List Turn} (h : t.Sending id)
    (hturns : ∀ a ∈ turns, a.Honest) (hlen : rx.length ≤ turns.length) : (t.upload id rx turns).isSome := by
  induction turns generalizing t rx with
  | nil =>
    have hrx : rx = [] := List.length_eq_zero_iff.mp (Nat.le_zero.mp hlen)
    rw [upload, if_pos hrx]
    rfl
  | cons a turns ih =>
    rw [upload]
    split
    · rfl
    · next hrx =>
      have hdata : rx.take DL_CHUNK ≠ [] := by
        rw [Ne, List.take_eq_nil_iff]
        exact fun h => h.elim (by decide) hrx
      obtain ⟨hkeeps, hzero⟩ := sendBody_sending h a.finished
        (honest_answer t id (rx.take DL_CHUNK) (hturns a List.mem_cons_self))
      dsimp only
      split
      · next n hout =>
        rw [Option.isSome_map]
        refine ih hkeeps (fun b hb => hturns b (List.mem_cons_of_mem _ hb)) ?_
        have hn : n ≠ 0 := fun hn => hzero hdata (hn ▸ hout)
        rw [List.length_drop]
        rw [List.length_cons] at hlen
        omega
      · rfl
      · rfl

end Exchanges

/-! ### Uploads are accounted for -/

namespace Upload

variable {id n : ℕ} {S : List UInt8} {m : Method} {u : Upload O}

/-- A request of a known length is opened. -/
theorem inv_open {t₀ t : Exchanges O} {conn : ℕ} {head : ReqHead} {owner : O} {calls : List XCall}
    (hbody : head.body = .known n) (hpos : 0 < n) (hn : n < 2 ^ 64)
    (hopen : t₀.openReq conn head owner (some id) true = (t, calls, .ok id)) (S : List UInt8) :
    Inv id n S head.method ⟨t, 0, [], [], none, 0⟩ := by
  have hout : (t₀.openReq conn head owner (some id) true).2.2 = .ok id := by rw [hopen]
  obtain ⟨-, htable⟩ := Exchanges.openReq_ok hout
  rw [hopen] at htable
  have htable : t = t₀.insert id ⟨owner, head.method, true, Exchanges.upOf head.body, .awaitHead⟩ := htable
  have hlookup : t.lookup id = some ⟨owner, head.method, true, .known (UInt64.ofNat n), .awaitHead⟩ := by
    rw [htable, AList.lookup_insert, hbody, Exchanges.upOf, if_neg hpos.ne']
  have hval : (UInt64.ofNat n).toNat = n := by
    rw [UInt64.toNat_ofNat']
    exact Nat.mod_eq_of_lt hn
  refine ⟨List.nil_prefix, Or.inl ⟨_, UInt64.ofNat n, hlookup, rfl, rfl, ?_, ?_, rfl, rfl⟩, fun x hx => ?_⟩
  · rw [hval]
    exact hpos
  · rw [hval]
    exact Nat.zero_add n
  · rw [hlookup] at hx
    cases hx
    exact ⟨rfl, fun _ _ _ _ hdown => by cases hdown⟩

theorem Inv.sending (h : u.Inv id n S m) : u.table.Sending id := by
  intro x r hx hup
  obtain ⟨r', hup', -, hpos, -⟩ := h.left hx (by rw [hup]; exact nofun)
  cases hup.symm.trans hup'
  exact hpos

/-- What an answer says of the bytes of a slice. -/
theorem Inv.answered {data : List UInt8} {fin : Bool} {sent : Except StreamError ℕ} (h : u.Inv id n S m)
    (finished : Except StreamError Unit) (hhonest : u.table.Honest id data fin sent) :
    (∀ k, (u.table.sendBody id data fin finished sent).2.2 = .accepted k →
      k ≤ data.length ∧ (u.table.took id data fin finished sent).1 = data.take (min k (n - u.sent.length)) ∧
        (n - u.sent.length ≤ k → k = data.length)) ∧
    (u.sent.length = n → (u.table.sendBody id data fin finished sent).2.2 = .done ∧
      u.table.took id data fin finished sent = ([], false)) := by
  cases hx : u.table.lookup id with
  | none =>
    obtain ⟨hsend, htook⟩ := Exchanges.sendBody_none hx data fin finished sent
    rw [hsend, htook]
    exact ⟨fun k hk => (nomatch hk), fun _ => ⟨rfl, rfl⟩⟩
  | some x =>
    obtain ⟨y, hsends, -⟩ := Exchanges.sendBody_spec hx finished hhonest
    generalize (u.table.sendBody id data fin finished sent).2.2 = out at hsends ⊢
    generalize u.table.took id data fin finished sent = took at hsends ⊢
    by_cases hover : x.up = .done
    · have hdonly : out = .done ∧ took = ([], false) := by
        cases hsends with
        | ceased => exact ⟨rfl, rfl⟩
        | broken hup => exact ⟨rfl, rfl⟩
        | held hup => exact absurd hover hup
        | nothing hsend => exact absurd hover (toSend_ne_none hsend)
        | part hsend => exact absurd hover (toSend_ne_none hsend)
        | last hsend => exact absurd hover (toSend_ne_none hsend)
      obtain ⟨rfl, rfl⟩ := hdonly
      exact ⟨fun k hk => (nomatch hk), fun _ => ⟨rfl, rfl⟩⟩
    · obtain ⟨r, hup, -, hpos, hlen, -⟩ := h.left hx hover
      refine ⟨fun k hk => ?_, fun hfull => by omega⟩
      have hr : n - u.sent.length = r.toNat := by omega
      rw [hr]
      cases hsends with
      | ceased => cases hk
      | held => cases hk
      | broken => cases hk
      | nothing hsend =>
        cases hk
        exact ⟨Nat.zero_le _, by simp, fun hle => by omega⟩
      | @part d f e _ hsend hkpos hle hmore =>
        cases hk
        rw [hup] at hsend
        obtain ⟨hd, hdlen, -, -⟩ := toSend_known hsend
        have hlt := lt_of_part hsend hle hmore
        refine ⟨by omega, ?_, fun hge => by omega⟩
        show d.take k = _
        rw [hd, List.take_take]
        congr 1
        omega
      | @last d e hsend =>
        cases hk
        have hall := Exchanges.toSend_length hsend
        rw [hup] at hsend
        obtain ⟨hd, hdlen, hf, -⟩ := toSend_known hsend
        have hdr := hf.mp rfl
        have hmin : min (d.length + e) r.toNat = min data.length r.toNat := by omega
        refine ⟨by omega, ?_, fun _ => by omega⟩
        rw [hmin]
        exact hd

/-- The end of the front's bytes, with too few of them. -/
theorem Inv.truncated {x : Exch O} {buffered : UInt64} (h : u.Inv id n S m) (hx : u.table.lookup id = some x)
    (hup : x.up ≠ .done) (hshort : buffered.toNat < n - u.sent.length) :
    (u.table.uploadEof id buffered).2 = ([.reset id], .truncated) ∧
      (u.table.uploadEof id buffered).1.lookup id = none := by
  obtain ⟨r, hknown, hlive, hpos, hlen, -⟩ := h.left hx hup
  have hlt : buffered < r := by
    rw [UInt64.lt_iff_toNat_lt]
    omega
  have heof : u.table.uploadEof id buffered = ((u.table.fail id).1, (u.table.fail id).2, .truncated) := by
    simp [Exchanges.uploadEof, hx, hknown, hlt]
  have hfail : (u.table.fail id).2 = [.reset id] := by
    simp [Exchanges.fail, hx, hlive]
  rw [heof, hfail]
  exact ⟨rfl, Exchanges.lookup_fail_self _ _⟩

/-- The end of the response. -/
theorem Inv.whole {recv : Except StreamError (ℕ × Bool)} {k : ℕ} (h : u.Inv id n S m)
    (hlast : (u.table.readBody id recv).2.2 = .last k) :
    ∃ hd, u.head = some hd ∧ (bodyCheckApplies m hd.status = true → ∀ c, hd.cl = some c → c ≤ u.received + k) := by
  have hreads := Exchanges.readBody_spec u.table id recv
  have hlong {x : Exch O} {status : ℕ} {cl : Option ℕ} {delivered : UInt64} {c : ℕ}
      (hmethod : x.method = m) (happlies : bodyCheckApplies m status = true)
      (hok : Exchanges.isShort x.method status cl delivered = false) (hc : cl = some c) : c ≤ delivered.toNat := by
    simp only [Exchanges.isShort, hmethod, happlies, Bool.true_and, hc, Option.any_some, decide_eq_false_iff_not,
      Nat.not_lt] at hok
    exact hok
  generalize u.table.readBody id recv = r at hreads hlast
  cases hreads with
  | waits => cases hlast
  | fails => cases hlast
  | data => cases hlast
  | @ended x status cl delivered hx hdown hok =>
    cases hlast
    obtain ⟨hm, hbody⟩ := h.response x hx
    obtain ⟨hd, hhead, rfl, rfl, hle⟩ := hbody _ _ _ _ hdown
    exact ⟨hd, hhead, fun happlies c hc => (hlong hm happlies hok hc).trans hle⟩
  | @last x status cl delivered k hx hdown hrecv hok =>
    cases hlast
    obtain ⟨hm, hbody⟩ := h.response x hx
    obtain ⟨hd, hhead, rfl, rfl, hle⟩ := hbody _ _ _ _ hdown
    refine ⟨hd, hhead, fun happlies c hc => ?_⟩
    have hle' := hlong hm happlies hok hc
    have hadd := toNat_add_le delivered k
    omega

end Upload

/-- **Uploads are accounted for.** A request is opened with a length of `n`. After every run:
the bytes that the transport took are the first bytes of what the front has, at most `n`; it
took one FIN, with the last of the `n` bytes, or none. An answer of `k` bytes says how many of
a slice were taken; it is the whole slice once the `n` bytes are reached, and no byte behind
them is sent; after that every answer is `Done`. No slice is answered with zero bytes, and the
gateway's loop ends. The end of the front's bytes resets a request that lacks some, and a
response ends only if it is as long as it said. -/
theorem upload_accounted {t₀ t : Exchanges O} {conn id n : ℕ} {head : ReqHead} {owner : O} {calls : List XCall}
    {S : List UInt8} {as : List (XStep O)} {u : Upload O} (hbody : head.body = .known n) (hpos : 0 < n)
    (hn : n < 2 ^ 64) (hopen : t₀.openReq conn head owner (some id) true = (t, calls, .ok id))
    (hrun : Run (Upload.step id) (Upload.Offers id S) ⟨t, 0, [], [], none, 0⟩ as u) :
    u.sent <+: S.take n ∧
    (u.fins = [] ∧ u.sent.length < n ∨ u.fins = [n] ∧ u.sent.length = n) ∧
    (∀ data fin finished sent, u.table.Honest id data fin sent →
      (∀ k, (u.table.sendBody id data fin finished sent).2.2 = .accepted k →
        k ≤ data.length ∧ (u.table.took id data fin finished sent).1 = data.take (min k (n - u.sent.length)) ∧
          (n - u.sent.length ≤ k → k = data.length)) ∧
      (u.sent.length = n → (u.table.sendBody id data fin finished sent).2.2 = .done ∧
        u.table.took id data fin finished sent = ([], false)) ∧
      (data ≠ [] → (u.table.sendBody id data fin finished sent).2.2 ≠ .accepted 0)) ∧
    (∀ rx turns, (∀ a ∈ turns, a.Honest) → rx.length ≤ turns.length → (u.table.upload id rx turns).isSome) ∧
    (∀ x buffered, u.table.lookup id = some x → x.up ≠ .done → buffered.toNat < n - u.sent.length →
      (u.table.uploadEof id buffered).2 = ([.reset id], .truncated) ∧
        (u.table.uploadEof id buffered).1.lookup id = none) ∧
    ∀ recv k, (u.table.readBody id recv).2.2 = .last k →
      ∃ h, u.head = some h ∧
        (bodyCheckApplies head.method h.status = true → ∀ c, h.cl = some c → c ≤ u.received + k) := by
  have h : u.Inv id n S head.method :=
    hrun.invariant (fun _ _ _ hinv hoffers hstep => hinv.step hoffers hstep) (Upload.inv_open hbody hpos hn hopen S)
  refine ⟨h.sent, ?_, fun data fin finished sent hhonest => ?_, fun rx turns hturns hlen => ?_,
    fun x buffered hx hup hshort => h.truncated hx hup hshort, fun recv k hlast => h.whole hlast⟩
  · rcases h.progress with ⟨x, r, -, -, -, hleft, hlen, -, hnone⟩ | ⟨-, hend⟩
    · exact Or.inl ⟨hnone, by omega⟩
    · exact hend
  · obtain ⟨haccepted, hfull⟩ := h.answered finished hhonest
    exact ⟨haccepted, hfull, (Exchanges.sendBody_sending h.sending finished hhonest).2⟩
  · exact Exchanges.upload_ends h.sending hturns hlen

/-- The head of a request with three bytes. -/
def threeBytes : ReqHead :=
  ⟨ascii "PUT", ⟨ascii "https", ascii "a.b", ascii "/"⟩, [], none, none, none, none, [], .known 3⟩

/-- The table with this request. -/
def opened : Exchanges Unit := ((∅ : Exchanges Unit).openReq 1 threeBytes () (some 7) true).1

/-- An upload in two slices, the second one longer than the request. -/
theorem upload_accounted_slices :
    ∃ u : Upload Unit, Run (Upload.step 7) (Upload.Offers 7 [1, 2, 3, 4]) ⟨opened, 0, [], [], none, 0⟩
      [.sendBody 7 [1, 2] false (.ok ()) (.ok 1), .sendBody 7 [2, 3, 4] false (.ok ()) (.ok 2)] u ∧
      u.taken = 4 ∧ u.sent = [1, 2, 3] ∧ u.sent <+: [1, 2, 3, 4].take 3 ∧ (u.fins = [3] ∧ u.sent.length = 3) := by
  refine Run.exists_and (.cons (fun _ => ⟨by decide, by rintro x d f e k ⟨⟩ ⟨⟩ ⟨⟩; decide⟩) rfl <|
    .cons (fun _ => ⟨by decide, by rintro x d f e k ⟨⟩ ⟨⟩ ⟨⟩; decide⟩) rfl <| .nil _) fun hrun => ?_
  have hopen : (∅ : Exchanges Unit).openReq 1 threeBytes () (some 7) true = (opened, _, .ok 7) := rfl
  obtain ⟨hsent, hfins, -⟩ := upload_accounted (n := 3) rfl (by decide) (by decide) hopen hrun
  exact ⟨rfl, rfl, hsent, hfins.resolve_left fun h => by cases h.1⟩

/-- **Bytes behind the length that come in a slice of their own** are not reported as accepted. -/
theorem late_excess_is_done :
    ∃ u : Upload Unit, Run (Upload.step 7) (Upload.Offers 7 [1, 2, 3, 4]) ⟨opened, 0, [], [], none, 0⟩
      [.sendBody 7 [1, 2, 3] false (.ok ()) (.ok 3)] u ∧ [4] <+: [1, 2, 3, 4].drop u.taken ∧
      (u.table.sendBody 7 [4] false (.ok ()) (.ok 1)).2.2 = .done := by
  refine ⟨_, .cons (fun _ => ⟨by decide, ?_⟩) rfl (.nil _), by decide, rfl⟩
  rintro x d f e k ⟨⟩ ⟨⟩ ⟨⟩
  decide

end MqProxy.Client
