import MqProxy.Client.Exchange
import MqProxy.Library.Table

/-!
# What the operations of the exchange core do

One lemma for each operation of `Exchanges`, for the modules that build on the core. An
operation on a request leaves the others as they are. `Sends` lists what a `send_body` can
come to, together with the bytes and the FIN that the transport takes; it rests on the
transport being `Honest`: it takes no more bytes than it is given.

`owner` is the table as its users see it: who owns which request.
-/

namespace MqProxy.Client

open MqProxy.Http MqProxy.Library
open MqProxy.Runtime (StreamError)

variable {O : Type}

namespace Exchanges

/-- Who owns a request. -/
def owner (t : Exchanges O) (id : ℕ) : Option O := (t.lookup id).map Exch.owner

variable (t : Exchanges O)

theorem owner_erase (id i : ℕ) : owner (t.erase id) i = if i = id then none else t.owner i := by
  rw [owner, lookup_erase_eq_ite]
  split <;> rfl

theorem owner_insert (id i : ℕ) (x : Exch O) :
    owner (t.insert id x) i = if i = id then some x.owner else t.owner i := by
  rw [owner, lookup_insert_eq_ite]
  split <;> rfl

/-- An exchange that moves on keeps its owner. -/
theorem owner_insert_same {t : Exchanges O} {id : ℕ} {x y : Exch O} (hx : t.lookup id = some x)
    (hy : y.owner = x.owner) (i : ℕ) : owner (t.insert id y) i = t.owner i := by
  rw [owner_insert]
  split
  · next h => rw [h, owner, hx, hy, Option.map_some]
  · rfl

theorem lookup_fail (id i : ℕ) : (t.fail id).1.lookup i = if i = id then none else t.lookup i := by
  unfold fail
  split
  · next hx =>
    split
    · next h => rw [h, hx]
    · rfl
  · exact lookup_erase_eq_ite t id i

theorem lookup_fail_self (id : ℕ) : (t.fail id).1.lookup id = none := by
  rw [lookup_fail, if_pos rfl]

theorem owner_fail (id i : ℕ) : (t.fail id).1.owner i = if i = id then none else t.owner i := by
  rw [owner, lookup_fail]
  split <;> rfl

/-! ### Sending -/

/-- What the transport takes of a `send_body`: the bytes, and whether the FIN. -/
def took (id : ℕ) (data : List UInt8) (fin : Bool) (finished : Except StreamError Unit)
    (sent : Except StreamError ℕ) : List UInt8 × Bool :=
  match (t.lookup id).bind fun x => toSend x.up data fin with
  | none => ([], false)
  | some (d, f, _) =>
    if d = [] then ([], f && finished.toBool)
    else
      match sent with
      | .ok k => (d.take k, f && k = d.length)
      | .error _ => ([], false)

/-- The transport takes no more than it is given. -/
def Honest (id : ℕ) (data : List UInt8) (fin : Bool) (sent : Except StreamError ℕ) : Prop :=
  ∀ x d f e k, t.lookup id = some x → toSend x.up data fin = some (d, f, e) → sent = .ok k → k ≤ d.length

end Exchanges

/-- A call that neither opens nor resets a request. -/
def XCall.quiet : XCall → Bool
  | .openRequest _ (some _) => false
  | .reset _ => false
  | _ => true

/-- The answers of `read_head` after which the exchange is gone. -/
def HeadOut.ends : HeadOut → Bool
  | .fail _ => true
  | _ => false

/-- The answers of `read_body` after which the exchange is gone. -/
def BodyOut.ends : BodyOut → Bool
  | .last _ => true
  | .fail => true
  | _ => false

/-- The answers of `upload_eof` after which the exchange is gone. -/
def EofOut.ends : EofOut → Bool
  | .truncated => true
  | .complete => false

/-- What is left to upload. -/
def Up.less : Up → ℕ → Up
  | .known remaining, k => .known (remaining - UInt64.ofNat k)
  | up, _ => up

open Exchanges in
/-- **What a `send_body` can come to**: the exchange, the bytes and the FIN that the transport
takes, and the answer. -/
inductive Sends (x : Exch O) (data : List UInt8) (fin : Bool) : Exch O → List UInt8 × Bool → SendOut → Prop
  /-- The upload is over. -/
  | ceased (hup : x.up = .done) : Sends x data fin x ([], false) .done
  /-- There is nothing to send. -/
  | nothing {e : ℕ} (hsend : toSend x.up data fin = some ([], false, e)) : Sends x data fin x ([], false) (.accepted 0)
  /-- The transport is blocked. -/
  | held (hup : x.up ≠ .done) : Sends x data fin x ([], false) .blocked
  /-- The transport takes some of it. -/
  | part {d : List UInt8} {f : Bool} {e k : ℕ} (hsend : toSend x.up data fin = some (d, f, e)) (hpos : 0 < k)
      (hle : k ≤ d.length) (hmore : ¬(f = true ∧ k = d.length)) :
      Sends x data fin { x with up := x.up.less k } (d.take k, false) (.accepted k)
  /-- The transport takes the last of it, and the FIN. -/
  | last {d : List UInt8} {e : ℕ} (hsend : toSend x.up data fin = some (d, true, e)) :
      Sends x data fin { x with up := .done } (d, true) (.accepted (d.length + e))
  /-- The request is reset. -/
  | broken (hup : x.up ≠ .done) :
      Sends x data fin { x with live := false, up := .done, down := .failed } ([], false) .done

namespace Exchanges

variable {t : Exchanges O} {id : ℕ}

theorem sendBody_none (hx : t.lookup id = none) (data : List UInt8) (fin : Bool) (finished : Except StreamError Unit)
    (sent : Except StreamError ℕ) :
    t.sendBody id data fin finished sent = (t, [], .done) ∧ t.took id data fin finished sent = ([], false) := by
  simp [sendBody, took, hx]

/-- **What `send_body` does.** -/
theorem sendBody_spec {x : Exch O} {data : List UInt8} {fin : Bool} {sent : Except StreamError ℕ}
    (hx : t.lookup id = some x) (finished : Except StreamError Unit) (hhonest : t.Honest id data fin sent) :
    ∃ y, Sends x data fin y (t.took id data fin finished sent) (t.sendBody id data fin finished sent).2.2 ∧
      ((t.sendBody id data fin finished sent).1 = t ∧ y = x ∨
        (t.sendBody id data fin finished sent).1 = t.insert id y) := by
  have hbound := fun d f e k => hhonest x d f e k hx
  simp only [sendBody, took, hx, Option.bind_some]
  cases hsend : toSend x.up data fin with
  | none =>
    have hup : x.up = .done := by
      unfold toSend at hsend
      split at hsend
      · assumption
      · cases hsend
      · cases hsend
    exact ⟨x, .ceased hup, Or.inl ⟨rfl, rfl⟩⟩
  | some p =>
    obtain ⟨d, f, e⟩ := p
    have hup : x.up ≠ .done := by
      intro hdone
      rw [hdone] at hsend
      cases hsend
    dsimp only
    by_cases hd : d = []
    · subst hd
      cases f with
      | false => exact ⟨x, by simpa using .nothing hsend, by simp⟩
      | true =>
        cases finished with
        | ok u =>
          refine ⟨{ x with up := .done }, ?_, Or.inr ?_⟩
          · simpa [Except.map, Except.toBool] using Sends.last hsend
          · simp [Except.map]
        | error err =>
          cases err with
          | blocked => exact ⟨x, .held hup, Or.inl ⟨rfl, rfl⟩⟩
          | stale => exact ⟨x, .held hup, Or.inl ⟨rfl, rfl⟩⟩
          | reset => exact ⟨_, .broken hup, Or.inr rfl⟩
          | conn => exact ⟨_, .broken hup, Or.inr rfl⟩
    · have hsome : ¬(d = [] ∧ (!f) = true) := fun h => hd h.1
      simp only [if_neg hsome, if_neg hd]
      cases sent with
      | ok k =>
        have hle := hbound d f e k hsend rfl
        dsimp only
        by_cases hk : k = 0
        · have hlen : k ≠ d.length := by
            have : d.length ≠ 0 := by simpa using hd
            omega
          have hzero : k = 0 ∧ d ≠ [] := ⟨hk, hd⟩
          simp only [if_pos hzero]
          refine ⟨x, ?_, by simp⟩
          simpa [hk, hk ▸ hlen] using Sends.held hup
        · have hpos : ¬(k = 0 ∧ d ≠ []) := fun h => hk h.1
          simp only [if_neg hpos]
          by_cases hlast : f = true ∧ k = d.length
          · simp only [if_pos hlast]
            refine ⟨{ x with up := .done }, ?_, Or.inr rfl⟩
            obtain ⟨rfl, rfl⟩ := hlast
            simpa using Sends.last hsend
          · simp only [if_neg hlast]
            refine ⟨{ x with up := x.up.less k }, ?_, Or.inr ?_⟩
            · have hfin : (f && decide (k = d.length)) = false := by
                rw [Bool.and_eq_false_iff]
                by_cases hf : f = true
                · exact Or.inr (decide_eq_false fun hk => hlast ⟨hf, hk⟩)
                · exact Or.inl (Bool.not_eq_true _ ▸ hf)
              rw [hfin]
              exact .part hsend (Nat.pos_of_ne_zero hk) hle hlast
            · cases x.up <;> rfl
      | error err =>
        cases err with
        | blocked => exact ⟨x, .held hup, Or.inl ⟨rfl, rfl⟩⟩
        | stale => exact ⟨x, .held hup, Or.inl ⟨rfl, rfl⟩⟩
        | reset => exact ⟨_, .broken hup, Or.inr rfl⟩
        | conn => exact ⟨_, .broken hup, Or.inr rfl⟩

/-- `send_body`, as the request sees it. -/
theorem sendBody_cases {data : List UInt8} {fin : Bool} {sent : Except StreamError ℕ}
    (finished : Except StreamError Unit) (hhonest : t.Honest id data fin sent) :
    (t.lookup id = none ∧ (t.sendBody id data fin finished sent).1.lookup id = none ∧
      (t.sendBody id data fin finished sent).2.2 = .done ∧ t.took id data fin finished sent = ([], false)) ∨
    ∃ x y, t.lookup id = some x ∧ (t.sendBody id data fin finished sent).1.lookup id = some y ∧
      Sends x data fin y (t.took id data fin finished sent) (t.sendBody id data fin finished sent).2.2 := by
  cases hx : t.lookup id with
  | none =>
    obtain ⟨hsend, htook⟩ := sendBody_none hx data fin finished sent
    rw [hsend]
    exact Or.inl ⟨rfl, hx, rfl, htook⟩
  | some x =>
    obtain ⟨y, hsends, htable⟩ := sendBody_spec hx finished hhonest
    refine Or.inr ⟨x, y, rfl, ?_, hsends⟩
    rcases htable with ⟨htable, rfl⟩ | htable
    · rw [htable]
      exact hx
    · rw [htable]
      exact AList.lookup_insert _

/-- The table after a `send_body`. -/
theorem sendBody_table (t : Exchanges O) (id : ℕ) (data : List UInt8) (fin : Bool) (finished : Except StreamError Unit)
    (sent : Except StreamError ℕ) :
    (t.sendBody id data fin finished sent).1 = t ∨
    ∃ x y, t.lookup id = some x ∧ (t.sendBody id data fin finished sent).1 = t.insert id y ∧ y.owner = x.owner ∧
      y.method = x.method ∧ (y.down = x.down ∨ y.down = .failed) := by
  unfold sendBody
  split
  · exact Or.inl rfl
  next x hx =>
    split
    · exact Or.inl rfl
    dsimp only
    split
    · exact Or.inl rfl
    split
    · split
      · exact Or.inl rfl
      · split <;> exact Or.inr ⟨x, _, hx, rfl, rfl, rfl, Or.inl rfl⟩
    · exact Or.inl rfl
    · exact Or.inl rfl
    · exact Or.inr ⟨x, _, hx, rfl, rfl, rfl, Or.inr rfl⟩
    · exact Or.inr ⟨x, _, hx, rfl, rfl, rfl, Or.inr rfl⟩

theorem lookup_sendBody_ne (t : Exchanges O) {id i : ℕ} (hi : i ≠ id) (data : List UInt8) (fin : Bool)
    (finished : Except StreamError Unit) (sent : Except StreamError ℕ) :
    (t.sendBody id data fin finished sent).1.lookup i = t.lookup i := by
  rcases sendBody_table t id data fin finished sent with h | ⟨x, y, -, h, -⟩
  · rw [h]
  · rw [h, AList.lookup_insert_ne hi]

theorem owner_sendBody (t : Exchanges O) (id : ℕ) (data : List UInt8) (fin : Bool) (finished : Except StreamError Unit)
    (sent : Except StreamError ℕ) (i : ℕ) : (t.sendBody id data fin finished sent).1.owner i = t.owner i := by
  rcases sendBody_table t id data fin finished sent with h | ⟨x, y, hx, h, howner, -⟩
  · rw [h]
  · rw [h, owner_insert_same hx howner]

/-! ### The other operations -/

/-- What an operation does to the owners: the request goes if the answer ends it. -/
def Settles {β : Type} (ends : β → Bool) (t : Exchanges O) (id : ℕ) (r : Exchanges O × List XCall × β) : Prop :=
  ∀ i, r.1.owner i = if ends r.2.2 ∧ i = id then none else t.owner i

theorem settles_uploadEof (t : Exchanges O) (id : ℕ) (buffered : UInt64) :
    Settles EofOut.ends t id (t.uploadEof id buffered) := by
  intro i
  unfold uploadEof
  split
  · split <;> simp [EofOut.ends, owner_fail]
  · simp [EofOut.ends]

theorem owner_onEvent (t : Exchanges O) (ev : XEvent) (i : ℕ) : (t.onEvent ev).1.owner i = t.owner i := by
  cases ev with
  | readable id => rfl
  | writable id => rfl
  | closed id =>
    simp only [onEvent]
    split
    · rfl
    · next x hx => exact owner_insert_same hx (by rfl) i

/-- **What a `read_head` does**: the table, the calls and the answer. -/
inductive ReadsHead (t : Exchanges O) (id : ℕ) (fields : List Field) : Exchanges O × List XCall × HeadOut → Prop
  | waits {calls : List XCall} (hcalls : ∀ c ∈ calls, c.quiet = true) : ReadsHead t id fields (t, calls, .wait)
  | fails {calls : List XCall} (hcalls : ∀ c ∈ calls, c.quiet = true) (r : Reject) :
      ReadsHead t id fields ((t.fail id).1, calls ++ (t.fail id).2, .fail r)
  | head {x : Exch O} {h : RespHead} (fin : Bool) (hx : t.lookup id = some x) (hdown : x.down = .awaitHead)
      (hcollect : collect fields = some h) :
      ReadsHead t id fields (t.insert id { x with down := .body h.status h.cl 0 fin }, [.recvHeaders id], .head h)

theorem readHead_spec (t : Exchanges O) (id : ℕ) (fields : List Field) (recv : Except StreamError Bool) :
    ReadsHead t id fields (t.readHead id fields recv) := by
  have hrecv : ∀ c ∈ [XCall.recvHeaders id], c.quiet = true := by simp [XCall.quiet]
  have hnone : ∀ c ∈ ([] : List XCall), c.quiet = true := List.forall_mem_nil _
  unfold readHead
  dsimp only
  split
  · next hx =>
    have hfail : t.fail id = (t, []) := by rw [fail, hx]
    have hfails : ReadsHead t id fields ((t.fail id).1, [] ++ (t.fail id).2, _) := .fails hnone .upstreamReset
    rw [hfail] at hfails
    exact hfails
  next x hx =>
    split
    · next hdown =>
      split
      · split
        · exact .fails hrecv _
        · next hcollect => exact .head _ hx hdown hcollect
      · exact .waits hrecv
      · exact .waits hrecv
      · exact .fails hrecv _
      · exact .fails hrecv _
    · exact .fails hnone _
    · exact .fails hnone _
    · exact .waits hnone

theorem settles_readHead (t : Exchanges O) (id : ℕ) (fields : List Field) (recv : Except StreamError Bool) :
    Settles HeadOut.ends t id (t.readHead id fields recv) := by
  have hreads := readHead_spec t id fields recv
  intro i
  generalize t.readHead id fields recv = r at hreads ⊢
  cases hreads with
  | waits => simp [HeadOut.ends]
  | fails => simp [HeadOut.ends, owner_fail]
  | head fin hx => simpa [HeadOut.ends] using owner_insert_same hx (by rfl) i

/-- **What a `read_body` does**: the table, the calls and the answer. -/
inductive ReadsBody (t : Exchanges O) (id : ℕ) (recv : Except StreamError (ℕ × Bool)) :
    Exchanges O × List XCall × BodyOut → Prop
  | waits {calls : List XCall} (hcalls : ∀ c ∈ calls, c.quiet = true) : ReadsBody t id recv (t, calls, .wait)
  | fails {calls : List XCall} (hcalls : ∀ c ∈ calls, c.quiet = true) :
      ReadsBody t id recv ((t.fail id).1, calls ++ (t.fail id).2, .fail)
  | data {x : Exch O} {status : ℕ} {cl : Option ℕ} {delivered : UInt64} {n : ℕ} (hx : t.lookup id = some x)
      (hdown : x.down = .body status cl delivered false) (hrecv : recv = .ok (n, false)) (hpos : n ≠ 0) :
      ReadsBody t id recv
        (t.insert id { x with down := .body status cl (delivered + UInt64.ofNat n) false }, [.recvBody id], .data n)
  | ended {x : Exch O} {status : ℕ} {cl : Option ℕ} {delivered : UInt64} (hx : t.lookup id = some x)
      (hdown : x.down = .body status cl delivered true) (hlong : isShort x.method status cl delivered = false) :
      ReadsBody t id recv (t.erase id, if x.up = .done then [] else [.reset id], .last 0)
  | last {x : Exch O} {status : ℕ} {cl : Option ℕ} {delivered : UInt64} {n : ℕ} (hx : t.lookup id = some x)
      (hdown : x.down = .body status cl delivered false) (hrecv : recv = .ok (n, true))
      (hlong : isShort x.method status cl (delivered + UInt64.ofNat n) = false) :
      ReadsBody t id recv (t.erase id, [.recvBody id] ++ if x.up = .done then [] else [.reset id], .last n)

theorem readBody_spec (t : Exchanges O) (id : ℕ) (recv : Except StreamError (ℕ × Bool)) :
    ReadsBody t id recv (t.readBody id recv) := by
  have hcall : ∀ c ∈ [XCall.recvBody id], c.quiet = true := by simp [XCall.quiet]
  have hnone : ∀ c ∈ ([] : List XCall), c.quiet = true := List.forall_mem_nil _
  unfold readBody
  split
  · next hx =>
    have hfail : t.fail id = (t, []) := by rw [fail, hx]
    have hfails : ReadsBody t id recv ((t.fail id).1, [] ++ (t.fail id).2, _) := .fails hnone
    rw [hfail] at hfails
    exact hfails
  next x hx =>
    split
    · exact .waits hnone
    · exact .waits hnone
    · exact .fails hnone
    · next hdown =>
      unfold endBody
      split
      · exact .fails hnone
      · next hshort => exact .ended hx hdown (Bool.not_eq_true _ ▸ hshort)
    · next hdown =>
      split
      · exact .waits hcall
      · exact .waits hcall
      · exact .fails hcall
      · exact .fails hcall
      · next n fin =>
        split
        · exact .waits hcall
        · next hsome =>
          cases fin with
          | true =>
            rw [if_pos rfl]
            unfold endBody
            split
            · exact .fails hcall
            · next hshort => exact .last hx hdown rfl (Bool.not_eq_true _ ▸ hshort)
          | false => exact .data hx hdown rfl fun h => hsome ⟨h, rfl⟩

theorem settles_readBody (t : Exchanges O) (id : ℕ) (recv : Except StreamError (ℕ × Bool)) :
    Settles BodyOut.ends t id (t.readBody id recv) := by
  have hreads := readBody_spec t id recv
  intro i
  generalize t.readBody id recv = r at hreads ⊢
  cases hreads with
  | waits => simp [BodyOut.ends]
  | fails => simp [BodyOut.ends, owner_fail]
  | data hx => simpa [BodyOut.ends] using owner_insert_same hx (by rfl) i
  | ended => simp [BodyOut.ends, owner_erase]
  | last => simp [BodyOut.ends, owner_erase]

/-- A request that is refused leaves the table as it was. -/
theorem openReq_error {t : Exchanges O} {conn : ℕ} {head : ReqHead} {o : O} {opened : Option ℕ} {sent : Bool}
    {r : Reject} (h : (t.openReq conn head o opened sent).2.2 = .error r) :
    (t.openReq conn head o opened sent).1 = t := by
  unfold openReq at h ⊢
  cases hwire : render head with
  | error r => rfl
  | ok wire =>
    rw [hwire] at h
    cases opened with
    | none => rfl
    | some id =>
      cases sent with
      | true => cases h
      | false => rfl

/-- A request that is opened is a new one of its owner. -/
theorem openReq_ok {t : Exchanges O} {conn : ℕ} {head : ReqHead} {o : O} {opened : Option ℕ} {sent : Bool} {id : ℕ}
    (h : (t.openReq conn head o opened sent).2.2 = .ok id) :
    opened = some id ∧ (t.openReq conn head o opened sent).1 =
      t.insert id ⟨o, head.method, true, upOf head.body, .awaitHead⟩ := by
  unfold openReq at h ⊢
  split at h
  · cases h
  next wire hwire =>
    split at h
    · cases h
    dsimp only at h
    split at h
    · next hsent =>
      cases h
      exact ⟨rfl, by simp [hsent]⟩
    · cases h

/-- The exchanges of some owners go. -/
theorem owner_drainOwner (t : Exchanges O) {order : List ℕ} (pred : O → Bool)
    (horder : ∀ id o, t.owner id = some o → id ∈ order) (i : ℕ) :
    (t.drainOwner order pred).1.owner i = (t.owner i).filter fun o => !pred o := by
  have hfold (ids : List ℕ) (s : Exchanges O × List XCall) :
      (ids.foldl (fun (s : Exchanges O × List XCall) id => ((s.1.fail id).1, s.2 ++ (s.1.fail id).2)) s).1.owner i =
        if i ∈ ids then none else s.1.owner i := by
    induction ids generalizing s with
    | nil => simp
    | cons id ids ih =>
      rw [List.foldl_cons, ih, owner_fail]
      by_cases h₁ : i ∈ ids <;> by_cases h₂ : i = id <;> simp [h₁, h₂]
  unfold drainOwner
  rw [hfold]
  cases ho : t.owner i with
  | none => simp
  | some o =>
    have hmem := horder i o ho
    obtain ⟨x, hx, rfl⟩ := Option.map_eq_some_iff.mp ho
    by_cases hpred : pred x.owner
    · simp [hmem, hx, hpred, Option.filter]
    · simp [hx, hpred, Option.filter]

end Exchanges

end MqProxy.Client
