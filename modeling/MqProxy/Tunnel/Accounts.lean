import MqProxy.Tunnel.UdpTables
import Mathlib.Data.Multiset.AddSub
import Mathlib.Data.Multiset.UnionInter
import Mathlib.Tactic.Abel

/-!
# Every request is accounted for

What was done to a socket is its `story`, read off the log: it is accepted, it is read and
answered to while it asks for something (`Asking`), its request is complete (`Waiting`), and
then it is refused or relayed, once (`Settled`). A `Ledger` says of two lists of sockets that those of
the one still ask and those of the other wait, that no socket is in them twice, and that
any other socket is done with. It has one rule for each thing that is done to a socket, and names
no table.

The tables of the client are such lists: a socket asks if it is in `ingress`, in `assocs` or with one
of the other fronts, and it waits if it is in `pending` or in `opens`. In the middle of a callback
some sockets are in no table (`Books`), and at its end none is. `Kept` is that with what the tables
of the sessions and the timers say (`Sound`), and each callback keeps it (`kept_next`). The same
lemmas say that no callback fails, since what an `expect` asks for is what the tables say.
-/

namespace MqProxy.Tunnel

open MqProxy.Runtime MqProxy.Wire MqProxy.Ingress MqProxy.Udp MqProxy.Library
open MqProxy.Server (Incoming drain MAX_SESSIONS_PER_CONN)
open MqProxy.Client (openRequest parseRequest_open)

/-! ### The story of a socket -/

/-- What is done to a socket by the client. -/
def Note.about (t : ℕ) : Note → Bool
  | .accepted t' => t' = t
  | .completed t' => t' = t
  | .consume t' _ => t' = t
  | .write t' _ => t' = t
  | .close t' => t' = t
  | .abort t' => t' = t
  | .relay t' _ _ _ _ => t' = t
  | .failed _ => false
  | .exit => false

/-- What was done to a socket. -/
def story (t : ℕ) (log : List Note) : List Note := log.filter (Note.about t)

/-- A socket is read, and answered to, before its request is complete. -/
def Asks (t : ℕ) (n : Note) : Prop := (∃ k, n = .consume t k) ∨ ∃ bytes, n = .write t bytes

/-- The request is not complete. -/
def Asking (t : ℕ) (l : List Note) : Prop := ∃ rest, l = .accepted t :: rest ∧ ∀ n ∈ rest, Asks t n

/-- The request is complete, and nothing was done since. -/
def Waiting (t : ℕ) (l : List Note) : Prop := ∃ before, Asking t before ∧ l = before ++ [.completed t]

/-- What is done to a socket whose request is complete: it is refused, with one reply or none; or a
relay is started after one reply or none; or it is aborted, if the relay does not start. -/
inductive Outcome (t : ℕ) : List Note → Prop
  | refused (reply : Option (List UInt8)) : Outcome t (reply.toList.map (.write t) ++ [.close t])
  | relayed (reply : Option (List UInt8)) (s : ℕ) (bytes : List UInt8) (fin : Bool) :
      Outcome t (reply.toList.map (.write t) ++ [.relay t s bytes fin true])
  | aborted (reply : Option (List UInt8)) (s : ℕ) (bytes : List UInt8) (fin : Bool) :
      Outcome t (reply.toList.map (.write t) ++ [.relay t s bytes fin false, .abort t])

/-- The request has had its outcome. -/
def Settled (t : ℕ) (l : List Note) : Prop := ∃ before after, Waiting t before ∧ Outcome t after ∧ l = before ++ after

/-- A socket that nothing is to be done to. -/
inductive Over (t : ℕ) (log : List Note) : Prop
  /-- It was never accepted. -/
  | unknown (h : story t log = [])
  /-- It failed, or a front has it to the end. -/
  | left (h : Asking t (story t log))
  /-- It was closed before its request was complete. -/
  | closed (before : List Note) (h : Asking t before) (hl : story t log = before ++ [.close t])
  /-- It failed while its request waited. -/
  | failed (h : Waiting t (story t log)) (hf : .failed t ∈ log)
  | settled (h : Settled t (story t log))

theorem story_append (t : ℕ) (log ns : List Note) : story t (log ++ ns) = story t log ++ story t ns := List.filter_append ..

theorem story_of_about {t : ℕ} {ns : List Note} (h : ∀ n ∈ ns, n.about t = true) : story t ns = ns :=
  List.filter_eq_self.mpr h

theorem story_of_other {t : ℕ} {ns : List Note} (h : ∀ n ∈ ns, n.about t = false) : story t ns = [] :=
  List.filter_eq_nil_iff.mpr fun n hn => by rw [h n hn]; exact Bool.false_ne_true

theorem Asks.about {t t' : ℕ} {n : Note} (h : Asks t n) : n.about t' = decide (t = t') := by
  rcases h with ⟨k, rfl⟩ | ⟨bytes, rfl⟩ <;> rfl

theorem asks_consume (t n : ℕ) : ∀ m ∈ [Note.consume t n], Asks t m := fun _ hm => .inl ⟨n, List.mem_singleton.mp hm⟩

theorem asks_write (t : ℕ) (bytes : List UInt8) : ∀ m ∈ [Note.write t bytes], Asks t m := fun _ hm =>
  .inr ⟨bytes, List.mem_singleton.mp hm⟩

theorem Asking.append {t : ℕ} {l ns : List Note} (h : Asking t l) (hns : ∀ n ∈ ns, Asks t n) : Asking t (l ++ ns) := by
  obtain ⟨rest, rfl, hrest⟩ := h
  refine ⟨rest ++ ns, rfl, fun n hn => ?_⟩
  rcases List.mem_append.mp hn with hn | hn
  · exact hrest n hn
  · exact hns n hn

/-- A story grows by what is done to the socket. -/
theorem story_grows {t : ℕ} {log ns : List Note} (h : ∀ n ∈ ns, n.about t = true) : story t (log ++ ns) = story t log ++ ns := by
  rw [story_append, story_of_about h]

/-- What is done to others leaves a socket as it is. -/
theorem Over.mono {t : ℕ} {log log' : List Note} (h : Over t log) (hstory : story t log' = story t log)
    (hsub : ∀ n ∈ log, n ∈ log') : Over t log' := by
  cases h with
  | unknown hs => exact .unknown (by rw [hstory, hs])
  | left hs => exact .left (by rw [hstory]; exact hs)
  | closed before hs hl => exact .closed before hs (by rw [hstory, hl])
  | failed hs hf => exact .failed (by rw [hstory]; exact hs) (hsub _ hf)
  | settled hs => exact .settled (by rw [hstory]; exact hs)

theorem Outcome.about {t : ℕ} {ns : List Note} (h : Outcome t ns) (t' : ℕ) : ∀ n ∈ ns, n.about t' = decide (t = t') := by
  cases h with
  | refused reply | relayed reply | aborted reply => cases reply <;> simp [Note.about]

/-! ### The ledger -/

/-- **The sockets that ask and those that wait**, by the log. -/
structure Ledger (asking waiting : Multiset ℕ) (n : ℕ) (log : List Note) : Prop where
  nodup : (asking + waiting).Nodup
  asks : ∀ t ∈ asking, Asking t (story t log)
  waits : ∀ t ∈ waiting, Waiting t (story t log)
  rest : ∀ t, t ∉ asking → t ∉ waiting → Over t log
  fresh : ∀ t, n ≤ t → story t log = []

namespace Ledger

variable {A W A' W' : Multiset ℕ} {n n' t : ℕ} {log ns : List Note}

theorem mono (h : Ledger A W n log) (hn : n ≤ n') : Ledger A W n' log :=
  { h with fresh := fun t ht => h.fresh t (hn.trans ht) }

theorem not_mem_of_fresh (h : Ledger A W n log) (ht : n ≤ t) : t ∉ A ∧ t ∉ W := by
  have hstory := h.fresh t ht
  constructor
  · intro hmem
    obtain ⟨rest, heq, -⟩ := h.asks t hmem
    rw [hstory] at heq
    cases heq
  · intro hmem
    obtain ⟨before, ⟨rest, rfl, -⟩, heq⟩ := h.waits t hmem
    rw [hstory] at heq
    cases heq

/-- **One socket at a time**: what is done to it leaves the others as they are. -/
theorem step (h : Ledger A W n log) (hns : ∀ t', ∀ m ∈ ns, m.about t' = decide (t = t')) (hnodup : (A' + W').Nodup)
    (hother : ∀ t', t' ≠ t → (t' ∈ A' ↔ t' ∈ A) ∧ (t' ∈ W' ↔ t' ∈ W)) (hn : n ≤ n') (ht : t < n')
    (hasks : t ∈ A' → Asking t (story t log ++ ns)) (hwaits : t ∈ W' → Waiting t (story t log ++ ns))
    (hover : story t (log ++ ns) = story t log ++ ns → t ∉ A' → t ∉ W' → Over t (log ++ ns)) :
    Ledger A' W' n' (log ++ ns) := by
  have hsame (t' : ℕ) (hne : t' ≠ t) : story t' (log ++ ns) = story t' log := by
    rw [story_append, story_of_other fun m hm => (hns t' m hm).trans (decide_eq_false hne.symm), List.append_nil]
  have hself : story t (log ++ ns) = story t log ++ ns := story_grows fun m hm => (hns t m hm).trans (decide_eq_true rfl)
  obtain ⟨-, hA, hW, hrest, hfresh⟩ := h
  refine ⟨hnodup, by grind, by grind, fun t' hA' hW' => ?_, by grind⟩
  by_cases hne : t' = t
  · subst hne
    exact hover hself hA' hW'
  · have hold := hrest t' (fun hm => hA' ((hother t' hne).1.mpr hm)) fun hm => hW' ((hother t' hne).2.mpr hm)
    exact hold.mono (hsame t' hne) fun m hm => List.mem_append_left _ hm

theorem lt_of_asks (h : Ledger A W n log) (ht : t ∈ A) : t < n := by
  by_contra hge
  exact (h.not_mem_of_fresh (Nat.not_lt.mp hge)).1 ht

theorem lt_of_waits (h : Ledger A W n log) (ht : t ∈ W) : t < n := by
  by_contra hge
  exact (h.not_mem_of_fresh (Nat.not_lt.mp hge)).2 ht

/-- A socket is in one of the lists, and once. -/
theorem nodup_of_cons_asking (h : Ledger (t ::ₘ A) W n log) : (t ∉ A ∧ t ∉ W) ∧ (A + W).Nodup := by
  have := h.nodup
  rwa [Multiset.cons_add, Multiset.nodup_cons, Multiset.mem_add, not_or] at this

theorem nodup_of_cons_waiting (h : Ledger A (t ::ₘ W) n log) : (t ∉ A ∧ t ∉ W) ∧ (A + W).Nodup := by
  have := h.nodup
  rwa [Multiset.add_cons, Multiset.nodup_cons, Multiset.mem_add, not_or] at this

/-- A socket is accepted. -/
theorem accept (h : Ledger A W n log) (ht : n ≤ t) : Ledger (t ::ₘ A) W (t + 1) (log ++ [.accepted t]) := by
  obtain ⟨hA, hW⟩ := h.not_mem_of_fresh ht
  refine h.step (t := t) (by simp [Note.about]) ?_ (by simp +contextual) (by omega) (by omega) (fun _ => ?_) (absurd · hW)
    (by simp)
  · rw [Multiset.cons_add, Multiset.nodup_cons, Multiset.mem_add, not_or]
    exact ⟨⟨hA, hW⟩, h.nodup⟩
  · rw [h.fresh t ht]
    exact ⟨[], rfl, List.forall_mem_nil _⟩

/-- A socket that asks is read or answered to. -/
theorem ask (h : Ledger A W n log) (ht : t ∈ A) (hns : ∀ m ∈ ns, Asks t m) : Ledger A W n (log ++ ns) := by
  refine h.step (t := t) (fun t' m hm => (hns m hm).about) h.nodup (by simp) le_rfl (h.lt_of_asks ht)
    (fun _ => (h.asks t ht).append hns) (fun hW => ?_) fun _ hno _ => absurd ht hno
  obtain ⟨A', rfl⟩ := Multiset.exists_cons_of_mem ht
  exact absurd hW h.nodup_of_cons_asking.1.2

/-- A socket that asks is closed. -/
theorem close (h : Ledger (t ::ₘ A) W n log) : Ledger A W n (log ++ [.close t]) := by
  obtain ⟨⟨hA, hW⟩, hnodup⟩ := h.nodup_of_cons_asking
  have ht : t ∈ t ::ₘ A := Multiset.mem_cons_self t A
  exact h.step (t := t) (by simp [Note.about]) hnodup (by simp +contextual) le_rfl (h.lt_of_asks ht) (absurd · hA)
    (absurd · hW) fun hself _ _ => .closed _ (h.asks t ht) hself

/-- A socket that asks is left to itself. -/
theorem drop (h : Ledger (t ::ₘ A) W n log) : Ledger A W n log := by
  obtain ⟨⟨hA, hW⟩, hnodup⟩ := h.nodup_of_cons_asking
  have ht : t ∈ t ::ₘ A := Multiset.mem_cons_self t A
  have hdrop : Ledger A W n (log ++ []) := h.step (t := t) (by simp) hnodup (by simp +contextual) le_rfl (h.lt_of_asks ht)
    (absurd · hA) (absurd · hW) fun hself _ _ => .left (by rw [hself, List.append_nil]; exact h.asks t ht)
  rwa [List.append_nil] at hdrop

/-- A request is complete. -/
theorem complete (h : Ledger (t ::ₘ A) W n log) : Ledger A (t ::ₘ W) n (log ++ [.completed t]) := by
  have ht : t ∈ t ::ₘ A := Multiset.mem_cons_self t A
  refine h.step (t := t) (by simp [Note.about]) ?_ (by simp +contextual) le_rfl (h.lt_of_asks ht)
    (absurd · h.nodup_of_cons_asking.1.1) (fun _ => ⟨_, h.asks t ht, rfl⟩) (by simp)
  rw [Multiset.add_cons, ← Multiset.cons_add]
  exact h.nodup

/-- **A request has its outcome.** -/
theorem settle (h : Ledger A (t ::ₘ W) n log) (hns : Outcome t ns) : Ledger A W n (log ++ ns) := by
  obtain ⟨⟨hA, hW⟩, hnodup⟩ := h.nodup_of_cons_waiting
  have ht : t ∈ t ::ₘ W := Multiset.mem_cons_self t W
  exact h.step (t := t) hns.about hnodup (by simp +contextual) le_rfl (h.lt_of_waits ht) (absurd · hA) (absurd · hW)
    fun hself _ _ => .settled ⟨_, ns, h.waits t ht, hns, hself⟩

/-- What is no business of a socket leaves it as it is. -/
theorem unseen {m : Note} (h : Ledger A W n log) (hm : ∀ t, m.about t = false) : Ledger A W n (log ++ [m]) := by
  have hstory (t : ℕ) : story t (log ++ [m]) = story t log := by
    have hnone : story t [m] = [] := story_of_other (by simpa using hm t)
    rw [story_append, hnone, List.append_nil]
  obtain ⟨hnodup, hA, hW, hrest, hfresh⟩ := h
  exact ⟨hnodup, by grind, by grind, fun t hA hW => (hrest t hA hW).mono (hstory t) fun m hm => List.mem_append_left _ hm,
    by grind⟩

/-- **A socket fails**, and is in no list any more. -/
theorem fail (h : Ledger A W n log) (t : ℕ) : Ledger (A.erase t) (W.erase t) n (log ++ [.failed t]) := by
  obtain ⟨hnodup, hA, hW, hrest, hfresh⟩ := h.unseen (m := .failed t) fun _ => rfl
  refine ⟨?_, fun t' hmem => hA t' (Multiset.mem_of_mem_erase hmem), fun t' hmem => hW t' (Multiset.mem_of_mem_erase hmem),
    fun t' hnoA hnoW => ?_, hfresh⟩
  · exact Multiset.nodup_of_le (add_le_add (Multiset.erase_le t A) (Multiset.erase_le t W)) hnodup
  · by_cases hmemA : t' ∈ A
    · exact .left (hA t' hmemA)
    · by_cases hmemW : t' ∈ W
      · -- it waited, so it is the one that failed
        have heq : t' = t := by
          by_contra hne
          exact hnoW ((Multiset.mem_erase_of_ne hne).mpr hmemW)
        exact .failed (hW t' hmemW) (by rw [heq]; simp)
      · exact hrest t' hmemA hmemW

end Ledger

namespace Client

variable {cfg : Cfg} {c c' : Client} {LA LW LA' LW' : Multiset ℕ} {t : ℕ} {ns : List Note} {sid : UInt32} {s s' : Session}

/-! ### The books -/

/-- The sockets that ask. -/
def asking (c : Client) : Multiset ℕ := (c.ingress.keys : Multiset ℕ) + (c.assocs.keys : Multiset ℕ) + (c.fronts : Multiset ℕ)

/-- The sockets that wait. -/
def waiting (c : Client) : Multiset ℕ := ((c.pending.map PendingOpen.tcp : List ℕ) : Multiset ℕ) + values Open.tcp c.opens

/-- **The books of the client**, with sockets that are in no table for the moment. -/
structure Books (LA LW : Multiset ℕ) (c : Client) : Prop where
  ledger : Ledger (LA + c.asking) (LW + c.waiting) c.nextId c.log
  streams : ∀ s o, c.opens.lookup s = some o → s < c.nextId

/-- Sockets change places, but nothing is done to them. -/
theorem Books.move (h : Books LA LW c) (hasking : LA' + c'.asking = LA + c.asking)
    (hwaiting : LW' + c'.waiting = LW + c.waiting) (hlog : c'.log = c.log) (hnext : c.nextId ≤ c'.nextId)
    (hstreams : ∀ s o, c'.opens.lookup s = some o → s < c'.nextId) : Books LA' LW' c' where
  ledger := by
    rw [hasking, hwaiting, hlog]
    exact h.ledger.mono hnext
  streams := hstreams

/-- A part of the client that has no sockets. -/
structure Quiet (c c' : Client) : Prop where
  ingress : c'.ingress = c.ingress
  assocs : c'.assocs.keys.Perm c.assocs.keys
  fronts : c'.fronts = c.fronts
  pending : c'.pending = c.pending
  opens : c'.opens = c.opens
  log : c'.log = c.log
  nextId : c.nextId ≤ c'.nextId

theorem Quiet.refl (c : Client) : Quiet c c := ⟨rfl, .refl _, rfl, rfl, rfl, rfl, le_rfl⟩

theorem Quiet.trans {c'' : Client} (h : Quiet c c') (h' : Quiet c' c'') : Quiet c c'' :=
  ⟨h'.ingress.trans h.ingress, h'.assocs.trans h.assocs, h'.fronts.trans h.fronts, h'.pending.trans h.pending,
    h'.opens.trans h.opens, h'.log.trans h.log, h.nextId.trans h'.nextId⟩

theorem Quiet.asking (h : Quiet c c') : c'.asking = c.asking := by
  rw [Client.asking, Client.asking, h.ingress, h.fronts, Multiset.coe_eq_coe.mpr h.assocs]

theorem Books.quiet (h : Books LA LW c) (hq : Quiet c c') : Books LA LW c' := by
  refine h.move (by rw [hq.asking]) (by rw [waiting, waiting, hq.pending, hq.opens]) hq.log hq.nextId fun s o hs => ?_
  rw [hq.opens] at hs
  exact (h.streams s o hs).trans_le hq.nextId

/-! ### Tables -/

theorem asking_eraseIngress {ing : Ingress} (ht : c.ingress.lookup t = some ing) :
    c.asking = t ::ₘ Client.asking { c with ingress := c.ingress.erase t } := by
  simp only [asking, coe_keys_of_lookup ht, ← Multiset.singleton_add]
  abel

theorem asking_eraseAssoc {assoc : Assoc} (ht : c.assocs.lookup t = some assoc) :
    c.asking = t ::ₘ Client.asking { c with assocs := c.assocs.erase t } := by
  simp only [asking, coe_keys_of_lookup ht, ← Multiset.singleton_add]
  abel

theorem asking_eraseFront (ht : t ∈ c.fronts) : c.asking = t ::ₘ Client.asking { c with fronts := c.fronts.erase t } := by
  have hfronts : (c.fronts : Multiset ℕ) = {t} + (c.fronts.erase t : Multiset ℕ) := by
    rw [Multiset.singleton_add, Multiset.cons_coe]
    exact Multiset.coe_eq_coe.mpr (List.perm_cons_erase ht)
  simp only [asking, hfronts, ← Multiset.singleton_add]
  abel

theorem mem_asking_of_ingress (h : (c.ingress.lookup t).isSome) : t ∈ c.asking := by
  have hmem : t ∈ c.ingress.keys := AList.mem_keys.mp (AList.lookup_isSome.mp h)
  simp only [asking, Multiset.mem_add, Multiset.mem_coe]
  exact .inl (.inl hmem)

theorem mem_asking_of_assocs (h : (c.assocs.lookup t).isSome) : t ∈ c.asking := by
  have hmem : t ∈ c.assocs.keys := AList.mem_keys.mp (AList.lookup_isSome.mp h)
  simp only [asking, Multiset.mem_add, Multiset.mem_coe]
  exact .inl (.inr hmem)

/-- A socket that is in no table for the moment. -/
theorem Books.out (h : Books (t ::ₘ LA) LW c) : t ∉ c.asking := fun hmem => by
  have hout := h.ledger
  rw [Multiset.cons_add] at hout
  exact hout.nodup_of_cons_asking.1.1 (Multiset.mem_add.mpr (.inr hmem))

/-- A socket that asks leaves its table. -/
theorem Books.take (h : Books LA LW c) (hasking : c.asking = t ::ₘ c'.asking) (hwaiting : c'.waiting = c.waiting)
    (hlog : c'.log = c.log) (hnext : c.nextId ≤ c'.nextId)
    (hstreams : ∀ s o, c'.opens.lookup s = some o → s < c'.nextId) : Books (t ::ₘ LA) LW c' :=
  h.move (by rw [hasking, Multiset.cons_add, Multiset.add_cons]) (by rw [hwaiting]) hlog hnext hstreams

theorem Books.takeIngress {ing : Ingress} (h : Books LA LW c) (ht : c.ingress.lookup t = some ing) :
    Books (t ::ₘ LA) LW { c with ingress := c.ingress.erase t } :=
  h.take (asking_eraseIngress ht) rfl rfl le_rfl h.streams

theorem Books.putIngress (h : Books (t ::ₘ LA) LW c) (ing : Ingress) :
    Books LA LW { c with ingress := c.ingress.insert t ing } := by
  have habsent : c.ingress.lookup t = none := Option.not_isSome_iff_eq_none.mp (h.out ∘ mem_asking_of_ingress)
  refine h.move ?_ rfl rfl le_rfl h.streams
  simp only [asking, coe_keys_insert_of_absent habsent, ← Multiset.singleton_add]
  abel

theorem Books.takeAssoc {assoc : Assoc} (h : Books LA LW c) (ht : c.assocs.lookup t = some assoc) :
    Books (t ::ₘ LA) LW { c with assocs := c.assocs.erase t } :=
  h.take (asking_eraseAssoc ht) rfl rfl le_rfl h.streams

theorem Books.putAssoc (h : Books (t ::ₘ LA) LW c) (assoc : Assoc) :
    Books LA LW { c with assocs := c.assocs.insert t assoc } := by
  have habsent : c.assocs.lookup t = none := Option.not_isSome_iff_eq_none.mp (h.out ∘ mem_asking_of_assocs)
  refine h.move ?_ rfl rfl le_rfl h.streams
  simp only [asking, coe_keys_insert_of_absent habsent, ← Multiset.singleton_add]
  abel

theorem Books.takeFront (h : Books LA LW c) (ht : t ∈ c.fronts) :
    Books (t ::ₘ LA) LW { c with fronts := c.fronts.erase t } :=
  h.take (asking_eraseFront ht) rfl rfl le_rfl h.streams

theorem Books.putFront (h : Books (t ::ₘ LA) LW c) : Books LA LW { c with fronts := t :: c.fronts } := by
  refine h.move ?_ rfl rfl le_rfl h.streams
  simp only [asking, ← Multiset.cons_coe, ← Multiset.singleton_add]
  abel

theorem Books.takePending (h : Books LA LW c) (gone keep : List PendingOpen) (hperm : c.pending.Perm (gone ++ keep)) :
    Books LA ((gone.map PendingOpen.tcp : List ℕ) + LW) { c with pending := keep } := by
  have hpending : ((c.pending.map PendingOpen.tcp : List ℕ) : Multiset ℕ) =
      ((gone.map PendingOpen.tcp : List ℕ) : Multiset ℕ) + ((keep.map PendingOpen.tcp : List ℕ) : Multiset ℕ) := by
    rw [Multiset.coe_add, ← List.map_append]
    exact Multiset.coe_eq_coe.mpr (hperm.map _)
  refine h.move rfl ?_ rfl le_rfl h.streams
  simp only [waiting, hpending]
  abel

theorem Books.putPending {o : PendingOpen} (h : Books LA (o.tcp ::ₘ LW) c) :
    Books LA LW { c with pending := c.pending ++ [o] } := by
  refine h.move rfl ?_ rfl le_rfl h.streams
  simp only [waiting, List.map_append, List.map_singleton, ← Multiset.coe_add, Multiset.coe_singleton,
    ← Multiset.singleton_add]
  abel

theorem Books.takeOpen {s : ℕ} {o : Open} (h : Books LA LW c) (hs : c.opens.lookup s = some o) :
    Books LA (o.tcp ::ₘ LW) { c with opens := c.opens.erase s } := by
  refine h.move rfl ?_ rfl le_rfl (forall_lookup_erase h.streams)
  simp only [waiting, values_of_lookup Open.tcp hs, ← Multiset.singleton_add]
  abel

theorem Books.putOpen {s : ℕ} {o : Open} (h : Books LA (o.tcp ::ₘ LW) c) (habsent : c.opens.lookup s = none)
    (hs : s < c.nextId) : Books LA LW { c with opens := c.opens.insert s o } := by
  refine h.move rfl ?_ rfl le_rfl (forall_lookup_insert h.streams hs)
  simp only [waiting, values_insert, erase_of_absent habsent, ← Multiset.singleton_add]
  abel

theorem Books.setOpen {s : ℕ} {o o' : Open} (h : Books LA LW c) (hs : c.opens.lookup s = some o) (htcp : o'.tcp = o.tcp) :
    Books LA LW { c with opens := c.opens.insert s o' } := by
  refine h.move rfl ?_ rfl le_rfl (forall_lookup_insert h.streams (h.streams s o hs))
  simp only [waiting, values_insert, values_of_lookup Open.tcp hs, htcp]

theorem Books.takeOpens (h : Books LA LW c) : Books LA (values Open.tcp c.opens + LW) { c with opens := ∅ } := by
  refine h.move rfl ?_ rfl le_rfl fun s o hs => ?_
  · have hempty : values Open.tcp (∅ : AList fun _ : ℕ => Open) = 0 := rfl
    simp only [waiting, hempty]
    abel
  · cases hs

/-! ### What is no business of the sockets -/

theorem quiet_endSession (c : Client) (sid : UInt32) (refused : Bool) : Quiet c (c.endSession sid refused) := by
  cases hs : c.sess.bySid.lookup sid with
  | none =>
    rw [endSession, hs]
    exact Quiet.refl c
  | some s =>
    obtain ⟨assocs, heq, hperm, -⟩ := endSession_spec hs refused
    rw [heq]
    cases s.phase with
    | awaitResp deadline rx => exact { Quiet.refl c with assocs := hperm }
    | pendingAuth queue => exact { Quiet.refl c with assocs := hperm }
    | «open» => exact { Quiet.refl c with assocs := hperm }

theorem quiet_foldl_endSession (sids : List UInt32) (c : Client) :
    Quiet c (sids.foldl (fun c sid => c.endSession sid false) c) := by
  induction sids generalizing c with
  | nil => exact Quiet.refl c
  | cons sid sids ih => exact (quiet_endSession c sid false).trans (ih _)

theorem quiet_endAssoc {assoc : Assoc} (ht : c.assocs.lookup t = some assoc) :
    Quiet { c with assocs := c.assocs.erase t } (c.endAssoc t) := by
  rw [Client.endAssoc, ht]
  exact quiet_foldl_endSession _ _

theorem isSome_endAssoc {t' : ℕ} (hne : t' ≠ t) (h : (c.assocs.lookup t').isSome) :
    ((c.endAssoc t).assocs.lookup t').isSome := by
  cases ht : c.assocs.lookup t with
  | none =>
    rw [Client.endAssoc, ht]
    exact h
  | some assoc =>
    have hmem : t' ∈ (c.assocs.erase t).keys := by
      refine AList.mem_keys.mp (AList.lookup_isSome.mp ?_)
      rw [AList.lookup_erase_ne hne]
      exact h
    exact AList.lookup_isSome.mpr (AList.mem_keys.mp ((quiet_endAssoc ht).assocs.mem_iff.mpr hmem))

/-- What the parser has done to the socket. -/
theorem feed_notes {tcp turns : ℕ} {udp written : Bool} {p p' : Parser} {rx : List UInt8} {fed : Fed} {notes : List Note}
    (h : feed tcp udp written turns p rx = some (fed, p', notes)) :
    ∃ asked, (∀ m ∈ asked, Asks tcp m) ∧ notes = asked ++ if fed = .closed then [.close tcp] else [] := by
  have hreply (n : ℕ) (bytes : List UInt8) : ∀ m ∈ [Note.consume tcp n, .write tcp bytes], Asks tcp m :=
    List.forall_mem_cons.mpr ⟨.inl ⟨n, rfl⟩, asks_write tcp bytes⟩
  induction turns generalizing p rx notes with
  | zero => cases h
  | succ turns ih =>
    rw [feed] at h
    split at h
    · cases h
      exact ⟨[], List.forall_mem_nil _, rfl⟩
    · cases h
      exact ⟨_, asks_consume tcp _, rfl⟩
    · cases h
      exact ⟨_, asks_consume tcp _, rfl⟩
    · next n bytes close _ _ =>
      dsimp only at h
      split at h
      · cases h
        exact ⟨_, hreply _ _, rfl⟩
      · obtain ⟨r, hfeed, heq⟩ := Option.map_eq_some_iff.mp h
        obtain ⟨fed', p'', notes'⟩ := r
        cases heq
        obtain ⟨asked, hasked, hnotes⟩ := ih hfeed
        refine ⟨[.consume tcp n, .write tcp bytes] ++ asked, fun m hm => ?_, ?_⟩
        swap
        · rw [List.append_assoc, ← hnotes]
        rcases List.mem_append.mp hm with hm | hm
        · exact hreply n bytes m hm
        · exact hasked m hm
    · cases h
      exact ⟨[], List.forall_mem_nil _, rfl⟩

/-! ### What is always kept -/

/-- **What holds between callbacks**, with sockets that are in no table for the moment. -/
structure Kept (cfg : Cfg) (LA LW : Multiset ℕ) (c : Client) : Prop extends Sound cfg c, Books LA LW c

/-- A step that does not fail, and keeps all of that. -/
abbrev Keeps (cfg : Cfg) (LA LW : Multiset ℕ) (r : Option Client) : Prop := ∃ c', r = some c' ∧ Kept cfg LA LW c'

variable (h : Kept cfg LA LW c)
include h

theorem Kept.quiet (hsound : Sound cfg c') (hq : Quiet c c') : Kept cfg LA LW c' :=
  ⟨hsound, h.toBooks.quiet hq⟩

/-- A step without a part in the sockets and the timers. -/
theorem Kept.same (hq : Quiet c c') (hholder : c'.holder = c.holder)
    (htimers : c'.timers = c.timers) (harmed : c'.armed = c.armed) (htables : Tables c'.assocs c'.sess c'.nextId) :
    Kept cfg LA LW c' :=
  h.quiet (h.mono hholder htimers harmed hq.nextId (fun _ ho => hq.pending ▸ ho) htables) hq

/-- A timer is armed that is not for a request that waits. -/
theorem Kept.armTimer (tm : Tm) {due : ℕ} (hq : Quiet c c')
    (hother : ∀ tm', tm' ≠ tm → c'.holder tm' = c.holder tm') (hheld : ∀ id, c'.holder tm = some id → id = c.nextId)
    (hkept : IsResp tm → c.holder tm = none ∧ c'.holder tm = some c.nextId)
    (htimers : c'.timers = c.timers.insert c.nextId tm) (harmed : c'.armed = c.armed.insert c.nextId due)
    (hnext : c.nextId < c'.nextId) (htables : Tables c'.assocs c'.sess c'.nextId) : Kept cfg LA LW c' :=
  h.quiet (h.arm tm hother hheld hkept htimers harmed hnext (fun _ ho => .inl (hq.pending ▸ ho)) htables) hq

theorem Kept.ask (ht : t ∈ LA ∨ t ∈ c.asking) (hns : ∀ m ∈ ns, Asks t m) : Kept cfg LA LW (c.note ns) :=
  ⟨h.note ns, h.ledger.ask (Multiset.mem_add.mpr ht) hns, h.streams⟩

omit h

theorem Kept.shut (h : Kept cfg (t ::ₘ LA) LW c) : Kept cfg LA LW (c.note [.close t]) :=
  ⟨h.note _, by have := h.ledger; rw [Multiset.cons_add] at this; exact this.close, h.streams⟩

theorem Kept.drop (h : Kept cfg (t ::ₘ LA) LW c) : Kept cfg LA LW c :=
  ⟨h.toSound, by have := h.ledger; rw [Multiset.cons_add] at this; exact this.drop, h.streams⟩

theorem Kept.complete (h : Kept cfg (t ::ₘ LA) LW c) : Kept cfg LA (t ::ₘ LW) (c.note [.completed t]) := by
  refine ⟨h.note _, ?_, h.streams⟩
  have := h.ledger
  rw [Multiset.cons_add] at this
  rw [Multiset.cons_add]
  exact this.complete

theorem Kept.settle (h : Kept cfg LA (t ::ₘ LW) c) (hns : Outcome t ns) : Kept cfg LA LW (c.note ns) :=
  ⟨h.note ns, by have := h.ledger; rw [Multiset.cons_add] at this; exact this.settle hns, h.streams⟩

theorem Kept.refuse (h : Kept cfg LA (t ::ₘ LW) c) (kind : IngressKind) (e : TcpErr) : Kept cfg LA LW (c.refuse t kind e) :=
  h.settle (.refused _)

theorem Kept.foldl_refuse {α : Type} (os : List α) (tcp : α → ℕ) (kind : α → IngressKind) (e : TcpErr)
    (h : Kept cfg LA ((os.map tcp : List ℕ) + LW) c) : Kept cfg LA LW (os.foldl (fun c o => c.refuse (tcp o) (kind o) e) c) := by
  induction os generalizing c with
  | nil =>
    rw [List.map_nil, Multiset.coe_nil, zero_add] at h
    exact h
  | cons o os ih =>
    rw [List.map_cons, ← Multiset.cons_coe, Multiset.cons_add] at h
    exact ih (h.refuse (kind o) e)

include h

theorem Kept.openStream (a : Answers) : Kept cfg LA LW (c.openStream a).2 :=
  h.quiet (h.toSound.openStream a) { Quiet.refl c with nextId := Nat.le_succ _ }

theorem Kept.close : Kept cfg LA LW c.close := h.quiet h.toSound.close { Quiet.refl c with }

/-- A socket is read no longer, and its timer is over. -/
theorem Kept.takeIngress {ing : Ingress} (ht : c.ingress.lookup t = some ing) :
    Kept cfg (t ::ₘ LA) LW (Client.cancel { c with ingress := c.ingress.erase t } ing.timer) :=
  ⟨h.eraseIngress (h.timer_of_ingress ht), (h.toBooks.takeIngress ht).quiet { Quiet.refl _ with }⟩

/-! ### Sessions -/

theorem Kept.endSession (sid : UInt32) (refused : Bool) : Kept cfg LA LW (c.endSession sid refused) :=
  h.quiet (h.toSound.endSession sid refused) (quiet_endSession ..)

theorem Kept.udpConnGone : Kept cfg LA LW c.udpConnGone :=
  h.quiet (h.foldl_endSession _) (quiet_foldl_endSession ..)

theorem Kept.endAssoc {assoc : Assoc} (ht : c.assocs.lookup t = some assoc) :
    Kept cfg (t ::ₘ LA) LW (c.endAssoc t) :=
  ⟨h.toSound.endAssoc t, (h.takeAssoc ht).quiet (quiet_endAssoc ht)⟩

theorem Kept.setUdp (avail : UdpAvail) : Kept cfg LA LW (c.setUdp avail) := by
  -- the associations that are still to end are there
  have hfold (tcps : List ℕ) (hnodup : tcps.Nodup) (c : Client) (h : Kept cfg LA LW c)
      (htcps : ∀ t ∈ tcps, (c.assocs.lookup t).isSome) :
      Kept cfg LA LW (tcps.foldl (fun c t => (c.endAssoc t).note [.close t]) c) := by
    induction tcps generalizing c with
    | nil => exact h
    | cons t tcps ih =>
      obtain ⟨hout, hnodup⟩ := List.nodup_cons.mp hnodup
      obtain ⟨assoc, hassoc⟩ := Option.isSome_iff_exists.mp (htcps t List.mem_cons_self)
      refine ih hnodup _ (h.endAssoc hassoc).shut fun t' hmem => ?_
      exact isSome_endAssoc (fun heq => hout (heq ▸ hmem)) (htcps t' (List.mem_cons_of_mem _ hmem))
  have hset : Kept cfg LA LW { c with udp := avail } :=
    h.same { Quiet.refl c with } rfl rfl rfl h.tables
  rw [Client.setUdp]
  split
  · refine hfold _ c.assocs.keys_nodup _ hset fun t ht => ?_
    exact AList.lookup_isSome.mpr (AList.mem_keys.mp ht)
  · exact hset

/-- A session changes, but for what it is for and the timer that it waits for. -/
theorem Kept.putSession (hs : c.sess.bySid.lookup sid = some s) (hassoc : s'.assoc = s.assoc)
    (htarget : s'.target = s.target) (hstream : s'.stream = s.stream) (hphase : s'.phase.deadline = s.phase.deadline)
    (hfits : s'.Fits) : Kept cfg LA LW (c.putSession sid s') := by
  refine h.same { Quiet.refl c with } (funext fun tm => ?_) rfl rfl (h.tables.put hs hassoc htarget hstream hfits)
  have hold := holder_udpResp hs
  grind [holder_putSession]

theorem Kept.sessionSend (sid : UInt32) (payload : List UInt8) :
    Keeps cfg LA LW (c.sessionSend sid payload) := by
  rw [Client.sessionSend]
  cases hs : c.sess.bySid.lookup sid with
  | none => exact ⟨c, rfl, h⟩
  | some s =>
    have hfits := h.tables.phases sid s hs
    dsimp only
    cases hphase : s.phase with
    | pendingAuth queue =>
      obtain ⟨queue', hqueue, hfits'⟩ := enqueue_fits (hfits.queue queue hphase) payload
      dsimp only
      rw [hqueue]
      refine ⟨_, rfl, h.putSession hs rfl rfl rfl (by rw [hphase]; rfl) ⟨?_, ?_⟩⟩
      · exact ⟨fun _ => ⟨queue', rfl⟩, fun _ => hfits.stream.mpr ⟨queue, hphase⟩⟩
      · intro q hq
        cases hq
        exact hfits'
    | awaitResp deadline rx => exact ⟨c, rfl, h⟩
    | «open» => exact ⟨c, rfl, h⟩

/-- **A session is asked for**, or ends; the others stay as they are. -/
theorem Kept.issue (a : Answers) (hs : c.sess.bySid.lookup sid = some s) (hnone : s.stream = none) :
    ∃ b c', c.issue a sid = some (b, c') ∧ Kept cfg LA LW c' ∧
      ∀ sid', sid' ≠ sid → c'.sess.bySid.lookup sid' = c.sess.bySid.lookup sid' := by
  have hended (c : Client) (sid' : UInt32) (hne : sid' ≠ sid) :
      (c.endSession sid false).sess.bySid.lookup sid' = c.sess.bySid.lookup sid' := by
    rw [lookup_endSession, if_neg hne]
  unfold Client.issue
  cases hconn : c.conn.isSome with
  | false => exact ⟨false, _, rfl, h.endSession sid false, hended c⟩
  | true =>
    rw [if_pos rfl]
    simp only [Client.openStream]
    by_cases hopens : a.opens c.nextId
    · rw [if_pos hopens]
      dsimp only
      rw [hs]
      dsimp only
      have hfresh : c.sess.byStream.lookup c.nextId = none := by
        rw [Option.eq_none_iff_forall_ne_some]
        intro sid' hst
        obtain ⟨s', hs', hst⟩ := (h.tables.streams c.nextId sid').mp hst
        exact absurd (h.tables.known sid' s' c.nextId hs' hst) (Nat.lt_irrefl _)
      generalize flush (a.send c.nextId) s.tx = r
      obtain ⟨ok, tx⟩ := r
      cases ok with
      | false =>
        have hundo := endSession_unissued (c := { c with nextId := c.nextId + 1 }) tx hs hnone hfresh false
        refine ⟨false, _, rfl, ?_, fun sid' hne => ?_⟩
        · show Kept cfg LA LW (Client.endSession (Client.putSession _ sid _) sid false)
          rw [hundo]
          exact (h.openStream a).endSession sid false
        · show (Client.endSession (Client.putSession _ sid _) sid false).sess.bySid.lookup sid' = _
          rw [hundo, hended _ _ hne]
      | true =>
        obtain ⟨queue, hphase⟩ := (h.tables.phases sid s hs).stream.mp hnone
        have hfits (deadline : ℕ) : Session.Fits ⟨s.assoc, s.target, some c.nextId, tx, .awaitResp deadline []⟩ :=
          ⟨by simp, by simp⟩
        have htables : Tables c.assocs _ (c.nextId + 1 + 1) :=
          h.tables.issued hs hnone (by rfl) (by rfl) (by rfl) (hfits (c.nextId + 1)) le_rfl (by omega)
        rw [← AList.insert_insert (b := { s with stream := some c.nextId, tx := tx })] at htables
        refine ⟨true, _, rfl, (h.openStream a).armTimer (.udpResp sid) { Quiet.refl _ with nextId := Nat.le_succ _ }
          (fun tm hne => ?_) (fun id hid => ?_) (fun _ => ⟨?_, ?_⟩) rfl rfl (Nat.lt_succ_self _) htables, fun sid' hne => ?_⟩
        · refine (holder_putSession _ sid _ tm).trans ((if_neg hne).trans ?_)
          refine holder_congr (fun _ => rfl) (fun _ => rfl) rfl fun sid' heq => ?_
          show ((c.sess.bySid.insert sid _).lookup sid').bind _ = (c.sess.bySid.lookup sid').bind _
          grind
        · exact (Option.some.inj (((holder_putSession _ sid _ _).trans (if_pos rfl)).symm.trans hid)).symm
        · rw [holder_udpResp (c := (c.openStream a).2) hs, hphase]
          rfl
        · exact (holder_putSession _ sid _ _).trans (if_pos rfl)
        · show ((c.sess.bySid.insert sid _).insert sid _).lookup sid' = _
          rw [AList.lookup_insert_ne hne, AList.lookup_insert_ne hne]
    · rw [if_neg hopens]
      exact ⟨false, _, rfl, (h.openStream a).endSession sid false, hended _⟩

theorem Kept.udpAvailable (a : Answers) : Keeps cfg LA LW (c.udpAvailable a) := by
  -- each of them is still to be asked for when its turn comes
  have hfold (sids : List UInt32) (hnodup : sids.Nodup) (c : Client) (h : Kept cfg LA LW c)
      (hsids : ∀ sid ∈ sids, ∃ s, c.sess.bySid.lookup sid = some s ∧ s.stream = none) :
      Keeps cfg LA LW (sids.foldlM (fun c sid => (c.issue a sid).map (·.2)) c) := by
    induction sids generalizing c with
    | nil => exact ⟨c, rfl, h⟩
    | cons sid sids ih =>
      obtain ⟨hout, hnodup⟩ := List.nodup_cons.mp hnodup
      obtain ⟨s, hs, hnone⟩ := hsids sid List.mem_cons_self
      obtain ⟨b, c₁, hissue, hc₁, hothers⟩ := h.issue a hs hnone
      obtain ⟨c', hrest, hc'⟩ := ih hnodup c₁ hc₁ fun sid' hmem => by
        obtain ⟨s', hs', hnone'⟩ := hsids sid' (List.mem_cons_of_mem _ hmem)
        have hne : sid' ≠ sid := fun heq => hout (heq ▸ hmem)
        exact ⟨s', by rw [hothers sid' hne, hs'], hnone'⟩
      refine ⟨c', ?_, hc'⟩
      rw [List.foldlM_cons, hissue]
      exact hrest
  rw [Client.udpAvailable]
  refine hfold _ ?_ c h fun sid hsid => ?_
  · rw [(List.mergeSort_perm _ _).nodup_iff]
    exact (c.sess.bySid.nodupKeys.sublist List.filter_sublist : List.NodupKeys _)
  · rw [List.mem_mergeSort] at hsid
    obtain ⟨e, he, rfl⟩ := List.mem_map.mp hsid
    obtain ⟨hmem, hphase⟩ := List.mem_filter.mp he
    have hs : c.sess.bySid.lookup e.1 = some e.2 := AList.mem_lookup_iff.mpr hmem
    refine ⟨e.2, hs, (h.tables.phases e.1 e.2 hs).stream.mpr ?_⟩
    split at hphase
    · next queue heq => exact ⟨queue, heq⟩
    · cases hphase

/-- **A session is opened** for a destination, if there is room. -/
theorem Kept.newSession {tcp : ℕ} {assoc assoc' : Assoc} {target : Target} {dst : Socks5Udp.Dst}
    (a : Answers) (payload : List UInt8) (ha : c.assocs.lookup tcp = some assoc) (hnone : assoc.named target = none)
    (hfits : assoc'.Fits) (hsock : assoc'.sock ≠ none) (hnamed : ∀ x, assoc'.named x = assoc.named x)
    (hentry : (assoc'.dsts.lookup target).isSome) (hroom : c.sess.bySid.keys.length < MAX_SESSIONS_PER_CONN)
    (htx : ∀ sid, ∃ tx, openRequest sid dst = some tx) :
    Keeps cfg LA LW (c.newSession a tcp assoc' target dst payload) := by
  have hlive : (fun sid => (c.sess.bySid.lookup sid).isSome) = fun sid => decide (sid ∈ c.sess.bySid.keys) := by
    funext sid
    rw [Bool.eq_iff_iff, decide_eq_true_iff]
    exact AList.lookup_isSome
  have hmax : MAX_SESSIONS_PER_CONN < 2 ^ 32 := by decide
  obtain ⟨⟨sid, nextSid⟩, halloc⟩ := exists_allocSid c.sess.bySid.keys (hroom.trans hmax) c.sess.nextSid
  have hfree : c.sess.bySid.lookup sid = none := by
    have := not_live_of_allocSid halloc
    rw [decide_eq_false_iff_not] at this
    exact AList.lookup_eq_none.mpr this
  obtain ⟨tx, htx⟩ := htx sid
  obtain ⟨entry, hentry⟩ := Option.isSome_iff_exists.mp hentry
  rw [Client.newSession, hlive, halloc]
  simp only [htx, hentry]
  generalize hs : Session.mk tcp target none tx (.pendingAuth []) = s
  have hsfits : s.Fits := by
    rw [← hs]
    exact ⟨by simp, by simp [QueueFits]⟩
  generalize hc₁ : Client.putSession
    { c with
      assocs := c.assocs.insert tcp { assoc' with dsts := assoc'.dsts.insert target ⟨some sid, none⟩ }
      sess := { c.sess with nextSid := nextSid } } sid s = c₁
  have hlookup : c₁.sess.bySid.lookup sid = some s := by
    rw [← hc₁]
    exact AList.lookup_insert ..
  have hkept : Kept cfg LA LW c₁ := by
    rw [← hc₁]
    refine h.same { Quiet.refl c with assocs := keys_insert_perm ha _ } (funext fun tm => ?_) rfl rfl ?_
    · refine (holder_putSession _ sid s tm).trans ?_
      have hdeadline : s.phase.deadline = none := by rw [← hs]; rfl
      cases tm <;> grind [holder]
    · refine h.tables.opened hfree hroom (by rw [namedBy_of_lookup ha, hnone]) (fun y => ?_) ⟨?_, ?_, ?_⟩ ?_ ?_ ?_ hsfits
      · have hold := namedBy_of_lookup ha y
        grind [Assoc.named]
      · show (assoc'.dsts.insert target _).keys.length ≤ MAX_DST_PER_ASSOC
        rw [length_keys_insert_of_lookup hentry]
        exact hfits.dsts
      · exact hfits.opening
      · exact fun hno => absurd hno hsock
      · rw [← hs]
      · rw [← hs]
      · rw [← hs]
  split
  · obtain ⟨b, c₂, hissue, hc₂, -⟩ := hkept.issue a hlookup (by rw [← hs])
    rw [hissue]
    cases b with
    | true => exact hc₂.sessionSend sid payload
    | false => exact ⟨c₂, rfl, hc₂⟩
  · exact hkept.sessionSend sid payload

theorem Kept.udpOpen {tcp : ℕ} {assoc : Assoc} {target : Target} {dst : Socks5Udp.Dst} (a : Answers)
    (ha : c.assocs.lookup tcp = some assoc) (hsock : assoc.sock ≠ none) (hnone : assoc.named target = none)
    (htx : ∀ sid, ∃ tx, openRequest sid dst = some tx) (payload : List UInt8) :
    Keeps cfg LA LW (c.udpOpen a tcp assoc target dst payload) := by
  have hfits := h.tables.assocs tcp assoc ha
  unfold Client.udpOpen
  dsimp only
  split
  · exact ⟨c, rfl, h⟩
  split
  · exact ⟨c, rfl, h⟩
  · next hroom =>
    rw [Nat.not_le] at hroom
    cases he : assoc.dsts.lookup target with
    | some e => exact h.newSession a payload ha hnone hfits hsock (fun _ => rfl) (by rw [he]; rfl) hroom htx
    | none =>
      rw [if_neg (by simp)]
      cases hinsert : assoc.insertDst target c.now with
      | none => exact ⟨c, rfl, h⟩
      | some assoc' =>
        obtain ⟨hfits', hnamed, hentry, hsock'⟩ := Assoc.insertDst_spec hfits hsock he hinsert
        exact h.newSession a payload ha hnone hfits' (by rw [hsock']; exact hsock) hnamed hentry hroom htx

theorem Kept.udpOutbound {tcp : ℕ} {assoc : Assoc} (a : Answers)
    (ha : c.assocs.lookup tcp = some assoc) (hsock : assoc.sock ≠ none) (d : List UInt8) :
    Keeps cfg LA LW (c.udpOutbound a tcp d) := by
  unfold Client.udpOutbound
  split
  · exact ⟨c, rfl, h⟩
  · next dst off hparse =>
    rw [ha]
    cases htarget : Socks5Udp.targetOf dst with
    | none => exact ⟨c, rfl, h⟩
    | some target =>
      have htx (sid : UInt32) : ∃ tx, openRequest sid dst = some tx := by
        obtain ⟨tx, htx, -⟩ : ∃ tx, openRequest sid dst = some tx ∧ _ :=
          parseRequest_open (Socks5Udp.length_addr_of_parse hparse) htarget
        exact ⟨tx, htx⟩
      dsimp only
      split
      · next sid _ => exact h.sessionSend sid _
      · next hnone => exact h.udpOpen a ha hsock hnone htx _

theorem Kept.sessionWritable {st : ℕ} (a : Answers) (hst : (c.sess.byStream.lookup st).isSome) :
    Keeps cfg LA LW (c.sessionWritable a st) := by
  obtain ⟨sid, s, hsid, hs, -⟩ := h.session_of_stream hst
  have hfits := h.tables.phases sid s hs
  simp only [Client.sessionWritable, hsid, hs]
  have hput : Kept cfg LA LW (c.putSession sid { s with tx := (flush (a.send st) s.tx).2 }) :=
    h.putSession hs rfl rfl rfl rfl ⟨hfits.stream, hfits.queue⟩
  split
  · exact ⟨_, rfl, hput⟩
  · exact ⟨_, rfl, hput.endSession sid false⟩

theorem Kept.sessionReadable {st : ℕ} (a : Answers) (hst : (c.sess.byStream.lookup st).isSome) :
    Keeps cfg LA LW (c.sessionReadable a st) := by
  obtain ⟨sid, s, hsid, hs, hstream⟩ := h.session_of_stream hst
  have hsome : s.stream ≠ none := by
    rw [hstream]
    exact Option.some_ne_none st
  have hpast (phase : UdpPhase) (hphase : ∀ q, phase ≠ .pendingAuth q) : Session.Fits { s with phase := phase } :=
    ⟨⟨fun hno => absurd hno hsome, fun hq => by obtain ⟨q, hq⟩ := hq; exact absurd hq (hphase q)⟩,
      fun q hq => absurd hq (hphase q)⟩
  simp only [Client.sessionReadable, hsid, hs]
  have hopen (c : Client) (h : Kept cfg LA LW c) (inc : Incoming) :
      Keeps cfg LA LW (some (if readOpen inc then c else c.endSession sid false)) := by
    split
    · exact ⟨c, rfl, h⟩
    · exact ⟨_, rfl, h.endSession sid false⟩
  cases hphase : s.phase with
  | pendingAuth q => exact hopen c h a.recv
  | «open» => exact hopen c h a.recv
  | awaitResp deadline rx =>
    dsimp only
    generalize readResp rx a.recv = r
    obtain ⟨out, inc⟩ := r
    cases out with
    | wait rx' =>
      refine ⟨_, rfl, h.putSession hs rfl rfl rfl (by rw [hphase]; rfl) (hpast _ fun q hq => ?_)⟩
      cases hq
    | ended refused => exact ⟨_, rfl, h.endSession sid refused⟩
    | opened =>
      refine hopen _ ?_ inc
      refine h.quiet ?_ { Quiet.refl c with }
      have hheld : c.holder (.udpResp sid) = some deadline := by
        rw [holder_udpResp hs, hphase]
        rfl
      exact h.release (h.clocks.held hheld) Tm.noConfusion ((holder_putSession c sid _ _).trans (if_pos rfl))
        (fun tm hne => (holder_putSession c sid _ tm).trans (if_neg hne)) rfl rfl rfl rfl
        (h.tables.put hs rfl rfl rfl (hpast .open fun q hq => (by cases hq)))

omit h

/-! ### Requests -/

theorem Kept.openData {tcp : ℕ} (h : Kept cfg LA (tcp ::ₘ LW) c) (a : Answers) (kind : IngressKind) (target : Target) :
    Keeps cfg LA LW (c.openData a tcp kind target) := by
  have habsent : (c.openStream a).2.opens.lookup c.nextId = none := by
    rw [Option.eq_none_iff_forall_ne_some]
    intro o ho
    exact absurd (h.streams c.nextId o ho) (Nat.lt_irrefl _)
  have hstream (st : ℕ) (hst : (c.openStream a).1 = some st) : st = c.nextId := by
    rw [Client.openStream] at hst
    dsimp only at hst
    split at hst
    · exact (Option.some.inj hst).symm
    · cases hst
  have hopen := h.openStream a
  have hnext : c.nextId < (c.openStream a).2.nextId := Nat.lt_succ_self _
  obtain ⟨tx, htx⟩ := exists_connectRequest target
  unfold Client.openData
  generalize c.openStream a = r at *
  obtain ⟨st, c₁⟩ := r
  cases st with
  | none => exact ⟨_, rfl, hopen.refuse _ _⟩
  | some st =>
    obtain rfl := hstream st rfl
    dsimp only
    rw [htx, Option.map_some]
    refine ⟨_, rfl, ?_⟩
    split
    · exact ⟨hopen.frame _ _, Books.putOpen (o := ⟨tcp, kind, _, []⟩) hopen.toBooks habsent hnext⟩
    · exact hopen.refuse _ _

theorem Kept.foldlM_openData (a : Answers) (os : List PendingOpen)
    (h : Kept cfg LA ((os.map PendingOpen.tcp : List ℕ) + LW) c) :
    Keeps cfg LA LW (os.foldlM (fun (c : Client) o => c.openData a o.tcp o.kind o.target) c) := by
  induction os generalizing c with
  | nil =>
    rw [List.map_nil, Multiset.coe_nil, zero_add] at h
    exact ⟨c, rfl, h⟩
  | cons o os ih =>
    rw [List.map_cons, ← Multiset.cons_coe, Multiset.cons_add] at h
    obtain ⟨c₁, hopen, hc₁⟩ := h.openData a o.kind o.target
    obtain ⟨c', hrest, hc'⟩ := ih hc₁
    refine ⟨c', ?_, hc'⟩
    rw [List.foldlM_cons, hopen]
    exact hrest

/-- **A request that is complete** waits, or has its outcome. -/
theorem Kept.request (h : Kept cfg (t ::ₘ LA) LW c) (a : Answers) (kind : IngressKind) (target : Target) :
    Keeps cfg LA LW (c.request cfg a t kind target) := by
  have hcomplete := h.complete
  unfold Client.request
  generalize c.note [.completed t] = c₁ at hcomplete
  dsimp only
  split
  · exact ⟨_, rfl, hcomplete.refuse _ _⟩
  split
  · exact hcomplete.openData a kind target
  split
  · next pending hpush =>
    rw [pushPending] at hpush
    split at hpush
    · cases hpush
    · cases hpush
      have hput := Books.putPending (o := ⟨t, target, kind, c₁.now⟩) hcomplete.toBooks
      refine ⟨_, rfl, hcomplete.arm .pending (fun _ _ => rfl) (fun id hid => ?_) (fun hresp => hresp.elim) rfl rfl
        (Nat.lt_succ_self _) (fun o ho => ?_) (hcomplete.tables.mono (Nat.le_succ _)),
        hput.quiet { Quiet.refl _ with nextId := Nat.le_succ _ }⟩
      · cases hid
      · rcases List.mem_append.mp ho with ho | ho
        · exact .inl ho
        · rw [List.mem_singleton.mp ho]
          exact .inr ⟨rfl, rfl⟩
  · exact ⟨_, rfl, hcomplete.refuse _ _⟩

include h

theorem Kept.takeOpen {st : ℕ} {o : Open} (hs : c.opens.lookup st = some o) :
    Kept cfg LA (o.tcp ::ₘ LW) { c with opens := c.opens.erase st } :=
  ⟨h.frame _ c.fronts, h.toBooks.takeOpen hs⟩

theorem Kept.dropOpen (st : ℕ) : Kept cfg LA LW (c.dropOpen st) := by
  unfold Client.dropOpen
  split
  · exact h
  · next o hs => exact (h.takeOpen hs).refuse o.kind .connRefused

theorem Kept.openWritable (a : Answers) (st : ℕ) : Kept cfg LA LW (c.openWritable a st) := by
  unfold Client.openWritable
  split
  · exact h
  · next o hs =>
    have hset : Kept cfg LA LW { c with opens := c.opens.insert st { o with tx := (flush (a.send st) o.tx).2 } } :=
      ⟨h.frame _ c.fronts, h.setOpen hs rfl⟩
    dsimp only
    split
    · exact hset
    · exact hset.dropOpen st

theorem Kept.openReadable (a : Answers) (st : ℕ) : Kept cfg LA LW (c.openReadable a st) := by
  unfold Client.openReadable
  split
  · exact h
  · next o hs =>
    have hgone := h.takeOpen hs
    dsimp only
    split
    · exact ⟨h.frame _ c.fronts, h.setOpen hs rfl⟩
    · exact hgone.refuse o.kind .connRefused
    · split
      · exact hgone.refuse o.kind .connRefused
      · split
        · exact hgone.refuse o.kind .connRefused
        · split
          · have hnotes (c : Client) (ns ns' : List Note) : (c.note ns).note ns' = c.note (ns ++ ns') := by
              rw [note, note, note, List.append_assoc]
            cases hrelayed : a.relayed with
            | true =>
              rw [if_pos rfl, hnotes]
              exact hgone.settle (.relayed o.kind.successReply st _ _)
            | false =>
              rw [if_neg Bool.false_ne_true, hnotes, hnotes]
              exact hgone.settle (.aborted o.kind.successReply st _ _)
          · exact hgone.refuse o.kind _

/-! ### The connection -/

theorem Kept.maybeExit (a : Answers) : Kept cfg LA LW (c.maybeExit a) := by
  unfold Client.maybeExit
  split
  · exact ⟨h.note _, h.ledger.unseen fun _ => rfl, h.streams⟩
  · exact h

/-- The queue is emptied. -/
theorem Kept.takeAll :
    Kept cfg LA ((c.pending.map PendingOpen.tcp : List ℕ) + LW) { c with pending := [] } :=
  ⟨h.mono rfl rfl rfl le_rfl (fun o ho => absurd ho List.not_mem_nil) h.tables,
    h.takePending c.pending [] (by rw [List.append_nil])⟩

theorem Kept.refusePending (e : TcpErr) :
    Kept cfg LA LW (Client.refuseAll { c with pending := [] } c.pending e) :=
  Kept.foldl_refuse c.pending _ _ e h.takeAll

/-- The connection changes, and the timer that it waited for is cancelled. -/
theorem Kept.setConn (conn : Option Conn) (hconn : conn.bind Conn.authTimer = none) :
    Kept cfg LA LW
      ((c.conn.bind Conn.authTimer).elim { c with conn := conn } (Client.cancel { c with conn := conn })) := by
  refine h.quiet (h.toSound.setConn conn hconn) ?_
  cases c.conn.bind Conn.authTimer with
  | none => exact { Quiet.refl c with }
  | some id => exact { Quiet.refl c with }

theorem Kept.connGone (a : Answers) : Kept cfg LA LW (c.connGone cfg a) := by
  unfold Client.connGone
  have hunconn := h.setConn none rfl
  dsimp only
  generalize (c.conn.bind Conn.authTimer).elim { c with conn := none } _ = c₁ at hunconn
  have hopens : Kept cfg LA LW ((c₁.opens.entries.map (·.2)).foldl
      (fun (c : Client) (o : Open) => c.refuse o.tcp o.kind .connRefused) { c₁ with opens := ∅ }) := by
    refine Kept.foldl_refuse _ Open.tcp Open.kind .connRefused ⟨hunconn.frame ∅ c₁.fronts, ?_⟩
    rw [List.map_map]
    exact hunconn.takeOpens
  have hudp := hopens.udpConnGone
  generalize Client.udpConnGone _ = c₂ at hudp
  split
  · exact (hudp.setUdp _).maybeExit a
  split
  · have hset := hudp.setUdp .unknown
    generalize c₂.setUdp .unknown = c₃ at hset
    exact hset.armTimer .reconnect { Quiet.refl c₃ with nextId := Nat.le_succ _ }
      (fun tm htm => holder_congr (fun _ => rfl) (fun heq => absurd heq htm) rfl fun _ _ => rfl)
      (fun id hid => (Option.some.inj hid).symm) (fun hresp => hresp.elim) rfl rfl (Nat.lt_succ_self _)
      (hset.tables.mono (Nat.le_succ _))
  · have hterminal : Kept cfg LA LW { c₂ with terminal := true } :=
      hudp.same { Quiet.refl c₂ with } rfl rfl rfl hudp.tables
    exact (hterminal.setUdp .unavailable).refusePending .connRefused

theorem Kept.connect (a : Answers) : Kept cfg LA LW (c.connect cfg a) := by
  unfold Client.connect
  split
  · have hconn := h.withConn (some ⟨c.nextId, none, false, none, false⟩) fun id hid => (by cases hid)
    exact h.quiet (hconn.mono rfl rfl rfl (Nat.le_succ _) (fun _ ho => ho) (h.tables.mono (Nat.le_succ _)))
      { Quiet.refl c with nextId := Nat.le_succ _ }
  · exact h.connGone a

theorem Kept.onEstablished (a : Answers) :
    Keeps cfg LA LW (c.onEstablished cfg a) := by
  unfold Client.onEstablished
  split
  · exact ⟨c, rfl, h⟩
  · next k hk =>
    split
    · exact ⟨c, rfl, h⟩
    · have hopen := h.openStream a
      obtain ⟨tx, htx⟩ := exists_authRequest cfg
      generalize c.openStream a = r at hopen
      obtain ⟨st, c₁⟩ := r
      cases st with
      | none => exact ⟨_, rfl, hopen.close⟩
      | some st =>
        dsimp only
        rw [htx, Option.map_some]
        have harm (ctrl : Ctrl) : Kept cfg LA LW { (c₁.timer cfg.authDeadline .auth).2 with
            conn := some { k with authTimer := some c₁.nextId, ctrl := some ctrl } } :=
          hopen.armTimer .auth { Quiet.refl c₁ with nextId := Nat.le_succ _ }
            (fun tm htm => holder_congr (fun heq => absurd heq htm) (fun _ => rfl) rfl fun _ _ => rfl)
            (fun id hid => (Option.some.inj hid).symm) (fun hresp => hresp.elim) rfl rfl (Nat.lt_succ_self _)
            (hopen.tables.mono (Nat.le_succ _))
        refine ⟨_, rfl, ?_⟩
        split
        · exact harm _
        · exact (harm _).close

theorem Kept.authed {k : Conn} (a : Answers) (hk : c.conn = some k) (ctrl : Ctrl) (inc : Incoming)
    (features : Option UInt64) : Keeps cfg LA LW (c.authed a k ctrl inc features) := by
  have htimer : c.conn.bind Conn.authTimer = k.authTimer := by rw [hk, Option.bind_some]
  cases features with
  | none =>
    have hconn : Kept cfg LA LW { c with conn := some { k with ctrl := some ctrl } } :=
      h.quiet (h.withConn _ fun id hid => htimer.trans hid) { Quiet.refl c with }
    exact ⟨_, rfl, ((hconn.setUdp .unavailable).refusePending .connRefused).close⟩
  | some features =>
    have hconn := h.setConn (some { k with authed := true, authTimer := none, ctrl := some { ctrl with rx := [] } }) rfl
    rw [htimer] at hconn
    unfold Client.authed
    dsimp only
    generalize k.authTimer.elim _ _ = c₁ at hconn
    generalize (if features &&& 1 ≠ 0 ∧ a.datagrams ∧ c₁.shuttingDown = false then UdpAvail.available else .unavailable)
      = avail
    have hset := hconn.setUdp avail
    generalize c₁.setUdp avail = c₂ at hset
    split
    · exact ⟨_, rfl, hset.close⟩
    · obtain ⟨c₃, hfold, hc₃⟩ := Kept.foldlM_openData a c₂.pending hset.takeAll
      rw [hfold, Option.bind_some]
      split
      · exact hc₃.udpAvailable a
      · exact ⟨c₃, rfl, hc₃⟩

/-- What is held of the control stream changes. -/
theorem Kept.setCtrl {k : Conn} (hk : c.conn = some k) (ctrl : Ctrl) :
    Kept cfg LA LW { c with conn := some { k with ctrl := some ctrl } } :=
  h.quiet (h.withConn _ fun id hid => by rw [hk]; exact hid) { Quiet.refl c with }

theorem Kept.ctrlReadable {st : ℕ} (a : Answers) (hst : c.ctrlOf st) :
    Keeps cfg LA LW (c.ctrlReadable a) := by
  unfold Client.ctrlReadable
  split
  · exact ⟨c, rfl, h⟩
  · next k hk =>
    split
    · refine ⟨_, rfl, ?_⟩
      split
      · exact h
      · exact h.close
    · split
      · next hnone =>
        rw [ctrlOf, hk, Option.bind_some, hnone] at hst
        cases hst
      · next ctrl hctrl =>
        split
        · exact ⟨_, rfl, h.setCtrl hk _⟩
        · exact ⟨_, rfl, (h.setCtrl hk _).close⟩
        · exact h.authed a hk _ _ _

theorem Kept.ctrlWritable (a : Answers) (st : ℕ) : Kept cfg LA LW (c.ctrlWritable a st) := by
  unfold Client.ctrlWritable
  split
  · exact h
  · next k hk =>
    split
    · exact h
    · next ctrl hctrl =>
      dsimp only
      split
      · exact h.setCtrl hk _
      · exact (h.setCtrl hk _).close

/-! ### Sockets -/

theorem Kept.frontTurn (a : Answers) (tcp : ℕ) :
    Keeps cfg LA LW (c.frontTurn cfg a tcp) := by
  unfold Client.frontTurn
  split
  · next hmem =>
    have hgone : Kept cfg (tcp ::ₘ LA) LW { c with fronts := c.fronts.erase tcp } :=
      ⟨h.frame c.opens _, h.takeFront hmem⟩
    split
    · exact hgone.request a .transparent _
    · refine ⟨_, rfl, ?_⟩
      split
      · exact h
      · exact hgone.drop
  · exact ⟨c, rfl, h⟩

theorem Kept.onAccepted {tcp : ℕ} (a : Answers) (l : Listener) (htcp : c.nextId ≤ tcp)
    (peerIp : IpAddr) (dst : Option Target) : Keeps cfg LA LW (c.onAccepted cfg a l tcp peerIp dst) := by
  have hnext : c.nextId ≤ tcp + 1 := htcp.trans (Nat.le_succ _)
  have hnew : Kept cfg (tcp ::ₘ LA) LW (Client.note { c with nextId := tcp + 1 } [.accepted tcp]) := by
    refine ⟨h.mono rfl rfl rfl hnext (fun _ ho => ho) (h.tables.mono hnext), ?_,
      fun s o hs => (h.streams s o hs).trans (Nat.lt_succ_of_le htcp)⟩
    rw [Multiset.cons_add]
    exact h.ledger.accept htcp
  unfold Client.onAccepted
  generalize Client.note { c with nextId := tcp + 1 } [.accepted tcp] = c₁ at hnew
  have hfront : Kept cfg LA LW { c₁ with fronts := tcp :: c₁.fronts } := ⟨hnew.frame c₁.opens _, hnew.putFront⟩
  have hingress (kind : IngressKind) (parser : Parser) : Kept cfg LA LW
      { (c₁.timer cfg.ingressDeadline (.ingress tcp)).2 with
        ingress := c₁.ingress.insert tcp ⟨kind, parser, c₁.nextId, peerIp⟩ } := by
    refine ⟨hnew.arm (.ingress tcp) (fun tm htm => ?_) (fun id hid => ?_) (fun hresp => hresp.elim) rfl rfl
      (Nat.lt_succ_self _) (fun o ho => .inl ho) (hnew.tables.mono (Nat.le_succ _)),
      (hnew.putIngress _).quiet { Quiet.refl _ with nextId := Nat.le_succ _ }⟩
    · exact (holder_insert_ingress (c₁.timer cfg.ingressDeadline (.ingress tcp)).2 tcp _ tm).trans (if_neg htm)
    · have heq := holder_insert_ingress (c₁.timer cfg.ingressDeadline (.ingress tcp)).2 tcp
        ⟨kind, parser, c₁.nextId, peerIp⟩ (.ingress tcp)
      rw [if_pos rfl] at heq
      exact (Option.some.inj (heq.symm.trans hid)).symm
  cases l with
  | fetch =>
    refine ⟨_, rfl, ?_⟩
    split
    · exact hfront
    · exact hnew.shut
  | other => exact ⟨_, rfl, hnew.shut⟩
  | socks5 => exact ⟨_, rfl, hingress _ _⟩
  | httpConnect => exact ⟨_, rfl, hingress _ _⟩
  | transparent =>
    cases dst with
    | none => exact ⟨_, rfl, hnew.shut⟩
    | some target =>
      dsimp only
      split
      · exact ⟨_, rfl, hfront⟩
      · exact hnew.request a .transparent target

omit h

theorem Kept.associate (h : Kept cfg (t ::ₘ LA) LW c) (a : Answers) (htcp : c.assocs.lookup t = none) (peerIp : IpAddr) :
    Kept cfg LA LW (c.associate a t peerIp) := by
  have hconsume : Kept cfg (t ::ₘ LA) LW (c.note [.consume t a.rx.length]) :=
    h.ask (.inl (Multiset.mem_cons_self t LA)) (asks_consume t _)
  refine ⟨h.mono rfl rfl rfl (Nat.le_succ _) (fun _ ho => ho) ((h.tables.assoc (fun y => ?_) ⟨?_, ?_, ?_⟩).mono
    (Nat.le_succ _)), (hconsume.putAssoc _).quiet { Quiet.refl _ with nextId := Nat.le_succ _ }⟩
  · rw [namedBy, htcp]
    rfl
  · exact Nat.zero_le _
  · exact fun _ => rfl
  · exact fun _ => rfl

theorem Kept.onTcpData (h : Kept cfg LA LW c) (a : Answers) (t : ℕ) :
    Keeps cfg LA LW (c.onTcpData cfg a t) := by
  unfold Client.onTcpData
  split
  · exact h.frontTurn a t
  split
  · next hassoc =>
    exact ⟨_, rfl, h.ask (.inr (mem_asking_of_assocs hassoc)) (asks_consume t _)⟩
  · next hassoc =>
    split
    · exact ⟨c, rfl, h⟩
    · next ing hing =>
      obtain ⟨⟨fed, parser, notes⟩, hfeed⟩ := exists_feed t (decide (c.udp ≠ .unavailable) && !c.shuttingDown) a.written
        ing.parser a.rx
      dsimp only
      rw [hfeed, Option.bind_some]
      obtain ⟨asked, hasked, rfl⟩ := feed_notes hfeed
      have hnote := h.ask (.inr (mem_asking_of_ingress (by rw [hing]; rfl))) hasked
      have htake := hnote.takeIngress hing
      cases fed with
      | wait =>
        rw [if_neg (by decide), List.append_nil]
        refine ⟨_, rfl, hnote.mono (funext fun tm => ?_) rfl rfl le_rfl (fun _ ho => ho) h.tables, hnote.move ?_ rfl rfl
          le_rfl hnote.streams⟩
        · refine (holder_insert_ingress (c.note asked) t _ tm).trans ?_
          cases tm <;> grind [holder, note]
        · simp only [asking]
          rw [Multiset.coe_eq_coe.mpr (keys_insert_perm (t := (c.note asked).ingress) hing _)]
      | done target =>
        rw [if_neg (by simp), List.append_nil]
        exact htake.request a ing.kind target
      | associate =>
        rw [if_neg (by decide), List.append_nil]
        refine ⟨_, rfl, htake.associate a ?_ ing.peerIp⟩
        exact Option.not_isSome_iff_eq_none.mp hassoc
      | closed =>
        rw [if_pos rfl]
        have hshut := htake.shut
        exact ⟨_, rfl, hshut.mono rfl rfl rfl le_rfl (fun _ ho => ho) hshut.tables,
          hshut.move rfl rfl (List.append_assoc ..).symm le_rfl hshut.streams⟩

/-- **A socket has failed** and is out of every table. -/
theorem Books.fail (h : Books 0 0 c) (hasking : c'.asking = c.asking.erase t) (hwaiting : c'.waiting = c.waiting.erase t)
    (hlog : c'.log = c.log ++ [.failed t]) (hnext : c.nextId ≤ c'.nextId)
    (hstreams : ∀ s o, c'.opens.lookup s = some o → s < c'.nextId) : Books 0 0 c' where
  ledger := by
    have hfail := (h.ledger.fail t).mono hnext
    rw [zero_add, zero_add] at hfail
    rw [zero_add, zero_add, hasking, hwaiting, hlog]
    exact hfail
  streams := hstreams

theorem Books.nodup (h : Books 0 0 c) : (c.asking + c.waiting).Nodup := by
  have := h.ledger.nodup
  rwa [zero_add, zero_add] at this

theorem Books.not_mem_waiting (h : Books 0 0 c) (ht : t ∈ c.asking) : t ∉ c.waiting := fun hmem =>
  Multiset.disjoint_left.mp (Multiset.nodup_add.mp h.nodup).2.2 ht hmem

/-- One that asked. -/
theorem Books.failAsking (h : Books 0 0 c) (hasking : c.asking = t ::ₘ c'.asking) (hwaiting : c'.waiting = c.waiting)
    (hlog : c'.log = c.log ++ [.failed t]) (hnext : c.nextId ≤ c'.nextId)
    (hstreams : ∀ s o, c'.opens.lookup s = some o → s < c'.nextId) : Books 0 0 c' := by
  have hmem : t ∈ c.asking := by
    rw [hasking]
    exact Multiset.mem_cons_self t _
  refine h.fail ?_ ?_ hlog hnext hstreams
  · rw [hasking, Multiset.erase_cons_head]
  · rw [hwaiting, Multiset.erase_of_notMem (h.not_mem_waiting hmem)]

/-- One that waited, or that is in no table. -/
theorem Books.failWaiting (h : Books 0 0 c) (ht : t ∉ c.asking) :
    Books 0 0
      (match c.opens.entries.find? (·.2.tcp = t) with
      | some e =>
        { c.note [.failed t] with pending := removePending c.pending t, opens := c.opens.erase e.1 }
      | none => { c.note [.failed t] with pending := removePending c.pending t }) := by
  have hnodup := (Multiset.nodup_add.mp h.nodup).2.1
  have hkept (pending : List PendingOpen) (opens : AList fun _ : ℕ => Open) :
      Client.asking { c.note [.failed t] with pending := pending, opens := opens } = c.asking.erase t :=
    (Multiset.erase_of_notMem ht).symm
  by_cases hpending : ∃ o ∈ c.pending, o.tcp = t
  · -- it is in the queue, so it is not in `opens`
    obtain ⟨o, ho, htcp⟩ := hpending
    obtain ⟨o', l₁, l₂, -, htcp', hl, herase⟩ := List.exists_of_eraseP (p := fun o => o.tcp = t) ho (by simpa using htcp)
    have hperm : c.pending.Perm (o' :: removePending c.pending t) := by
      rw [removePending, herase, hl]
      exact List.perm_middle
    have htcp' : o'.tcp = t := by simpa using htcp'
    have hq : ((c.pending.map PendingOpen.tcp : List ℕ) : Multiset ℕ) =
        t ::ₘ (((removePending c.pending t).map PendingOpen.tcp : List ℕ) : Multiset ℕ) := by
      rw [Multiset.cons_coe, ← htcp', ← List.map_cons]
      exact Multiset.coe_eq_coe.mpr ((htcp' ▸ hperm).map _)
    have hwaiting : c.waiting = t ::ₘ
        ((((removePending c.pending t).map PendingOpen.tcp : List ℕ) : Multiset ℕ) + values Open.tcp c.opens) := by
      rw [waiting, hq, Multiset.cons_add]
    rw [hwaiting, Multiset.nodup_cons, Multiset.mem_add, not_or] at hnodup
    have hnone : c.opens.entries.find? (·.2.tcp = t) = none := by
      rw [List.find?_eq_none]
      intro e he htcp
      refine hnodup.1.2 (mem_values.mpr ⟨e.1, e.2, AList.mem_lookup_iff.mpr he, by simpa using htcp⟩)
    rw [hnone]
    refine h.fail (hkept _ c.opens) ?_ rfl le_rfl h.streams
    rw [hwaiting, Multiset.erase_cons_head]
    rfl
  · have hremove : removePending c.pending t = c.pending := by
      refine List.eraseP_of_forall_not fun o ho htcp => hpending ⟨o, ho, by simpa using htcp⟩
    rw [hremove]
    split
    · next e hfind =>
      have hlookup : c.opens.lookup e.1 = some e.2 := AList.mem_lookup_iff.mpr (List.mem_of_find?_eq_some hfind)
      have htcp : e.2.tcp = t := by simpa using List.find?_some hfind
      refine h.fail (hkept _ _) ?_ rfl le_rfl (forall_lookup_erase h.streams)
      have hwaiting : c.waiting = t ::ₘ
          (((c.pending.map PendingOpen.tcp : List ℕ) : Multiset ℕ) + values Open.tcp (c.opens.erase e.1)) := by
        rw [waiting, values_of_lookup Open.tcp hlookup, htcp, Multiset.add_cons]
      rw [hwaiting, Multiset.erase_cons_head]
      rfl
    · next hfind =>
      refine h.fail (hkept _ c.opens) (Multiset.erase_of_notMem ?_).symm rfl le_rfl h.streams
      intro hmem
      rw [waiting, Multiset.mem_add, Multiset.mem_coe, List.mem_map, mem_values] at hmem
      rcases hmem with ⟨o, ho, htcp⟩ | ⟨s, o, ho, htcp⟩
      · exact hpending ⟨o, ho, htcp⟩
      · exact absurd (List.find?_eq_none.mp hfind ⟨s, o⟩ (AList.mem_lookup_iff.mp ho)) (by simpa using htcp)

/-- **A socket fails**, and leaves the table that it is in. -/
theorem Kept.onTcpEnd_error (h : Kept cfg 0 0 c) (a : Answers) (t : ℕ) :
    Keeps cfg 0 0 (c.onTcpEnd cfg a t true) := by
  have hnote := h.note [.failed t]
  unfold Client.onTcpEnd
  simp only [if_true]
  split
  · next hmem =>
    exact ⟨_, rfl, hnote.frame c.opens _, h.failAsking (asking_eraseFront hmem) rfl rfl le_rfl h.streams⟩
  · next hfronts =>
    split
    · next ing hing =>
      have hing : c.ingress.lookup t = some ing := hing
      exact ⟨_, rfl, hnote.eraseIngress (h.timer_of_ingress hing),
        h.failAsking (asking_eraseIngress hing) rfl rfl le_rfl h.streams⟩
    · next hingress =>
      split
      · next hassoc =>
        obtain ⟨assoc, hassoc⟩ := Option.isSome_iff_exists.mp hassoc
        have hassoc : c.assocs.lookup t = some assoc := hassoc
        have hq := quiet_endAssoc (c := c.note [.failed t]) hassoc
        refine ⟨_, rfl, hnote.endAssoc t, ?_⟩
        generalize (c.note [.failed t]).endAssoc t = c₁ at hq
        refine h.failAsking ?_ ?_ hq.log hq.nextId fun s o hs => ?_
        · rw [hq.asking]
          exact asking_eraseAssoc hassoc
        · rw [waiting, hq.pending, hq.opens]
          rfl
        · rw [hq.opens] at hs
          exact (h.streams s o hs).trans_le hq.nextId
      · next hassocs =>
        rw [if_neg (by decide)]
        have hout : t ∉ c.asking := by
          simp only [asking, Multiset.mem_add, Multiset.mem_coe, not_or]
          refine ⟨⟨AList.lookup_eq_none.mp hingress, AList.lookup_eq_none.mp ?_⟩, hfronts⟩
          exact Option.not_isSome_iff_eq_none.mp hassocs
        have hfail := h.failWaiting hout
        have hpending : Sound cfg { c.note [.failed t] with pending := removePending c.pending t } :=
          hnote.mono rfl rfl rfl le_rfl (fun o ho => List.mem_of_mem_eraseP ho) hnote.tables
        have hopens : (c.note [.failed t]).opens = c.opens := rfl
        rw [hopens]
        split
        · next e hfind =>
          rw [hfind] at hfail
          exact ⟨_, rfl, hpending.frame _ c.fronts, hfail⟩
        · next hfind =>
          rw [hfind] at hfail
          exact ⟨_, rfl, hpending, hfail⟩

include h

theorem Kept.onTcpEnd_eof (a : Answers) (t : ℕ) :
    Keeps cfg LA LW (c.onTcpEnd cfg a t false) := by
  unfold Client.onTcpEnd
  simp only [if_neg Bool.false_ne_true]
  split
  · exact h.frontTurn a t
  split
  · next ing hing => exact ⟨_, rfl, (h.takeIngress hing).shut⟩
  · split
    · next hassoc =>
      obtain ⟨assoc, hassoc⟩ := Option.isSome_iff_exists.mp hassoc
      exact ⟨_, rfl, (h.endAssoc hassoc).shut⟩
    · rw [if_pos (by decide)]
      exact ⟨_, rfl, h⟩

theorem Kept.onUdpSocket (op : ℕ) (r : Option (ℕ × SocketAddr)) :
    Kept cfg LA LW (c.onUdpSocket op r) := by
  unfold Client.onUdpSocket
  have hnext : c.nextId ≤ max c.nextId (r.elim 0 fun p => p.1 + 1) := Nat.le_max_left _ _
  have hnew : Kept cfg LA LW { c with nextId := max c.nextId (r.elim 0 fun p => p.1 + 1) } :=
    h.quiet (h.mono rfl rfl rfl hnext (fun _ ho => ho) (h.tables.mono hnext)) { Quiet.refl c with nextId := hnext }
  dsimp only
  split
  · exact hnew
  · next tcp assoc hfind =>
    obtain ⟨hlookup, hop⟩ := lookup_of_find hfind
    have hfits := h.tables.assocs tcp assoc hlookup
    rw [decide_eq_true_iff] at hop
    cases r with
    | some r =>
      obtain ⟨sock, addr⟩ := r
      have hput : Kept cfg LA LW { c with
          nextId := max c.nextId (sock + 1)
          assocs := c.assocs.insert tcp { assoc with openOp := none, sock := some sock } } := by
        refine hnew.quiet (hnew.mono rfl rfl rfl le_rfl (fun _ ho => ho)
          (hnew.tables.assoc (fun y => (namedBy_of_lookup hlookup y).symm) ⟨hfits.dsts, fun hno => ?_, fun hno => ?_⟩))
          { Quiet.refl _ with assocs := keys_insert_perm hlookup _ }
        · cases hno
        · cases hno
      refine hput.ask (.inr (mem_asking_of_assocs ?_)) (asks_write tcp _)
      show ((c.assocs.insert tcp _).lookup tcp).isSome
      rw [AList.lookup_insert]
      rfl
    | none =>
      -- an association that waits for its socket has no destinations
      have hdsts := hfits.unopened (hfits.opening (by rw [hop]; rfl))
      have hgone : Kept cfg (tcp ::ₘ LA) LW { c with nextId := max c.nextId 0, assocs := c.assocs.erase tcp } := by
        refine ⟨hnew.mono rfl rfl rfl le_rfl (fun _ ho => ho) (hnew.tables.unassoc fun y => ?_), hnew.takeAssoc hlookup⟩
        show namedBy c.assocs tcp y = none
        rw [namedBy_of_lookup hlookup, Assoc.named, hdsts]
        rfl
      have hshut := (hgone.ask (.inl (Multiset.mem_cons_self tcp LA)) (asks_write tcp (socks5ErrorReply .ok))).shut
      exact ⟨hgone.note _, hshut.move rfl rfl (List.append_assoc ..).symm le_rfl hshut.streams⟩

theorem Kept.onUdpRx (a : Answers) (sock : ℕ) (peer : SocketAddr) (d : List UInt8) :
    Keeps cfg LA LW (c.onUdpRx a sock peer d) := by
  unfold Client.onUdpRx
  split
  · exact ⟨c, rfl, h⟩
  · next tcp assoc hfind =>
    obtain ⟨hlookup, hsock⟩ := lookup_of_find hfind
    rw [decide_eq_true_iff] at hsock
    have hfits := h.tables.assocs tcp assoc hlookup
    -- only the source is learned
    have hsame : ∃ learned, (assoc.acceptSource peer).2 = { assoc with learned := learned } := by
      unfold Assoc.acceptSource
      split
      · exact ⟨_, rfl⟩
      · split
        · exact ⟨_, rfl⟩
        · exact ⟨_, rfl⟩
    obtain ⟨learned, hlearned⟩ := hsame
    dsimp only
    rw [hlearned]
    have hput : Kept cfg LA LW { c with assocs := c.assocs.insert tcp { assoc with learned := learned } } :=
      h.quiet (h.mono rfl rfl rfl le_rfl (fun _ ho => ho)
        (h.tables.assoc (fun y => (namedBy_of_lookup hlookup y).symm) ⟨hfits.dsts, hfits.opening, hfits.unopened⟩))
        { Quiet.refl c with assocs := keys_insert_perm hlookup _ }
    split
    · refine hput.udpOutbound a (AList.lookup_insert ..) ?_ d
      show assoc.sock ≠ none
      rw [hsock]
      exact Option.some_ne_none _
    · exact ⟨_, rfl, hput⟩

/-! ### Timers -/

theorem Kept.metrics (after : ℕ) : Kept cfg LA LW (c.timer after .metrics).2 := by
  refine h.armTimer .metrics { Quiet.refl c with nextId := Nat.le_succ _ } (fun _ _ => rfl) (fun id hid => ?_)
    (fun hresp => hresp.elim) rfl rfl (Nat.lt_succ_self _) (h.tables.mono (Nat.le_succ _))
  cases hid

theorem Kept.onTimer {id : ℕ} (a : Answers) (hdue : ∀ due, c.armed.lookup id = some due → due ≤ c.now) :
    Kept cfg LA LW (c.onTimer cfg a id) := by
  unfold Client.onTimer
  split
  · exact h
  · next tm hid =>
    dsimp only
    cases tm with
    | auth =>
      refine Kept.close ?_
      refine h.quiet ?_ { Quiet.refl c with }
      show Sound cfg (Client.cancel { c with conn := c.conn.map fun (k : Conn) => { k with authTimer := none } } id)
      refine h.release hid Tm.noConfusion ?_ (fun tm htm => holder_setConn _ htm) rfl rfl rfl rfl h.tables
      show (c.conn.map _).bind Conn.authTimer = none
      cases c.conn <;> rfl
    | reconnect =>
      refine Kept.connect ?_ a
      refine h.quiet ?_ { Quiet.refl c with }
      show Sound cfg (Client.cancel { c with reconnect := none } id)
      exact h.release hid Tm.noConfusion rfl (fun tm htm => holder_setReconnect _ htm) rfl rfl rfl rfl h.tables
    | metrics =>
      have hcancel : Kept cfg LA LW (c.cancel id) :=
        h.quiet (h.release hid Tm.noConfusion rfl (fun _ _ => rfl) rfl rfl rfl rfl h.tables) { Quiet.refl c with }
      cases cfg.metricsInterval with
      | none => exact hcancel
      | some every => exact hcancel.metrics every
    | ingress tcp =>
      have herase := h.eraseIngress hid
      dsimp only
      split
      · next hing =>
        obtain ⟨ing, hing⟩ := Option.isSome_iff_exists.mp hing
        have hgone : Kept cfg (tcp ::ₘ LA) LW (Client.cancel { c with ingress := c.ingress.erase tcp } id) :=
          ⟨herase, (h.toBooks.takeIngress hing).quiet { Quiet.refl _ with }⟩
        exact hgone.shut
      · next hnone =>
        have hnone : c.ingress.lookup tcp = none := Option.not_isSome_iff_eq_none.mp hnone
        rw [erase_of_absent hnone] at herase
        exact h.quiet herase { Quiet.refl c with }
    | pending =>
      have hcancel : Books LA LW (c.cancel id) := h.toBooks.quiet { Quiet.refl c with }
      have hbooks := hcancel.takePending (expirePending c.pending c.now cfg.pendingDeadline).1
        (expirePending c.pending c.now cfg.pendingDeadline).2 (by
          rw [expirePending, List.partition_eq_filter_filter]
          exact (List.filter_append_perm _ c.pending).symm)
      exact Kept.foldl_refuse _ _ _ _ ⟨h.expire hid hdue, hbooks⟩
    | udpResp sid =>
      obtain ⟨s, rx, hs, hphase⟩ := h.awaits hid
      dsimp only
      rw [endSession_cancel hs hphase]
      exact h.endSession sid false

theorem Kept.onStart (a : Answers) : Kept cfg LA LW (c.onStart cfg a) := by
  have hmetrics : Kept cfg LA LW (cfg.metricsInterval.elim c fun every => (c.timer every .metrics).2) := by
    cases cfg.metricsInterval with
    | none => exact h
    | some every => exact h.metrics every
  unfold Client.onStart
  dsimp only
  split
  · exact hmetrics.connect a
  · exact hmetrics

theorem Kept.onShutdown (a : Answers) : Kept cfg LA LW (c.onShutdown a) := by
  have hdown : Kept cfg LA LW { c with shuttingDown := true } :=
    h.same { Quiet.refl c with } rfl rfl rfl h.tables
  have hset := hdown.setUdp .unavailable
  unfold Client.onShutdown
  dsimp only
  generalize Client.setUdp { c with shuttingDown := true } .unavailable = c₁ at hset
  refine Kept.maybeExit (Kept.close ?_) a
  have hother (tm : Tm) (htm : tm ≠ .reconnect) := holder_setReconnect (c := c₁) none htm
  cases htimer : c₁.reconnect with
  | none =>
    refine hset.same { Quiet.refl c₁ with } (funext fun tm => ?_) rfl rfl hset.tables
    cases tm <;> grind [holder]
  | some id =>
    have hheld : c₁.holder .reconnect = some id := htimer
    exact hset.quiet (hset.release (hset.clocks.held hheld) Tm.noConfusion rfl hother rfl rfl rfl rfl hset.tables)
      { Quiet.refl c₁ with }

omit h

/-! ### Every run -/

theorem kept_new (cfg : Cfg) : Kept cfg 0 0 new where
  toSound := sound_new cfg
  ledger := by
    refine ⟨Multiset.nodup_zero, fun t ht => ?_, fun t ht => ?_, fun t _ _ => .unknown rfl, fun t _ => rfl⟩
    · exact absurd ht (Multiset.notMem_zero t)
    · exact absurd ht (Multiset.notMem_zero t)
  streams s o hs := by cases hs

/-- **No callback fails**, and each keeps the tables, the timers and the books. -/
theorem kept_next {b : Callback × Answers} (h : Kept cfg 0 0 c) (hfair : Fair c b) :
    Keeps cfg 0 0 (next cfg c b) := by
  obtain ⟨callback, a⟩ := b
  have hnow : Kept cfg 0 0 { c with now := a.now } :=
    h.same { Quiet.refl c with } rfl rfl rfl h.tables
  have htimely := hfair.2
  unfold next
  dsimp only
  cases callback with
  | start => exact ⟨_, rfl, hnow.onStart a⟩
  | established conn =>
    dsimp only
    split
    · exact hnow.onEstablished a
    · exact ⟨_, rfl, hnow⟩
  | connClosed conn =>
    refine ⟨_, rfl, ?_⟩
    split
    · exact hnow.connGone a
    · exact hnow
  | readable s =>
    dsimp only
    split
    · next hctrl => exact hnow.ctrlReadable a hctrl
    split
    · next hstream => exact hnow.sessionReadable a hstream
    · exact ⟨_, rfl, hnow.openReadable a s⟩
  | writable s =>
    dsimp only
    split
    · exact ⟨_, rfl, hnow.ctrlWritable a s⟩
    split
    · next hstream => exact hnow.sessionWritable a hstream
    · exact ⟨_, rfl, hnow.openWritable a s⟩
  | closed s =>
    dsimp only
    split
    · exact ⟨_, rfl, hnow.close⟩
    · split
      · exact ⟨_, rfl, hnow.endSession _ false⟩
      · exact ⟨_, rfl, hnow.dropOpen s⟩
  | accepted l tcp peerIp dst => exact hnow.onAccepted a l (of_decide_eq_true htimely) peerIp dst
  | tcpData tcp => exact hnow.onTcpData a tcp
  | tcpEnd tcp error =>
    cases error with
    | true => exact hnow.onTcpEnd_error a tcp
    | false => exact hnow.onTcpEnd_eof a tcp
  | udpSocket op r => exact ⟨_, rfl, hnow.onUdpSocket op r⟩
  | udpRx sock peer d => exact hnow.onUdpRx a sock peer d
  | timer id =>
    refine ⟨_, rfl, hnow.onTimer a fun due hdue => ?_⟩
    have : (c.armed.lookup id).all (· ≤ a.now) = true := htimely
    rw [show c.armed.lookup id = some due from hdue] at this
    exact of_decide_eq_true this
  | front tcp => exact hnow.frontTurn a tcp
  | h3 => exact ⟨_, rfl, hnow.maybeExit a⟩
  | shutdown => exact ⟨_, rfl, hnow.onShutdown a⟩

theorem kept_of_run {bs : List (Callback × Answers)} (hrun : Run (next cfg) Fair new bs c) : Kept cfg 0 0 c :=
  hrun.invariant (I := Kept cfg 0 0)
    (fun c b c' hc hfair hnext => by
      obtain ⟨c₁, hnext', hc₁⟩ := kept_next hc hfair
      cases hnext.symm.trans hnext'
      exact hc₁)
    (kept_new cfg)

/-- **The tables of the UDP sessions agree** in every state between callbacks. A destination of an
association names a session just if the session is for that destination; a stream leads to a
session just if the session has that stream, and it has one just if it is past auth; each table and
each queue keeps its bound; a timer for a RESP is armed just for the session that waits for it; a sid
is found wherever the counter stands; and no callback fails. -/
theorem udp_tables {bs : List (Callback × Answers)} (hrun : Run (next cfg) Fair new bs c) :
    (∀ tcp target sid, namedBy c.assocs tcp target = some sid ↔
      ∃ s, c.sess.bySid.lookup sid = some s ∧ s.assoc = tcp ∧ s.target = target) ∧
    (∀ st sid, c.sess.byStream.lookup st = some sid ↔ ∃ s, c.sess.bySid.lookup sid = some s ∧ s.stream = some st) ∧
    (∀ sid s, c.sess.bySid.lookup sid = some s →
      (s.stream = none ↔ ∃ queue, s.phase = .pendingAuth queue) ∧
      ∀ queue, s.phase = .pendingAuth queue → queue.length ≤ 8 ∧ (queue.map List.length).sum ≤ 8 * 1024) ∧
    c.sess.bySid.keys.Nodup ∧ c.sess.bySid.keys.length ≤ 1024 ∧
    (∀ tcp a, c.assocs.lookup tcp = some a → a.dsts.keys.length ≤ 64) ∧
    (∀ sid id, c.timers.lookup id = some (.udpResp sid) ∧ (c.armed.lookup id).isSome ↔
      ∃ s rx, c.sess.bySid.lookup sid = some s ∧ s.phase = .awaitResp id rx) ∧
    (∀ counter, ∃ r, allocSid (· ∈ c.sess.bySid.keys) (2 ^ 32) counter = some r) ∧
    ∀ b, Fair c b → ∃ c', next cfg c b = some c' := by
  have h := kept_of_run hrun
  refine ⟨h.tables.named, h.tables.streams, fun sid s hs => ?_, c.sess.bySid.keys_nodup, h.tables.sessions,
    fun tcp a ha => (h.tables.assocs tcp a ha).dsts, fun sid id => ⟨?_, ?_⟩, fun counter => ?_, fun b hfair => ?_⟩
  · exact ⟨(h.tables.phases sid s hs).stream, (h.tables.phases sid s hs).queue⟩
  · rintro ⟨htimer, -⟩
    exact h.awaits htimer
  · rintro ⟨s, rx, hs, hphase⟩
    have htimer : c.timers.lookup id = some (.udpResp sid) := by
      refine h.clocks.held ?_
      rw [holder_udpResp hs, hphase]
      rfl
    exact ⟨htimer, by rw [h.clocks.isSome_armed, htimer]; rfl⟩
  · have hmax : MAX_SESSIONS_PER_CONN < 2 ^ 32 := by decide
    exact exists_allocSid _ (h.tables.sessions.trans_lt hmax) counter
  · obtain ⟨c', hnext, -⟩ := kept_next h hfair
    exact ⟨c', hnext⟩

/-- A client with a SOCKS5 listener. -/
def socksCfg : Cfg where
  clientId := []
  token := []
  reconnect := true
  hasTcpIngress := true
  gateway := false
  mitm := false
  authDeadline := 10
  ingressDeadline := 10
  pendingDeadline := 30
  metricsInterval := none

/-- The address of a socket on the same host. -/
def localhost (port : UInt16) : SocketAddr := .v4 ⟨[127, 0, 0, 1], rfl⟩ port

/-- Everything works, and the socket has these bytes. -/
def socksAnswers (rx : List UInt8) : Answers where
  now := 0
  connect := true
  opens := fun _ => true
  send := fun _ => .error .blocked
  recv := []
  datagrams := true
  rx := rx
  written := true
  relayed := true
  h3Gone := true
  handoff := none
  holds := true
  delay := 1

/-- Socket 5 associates, and a datagram for port 53 comes before the tunnel stands. -/
def associated : List (Callback × Answers) :=
  [(.start, socksAnswers []),
    (.accepted .socks5 5 (ipOf (localhost 0)) none, socksAnswers []),
    (.tcpData 5, socksAnswers [5, 1, 0, 5, 3, 0, 1, 0, 0, 0, 0, 0, 0]),
    (.udpSocket 7 (some (8, localhost 1080)), socksAnswers []),
    (.udpRx 8 (localhost 4000) [0, 0, 0, 1, 8, 8, 8, 8, 0, 53, 1, 2], socksAnswers [])]

/-- The session of the datagram is named by its destination, and waits for auth with the datagram. -/
theorem udp_tables_associated :
    ∃ c s, Run (next socksCfg) Fair new associated c ∧ c.sess.bySid.lookup 1 = some s ∧ s.phase = .pendingAuth [[1, 2]] ∧
      namedBy c.assocs 5 s.target = some 1 ∧ s.stream = none := by
  have hsome : ((trace (next socksCfg) Fair new associated).bind fun c => c.sess.bySid.lookup 1).map
      (fun s => (s.assoc, s.phase)) = some (5, .pendingAuth [[1, 2]]) := by
    decide +kernel
  obtain ⟨s, hs, hkey⟩ := Option.map_eq_some_iff.mp hsome
  obtain ⟨c, htrace, hs⟩ := Option.bind_eq_some_iff.mp hs
  obtain ⟨hassoc, hphase⟩ := Prod.mk.inj hkey
  have hrun := Run.of_trace htrace
  obtain ⟨hnamed, -, hphases, -⟩ := udp_tables hrun
  exact ⟨c, s, hrun, hs, hphase, (hnamed 5 s.target 1).mpr ⟨s, hs, hassoc, rfl⟩,
    (hphases 1 s hs).1.mpr ⟨_, hphase⟩⟩

theorem completed_not_mem_asking {l : List Note} (h : Asking t l) : .completed t ∉ l := by
  obtain ⟨rest, rfl, hrest⟩ := h
  intro hmem
  rcases List.mem_cons.mp hmem with heq | hmem
  · cases heq
  · rcases hrest _ hmem with ⟨k, heq⟩ | ⟨bytes, heq⟩ <;> cases heq

theorem completed_not_mem_outcome {l : List Note} (h : Outcome t l) : .completed t ∉ l := by
  intro hmem
  cases h <;> simp at hmem

theorem mem_story {n : Note} {log : List Note} (h : n ∈ log) (ht : n.about t = true) : n ∈ story t log :=
  List.mem_filter.mpr ⟨h, ht⟩

/-- What has become of a request. -/
theorem Books.completed (h : Books 0 0 c) (ht : .completed t ∈ c.log) :
    ∃ before after, story t c.log = before ++ .completed t :: after ∧ .completed t ∉ before ++ after ∧
      (after = [] ∧ (t ∈ c.waiting ∨ .failed t ∈ c.log) ∨ Outcome t after ∧ t ∉ c.asking ∧ t ∉ c.waiting) := by
  have hledger := h.ledger
  rw [zero_add, zero_add] at hledger
  have hmem : .completed t ∈ story t c.log := mem_story ht (decide_eq_true rfl)
  -- it waits, in a table or not, unless it has had its outcome
  have hcases : Waiting t (story t c.log) ∧ (t ∈ c.waiting ∨ .failed t ∈ c.log) ∨
      Settled t (story t c.log) ∧ t ∉ c.asking ∧ t ∉ c.waiting := by
    by_cases hA : t ∈ c.asking
    · exact absurd hmem (completed_not_mem_asking (hledger.asks t hA))
    by_cases hW : t ∈ c.waiting
    · exact .inl ⟨hledger.waits t hW, .inl hW⟩
    cases hledger.rest t hA hW with
    | unknown hs =>
      rw [hs] at hmem
      exact absurd hmem List.not_mem_nil
    | left hs => exact absurd hmem (completed_not_mem_asking hs)
    | closed before hs hl =>
      rw [hl, List.mem_append, List.mem_singleton] at hmem
      rcases hmem with hmem | heq
      · exact absurd hmem (completed_not_mem_asking hs)
      · cases heq
    | failed hs hf => exact .inl ⟨hs, .inr hf⟩
    | settled hs => exact .inr ⟨hs, hA, hW⟩
  rcases hcases with ⟨⟨before, hasking, heq⟩, hwhy⟩ | ⟨⟨_, after, ⟨before, hasking, rfl⟩, houtcome, heq⟩, hout⟩
  · refine ⟨before, [], heq, ?_, .inl ⟨rfl, hwhy⟩⟩
    rw [List.append_nil]
    exact completed_not_mem_asking hasking
  · refine ⟨before, after, by rw [heq, List.append_assoc]; rfl, ?_, .inr ⟨houtcome, hout⟩⟩
    rw [List.mem_append, not_or]
    exact ⟨completed_not_mem_asking hasking, completed_not_mem_outcome houtcome⟩

theorem refuseAll_pending (os : List PendingOpen) (e : TcpErr) : (c.refuseAll os e).pending = c.pending := by
  unfold refuseAll
  induction os generalizing c with
  | nil => rfl
  | cons o os ih =>
    rw [List.foldl_cons, ih]
    rfl

/-- The timer of a request takes it out of the queue. -/
theorem expired {a : Answers} {o : PendingOpen} {id : ℕ} (hnodup : (c.pending.map PendingOpen.tcp).Nodup) (ho : o ∈ c.pending)
    (htimer : c.timers.lookup id = some .pending) (hdue : o.enqueuedAt + cfg.pendingDeadline ≤ a.now)
    (hnext : next cfg c (.timer id, a) = some c') : ∀ o' ∈ c'.pending, o'.tcp ≠ o.tcp := by
  cases hnext
  have htimer : ({ c with now := a.now } : Client).timers.lookup id = some .pending := htimer
  intro o' ho' htcp
  rw [onTimer, htimer] at ho'
  dsimp only at ho'
  rw [refuseAll_pending, expirePending, List.partition_eq_filter_filter] at ho'
  obtain ⟨ho', hkeep⟩ := List.mem_filter.mp ho'
  have heq : o' = o := List.inj_on_of_nodup_map hnodup ho' ho htcp
  rw [heq] at hkeep
  simp only [Function.comp_apply, Bool.not_eq_true', decide_eq_false_iff_not, Nat.not_le] at hkeep
  have hkeep : a.now - o.enqueuedAt < cfg.pendingDeadline := hkeep
  omega

/-- **Every request is accounted for**, in every state between callbacks. No socket is in two of the
tables, or twice in one. A request that is complete is so once, and then it waits in one of the two
tables, unless its socket has failed; or it has had one outcome and is in no table. The outcome is the
last that is done to the socket. A request in the queue has a timer at its deadline, which takes it out. -/
theorem requests_accounted {bs : List (Callback × Answers)} (hrun : Run (next cfg) Fair new bs c) :
    (c.ingress.keys ++ c.pending.map PendingOpen.tcp ++ c.opens.entries.map (fun e => e.2.tcp) ++ c.assocs.keys).Nodup ∧
    (∀ t, .completed t ∈ c.log →
      ∃ before after, story t c.log = before ++ .completed t :: after ∧ .completed t ∉ before ++ after ∧
        (after = [] ∧ ((∃ o ∈ c.pending, o.tcp = t) ∨ (∃ s o, c.opens.lookup s = some o ∧ o.tcp = t) ∨ .failed t ∈ c.log) ∨
          Outcome t after ∧ (∀ o ∈ c.pending, o.tcp ≠ t) ∧ ∀ s o, c.opens.lookup s = some o → o.tcp ≠ t)) ∧
    ∀ o ∈ c.pending, ∃ id, c.timers.lookup id = some .pending ∧
      c.armed.lookup id = some (o.enqueuedAt + cfg.pendingDeadline) ∧
      ∀ a c', o.enqueuedAt + cfg.pendingDeadline ≤ a.now → next cfg c (.timer id, a) = some c' →
        ∀ o' ∈ c'.pending, o'.tcp ≠ o.tcp := by
  have h := kept_of_run hrun
  have hwaiting (t : ℕ) : t ∈ c.waiting ↔ (∃ o ∈ c.pending, o.tcp = t) ∨ ∃ s o, c.opens.lookup s = some o ∧ o.tcp = t := by
    rw [waiting, Multiset.mem_add, Multiset.mem_coe, List.mem_map, mem_values]
  have hnodup := h.nodup
  rw [asking, waiting, values, Multiset.coe_add, Multiset.coe_add, Multiset.coe_add, Multiset.coe_add,
    Multiset.coe_nodup] at hnodup
  have hpending : (c.pending.map PendingOpen.tcp).Nodup :=
    ((List.nodup_append'.mp hnodup).2.1.sublist (List.sublist_append_left ..))
  refine ⟨?_, fun t ht => ?_, fun o ho => ?_⟩
  · refine List.Nodup.sublist (List.sublist_append_left _ c.fronts) ?_
    refine (List.Perm.nodup_iff ?_).mp hnodup
    refine List.perm_iff_count.mpr fun t => ?_
    simp only [List.count_append]
    omega
  · obtain ⟨before, after, heq, honce, hwhat⟩ := h.completed ht
    refine ⟨before, after, heq, honce, ?_⟩
    rcases hwhat with ⟨hempty, hwait | hfailed⟩ | ⟨houtcome, -, hout⟩
    · rcases (hwaiting t).mp hwait with hq | ho
      · exact .inl ⟨hempty, .inl hq⟩
      · exact .inl ⟨hempty, .inr (.inl ho)⟩
    · exact .inl ⟨hempty, .inr (.inr hfailed)⟩
    · rw [hwaiting, not_or] at hout
      exact .inr ⟨houtcome, fun o ho htcp => hout.1 ⟨o, ho, htcp⟩, fun s o ho htcp => hout.2 ⟨s, o, ho, htcp⟩⟩
  · obtain ⟨id, htimer, hdue⟩ := h.due o ho
    exact ⟨id, htimer, hdue, fun a c' hnow hnext => expired hpending ho htimer hnow hnext⟩

/-- Socket 5 asks for port 80 before the tunnel stands. -/
def captured : List (Callback × Answers) :=
  [(.start, socksAnswers []),
    (.accepted .transparent 5 (ipOf (localhost 0)) (some ⟨.ip (ipOf (localhost 0)), 80⟩), socksAnswers [])]

/-- Its request waits in the queue, and the timer is due after 30. -/
theorem requests_accounted_captured :
    ∃ c, Run (next socksCfg) Fair new captured c ∧ story 5 c.log = [.accepted 5, .completed 5] ∧
      c.pending.map (fun o => (o.tcp, o.enqueuedAt)) = [(5, 0)] ∧
      ∃ id, c.timers.lookup id = some .pending ∧ c.armed.lookup id = some 30 := by
  have hsome : (trace (next socksCfg) Fair new captured).map
      (fun c => (story 5 c.log, c.pending.map fun o => (o.tcp, o.enqueuedAt))) =
      some ([.accepted 5, .completed 5], [(5, 0)]) := by
    decide +kernel
  obtain ⟨c, htrace, hkey⟩ := Option.map_eq_some_iff.mp hsome
  obtain ⟨hstory, hpending⟩ := Prod.mk.inj hkey
  have hrun := Run.of_trace htrace
  obtain ⟨o, ho, hkey⟩ : ∃ o ∈ c.pending, (o.tcp, o.enqueuedAt) = (5, 0) := by
    have hmem : (5, 0) ∈ c.pending.map fun o => (o.tcp, o.enqueuedAt) := by
      rw [hpending]
      exact List.mem_singleton_self _
    exact List.mem_map.mp hmem
  obtain ⟨-, -, htimers⟩ := requests_accounted hrun
  obtain ⟨id, htimer, hdue, -⟩ := htimers o ho
  rw [(Prod.mk.inj hkey).2] at hdue
  exact ⟨c, hrun, hstory, hpending, id, htimer, hdue⟩

/-- **No wait is without its deadline.** In every state between callbacks, the id that the connection
in auth, the reconnect, a socket at the front or a session before its RESP keeps is that of a timer
for just this purpose, and it is armed; when that of a front fires, this front and no other is
gone, and its socket is closed. -/
theorem deadlines_armed {bs : List (Callback × Answers)} (hrun : Run (next cfg) Fair new bs c) :
    (∀ tm id, c.holder tm = some id → c.timers.lookup id = some tm ∧ (c.armed.lookup id).isSome) ∧
    ∀ tcp f a c', c.ingress.lookup tcp = some f → next cfg c (.timer f.timer, a) = some c' →
      c'.ingress = c.ingress.erase tcp ∧ c'.log = c.log ++ [.close tcp] := by
  have h := (kept_of_run hrun).clocks
  refine ⟨fun tm id hid => ⟨h.held hid, ?_⟩, fun tcp f a c' hf hnext => ?_⟩
  · rw [h.isSome_armed, h.held hid]
    rfl
  · have htimer : c.timers.lookup f.timer = some (.ingress tcp) := h.held (by rw [holder, hf]; rfl)
    cases hnext
    rw [onTimer, htimer]
    have hsome : (c.ingress.lookup tcp).isSome := by rw [hf]; rfl
    dsimp only [cancel]
    rw [if_pos hsome]
    exact ⟨rfl, rfl⟩

/-- Socket 5 has said nothing yet. -/
theorem deadlines_armed_silent :
    ∃ c f, Run (next socksCfg) Fair new (associated.take 2) c ∧ c.ingress.lookup 5 = some f ∧
      c.timers.lookup f.timer = some (.ingress 5) ∧ (c.armed.lookup f.timer).isSome := by
  have hsome : ((trace (next socksCfg) Fair new (associated.take 2)).bind (·.ingress.lookup 5)).isSome := by
    decide +kernel
  obtain ⟨f, hsome⟩ := Option.isSome_iff_exists.mp hsome
  obtain ⟨c, htrace, hf⟩ := Option.bind_eq_some_iff.mp hsome
  have hrun := Run.of_trace htrace
  exact ⟨c, f, hrun, hf, (deadlines_armed hrun).1 (.ingress 5) f.timer (by rw [holder, hf]; rfl)⟩

end Client

end MqProxy.Tunnel
