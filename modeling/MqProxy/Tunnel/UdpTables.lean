import MqProxy.Library.Runs
import MqProxy.Library.Table
import MqProxy.Library.Timers
import MqProxy.Tunnel.Client
import MqProxy.Tunnel.Reads
import Mathlib.Data.List.Perm.Subperm

/-!
# The tables of the client's UDP sessions

A session is in `bySid` under its sid; a destination of its association names the sid; the
stream of the session leads to it through `byStream`; and a timer waits for its RESP. `Tables`
says how the first three belong together, and `Clocks` that the timers are those that are
waited for. `Sound` is both; here are the changes of the client that it is kept by.

An association that ends is taken out first, and then its sessions end one by one. The result is
that of ending the sessions first (`foldl_endSession_eraseAssoc`), so that no session is ever
seen without its association.
-/

namespace MqProxy.Tunnel

open MqProxy.Runtime MqProxy.Wire MqProxy.Ingress MqProxy.Udp MqProxy.Library
open MqProxy.Server (Incoming drain MAX_SESSIONS_PER_CONN)
open MqProxy.Client (connectRequest wireAddr connectFrame length_connectTcpReq_lt zero_le_max withType_eq)

/-! ### What is always written -/

/-- The host of a request is cut to what a frame takes. -/
theorem exists_connectRequest (target : Target) : ∃ req, connectRequest target = some req := by
  have hcap : (wireAddr target.host).2.length ≤ Wire.MAX_HOST := by
    match target.host with
    | .ip (.v4 a) => rw [wireAddr, a.property]; decide
    | .ip (.v6 a) => rw [wireAddr, a.property]; decide
    | .domain d =>
      simp only [wireAddr, List.length_take]
      omega
  have henc : (connectFrame target).Encodable := ⟨zero_le_max, hcap⟩
  exact ⟨_, withType_eq ConnectTcpReq.format STREAM_TYPE_CONNECT_TCP henc (length_connectTcpReq_lt henc)⟩

theorem exists_encode {f : AuthReq} (h : f.Encodable) {out : List UInt8} (hout : MAX_FRAME ≤ out.length) :
    ∃ r, f.encode out = .ok r :=
  ⟨_, AuthReq.format.encodeWith_eq h ((AuthReq.format.bounded h).trans hout)⟩

theorem exists_authRequest (cfg : Cfg) : ∃ req, Client.authRequest cfg = some req := by
  have hversion : (1 : UInt64) ≤ Varint.MAX := by decide
  have hout : MAX_FRAME ≤ (List.replicate MAX_FRAME (0 : UInt8)).length := by rw [List.length_replicate]
  have hfits : AuthReq.Encodable ⟨1, cfg.clientId.take MAX_CLIENT_ID, cfg.token.take MAX_AUTH_TOKEN, 0⟩ :=
    ⟨hversion, List.length_take_le _ _, List.length_take_le _ _, zero_le_max⟩
  obtain ⟨r, hr⟩ := exists_encode hfits hout
  unfold Client.authRequest
  dsimp only
  rw [hr]
  exact ⟨_, rfl⟩

/-! ### Sids -/

theorem live_of_allocSid {live : UInt32 → Bool} {turns : ℕ} {next : UInt32} (h : allocSid live turns next = none) {i : ℕ}
    (hi : i < turns) : live (next + UInt32.ofNat i) = true := by
  induction turns generalizing next i with
  | zero => exact absurd hi (Nat.not_lt_zero i)
  | succ turns ih =>
    rw [allocSid] at h
    split at h
    · next hlive =>
      cases i with
      | zero => simpa using hlive
      | succ i =>
        have := ih h (Nat.lt_of_succ_lt_succ hi)
        rwa [UInt32.add_assoc, show (1 : UInt32) + UInt32.ofNat i = UInt32.ofNat (i + 1) by
          rw [Nat.add_comm i 1, UInt32.ofNat_add]; rfl] at this
    · cases h

theorem not_live_of_allocSid {live : UInt32 → Bool} {turns : ℕ} {next sid next' : UInt32}
    (h : allocSid live turns next = some (sid, next')) : live sid = false := by
  induction turns generalizing next with
  | zero => cases h
  | succ turns ih =>
    rw [allocSid] at h
    split at h
    · exact ih h
    · next hlive =>
      cases h
      simpa using hlive

/-- **A sid is always found**, wherever the counter stands: fewer sids are live than there are. -/
theorem exists_allocSid (live : List UInt32) (hlive : live.length < 2 ^ 32) (next : UInt32) :
    ∃ r, allocSid (· ∈ live) (2 ^ 32) next = some r := by
  cases halloc : allocSid (· ∈ live) (2 ^ 32) next with
  | some r => exact ⟨r, rfl⟩
  | none =>
    let sids := (List.range (live.length + 1)).map fun i => next + UInt32.ofNat i
    have hsub : sids ⊆ live := by
      intro sid hsid
      obtain ⟨i, hi, rfl⟩ := List.mem_map.mp hsid
      rw [List.mem_range] at hi
      simpa using live_of_allocSid halloc (Nat.lt_of_lt_of_le hi hlive)
    have hnodup : sids.Nodup := by
      refine List.Nodup.map_on ?_ List.nodup_range
      intro i hi j hj hij
      rw [List.mem_range] at hi hj
      have hij' := congrArg UInt32.toNat ((UInt32.add_right_inj next).mp hij)
      rw [UInt32.toNat_ofNat', UInt32.toNat_ofNat', Nat.mod_eq_of_lt (by omega), Nat.mod_eq_of_lt (by omega)] at hij'
      exact hij'
    have hle := (List.subperm_of_subset hnodup hsub).length_le
    rw [List.length_map, List.length_range] at hle
    omega

/-! ### The queue of a session -/

/-- At most 8 datagrams, and at most 8 KiB. -/
def QueueFits (q : List (List UInt8)) : Prop :=
  q.length ≤ PREAUTH_SENDQ_DGRAMS ∧ (q.map List.length).sum ≤ PREAUTH_SENDQ_BYTES

theorem evict_fits {n : ℕ} (hn : n ≤ PREAUTH_SENDQ_BYTES) (q : List (List UInt8)) :
    ∃ q', evict n q = some q' ∧ q'.length < PREAUTH_SENDQ_DGRAMS ∧ (q'.map List.length).sum + n ≤ PREAUTH_SENDQ_BYTES := by
  induction q with
  | nil =>
    refine ⟨[], ?_, by decide, by simpa using hn⟩
    rw [evict, if_neg (by omega)]
  | cons p q ih =>
    rw [evict]
    split
    · exact ih
    · next hfits =>
      rw [not_or, Nat.not_le, gt_iff_lt, Nat.not_lt] at hfits
      exact ⟨p :: q, rfl, hfits.1, hfits.2⟩

/-- The queue keeps its bounds, and the oldest is there as long as one is over. -/
theorem enqueue_fits {q : List (List UInt8)} (hq : QueueFits q) (p : List UInt8) :
    ∃ q', enqueue q p = some q' ∧ QueueFits q' := by
  rw [enqueue]
  split
  · exact ⟨q, rfl, hq⟩
  · next hlen =>
    obtain ⟨q', hevict, hcount, hbytes⟩ := evict_fits (Nat.not_lt.mp hlen) q
    refine ⟨q' ++ [p], by rw [hevict]; rfl, ?_, ?_⟩
    · rw [List.length_append, List.length_singleton]
      exact hcount
    · rw [List.map_append, List.sum_append, List.map_singleton, List.sum_singleton]
      exact hbytes

/-! ### Destinations -/

/-- The session of a destination. -/
def Assoc.named (a : Assoc) (target : Target) : Option UInt32 := (a.dsts.lookup target).bind DstEntry.session

/-- At most 64 destinations, and none before there is a socket. -/
structure Assoc.Fits (a : Assoc) : Prop where
  dsts : a.dsts.keys.length ≤ MAX_DST_PER_ASSOC
  opening : a.openOp.isSome → a.sock = none
  unopened : a.sock = none → a.dsts = ∅

/-- The session of a destination of an association. -/
def namedBy (assocs : AList fun _ : ℕ => Assoc) (tcp : ℕ) (target : Target) : Option UInt32 :=
  (assocs.lookup tcp).bind (·.named target)

@[grind =] theorem namedBy_insert (assocs : AList fun _ : ℕ => Assoc) (tcp t : ℕ) (a : Assoc) (target : Target) :
    namedBy (assocs.insert tcp a) t target = if t = tcp then a.named target else namedBy assocs t target := by
  grind [namedBy]

theorem namedBy_of_lookup {assocs : AList fun _ : ℕ => Assoc} {tcp : ℕ} {a : Assoc} (h : assocs.lookup tcp = some a)
    (target : Target) : namedBy assocs tcp target = a.named target := by
  rw [namedBy, h, Option.bind_some]

/-- An entry of a destination without a session that is new, or taken over. -/
theorem named_insert_none (a : Assoc) (target x : Target) (e : DstEntry) (he : e.session = none) :
    Assoc.named { a with dsts := a.dsts.insert target e } x = if x = target then none else a.named x := by
  grind [Assoc.named]

/-- `insert_dst` names the same sessions as before. -/
theorem Assoc.insertDst_spec {a a' : Assoc} {target : Target} {now : ℕ} (hfits : a.Fits) (hsock : a.sock ≠ none)
    (habsent : a.dsts.lookup target = none) (h : a.insertDst target now = some a') :
    a'.Fits ∧ (∀ x, a'.named x = a.named x) ∧ (a'.dsts.lookup target).isSome ∧ a'.sock = a.sock := by
  have hnone : a.named target = none := by rw [named, habsent, Option.bind_none]
  unfold Assoc.insertDst at h
  split at h
  · next hfull =>
    obtain ⟨e, he, rfl⟩ := Option.map_eq_some_iff.mp h
    have hfree := List.find?_some he
    have hmem : a.dsts.lookup e.1 = some e.2 := AList.mem_lookup_iff.mpr (List.mem_of_find?_eq_some he)
    -- the entry that goes has no session
    have hsession : a.named e.1 = none := by
      rw [named, hmem, Option.bind_some]
      simp only [DstEntry.free, Bool.and_eq_true, Option.isNone_iff_eq_none] at hfree
      exact hfree.1
    have habsent' : (a.dsts.erase e.1).lookup target = none := by grind
    refine ⟨⟨?_, hfits.opening, fun hs => absurd hs hsock⟩, fun x => ?_, by grind, rfl⟩
    · show ((a.dsts.erase e.1).insert target ⟨none, none⟩).keys.length ≤ MAX_DST_PER_ASSOC
      rw [length_keys_insert_of_absent habsent', length_keys_erase_of_lookup hmem]
      exact hfits.dsts
    · show Assoc.named { a with dsts := (a.dsts.erase e.1).insert target ⟨none, none⟩ } x = a.named x
      grind [named]
  · next hroom =>
    cases h
    refine ⟨⟨?_, hfits.opening, fun hs => absurd hs hsock⟩, fun x => ?_, by grind, rfl⟩
    · show (a.dsts.insert target ⟨none, none⟩).keys.length ≤ MAX_DST_PER_ASSOC
      rw [length_keys_insert_of_absent habsent]
      omega
    · grind [named_insert_none]

/-! ### The tables -/

/-- A session has a stream once it is past auth, and its queue keeps its bounds. -/
structure Session.Fits (s : Session) : Prop where
  stream : s.stream = none ↔ ∃ queue, s.phase = .pendingAuth queue
  queue : ∀ queue, s.phase = .pendingAuth queue → QueueFits queue

/-- **How the tables belong together.** -/
structure Tables (assocs : AList fun _ : ℕ => Assoc) (sess : Sessions) (n : ℕ) : Prop where
  /-- A destination names a session just if the session is for that destination. -/
  named : ∀ tcp target sid,
    namedBy assocs tcp target = some sid ↔ ∃ s, sess.bySid.lookup sid = some s ∧ s.assoc = tcp ∧ s.target = target
  /-- A stream leads to a session just if the session has that stream. -/
  streams : ∀ st sid, sess.byStream.lookup st = some sid ↔ ∃ s, sess.bySid.lookup sid = some s ∧ s.stream = some st
  known : ∀ sid s st, sess.bySid.lookup sid = some s → s.stream = some st → st < n
  phases : ∀ sid s, sess.bySid.lookup sid = some s → s.Fits
  sessions : sess.bySid.keys.length ≤ MAX_SESSIONS_PER_CONN
  assocs : ∀ tcp a, assocs.lookup tcp = some a → a.Fits

namespace Tables

variable {assocs assocs' : AList fun _ : ℕ => Assoc} {sess : Sessions} {n n' tcp st : ℕ} {sid : UInt32} {s s' : Session}
  {a : Assoc} {target : Target}

variable (h : Tables assocs sess n)
include h

theorem mono (hn : n ≤ n') : Tables assocs sess n' :=
  { h with known := fun sid s st hs hst => (h.known sid s st hs hst).trans_le hn }

/-- Two sessions are not for one destination. -/
theorem sid_inj {sid' : UInt32} (hs : sess.bySid.lookup sid = some s)
    (hs' : sess.bySid.lookup sid' = some s') (hassoc : s'.assoc = s.assoc) (htarget : s'.target = s.target) : sid' = sid := by
  have hnamed := (h.named s.assoc s.target sid).mpr ⟨s, hs, rfl, rfl⟩
  have hnamed' := (h.named s.assoc s.target sid').mpr ⟨s', hs', hassoc, htarget⟩
  exact Option.some.inj (hnamed'.symm.trans hnamed)

/-- **A session ends**: its destination and its stream lead nowhere. -/
theorem ended (hs : sess.bySid.lookup sid = some s)
    (hnamed : ∀ t y, namedBy assocs' t y = if t = s.assoc ∧ y = s.target then none else namedBy assocs t y)
    (hfits : ∀ t a, assocs'.lookup t = some a → a.Fits) :
    Tables assocs'
      { sess with
        bySid := sess.bySid.erase sid
        byStream := s.stream.elim sess.byStream fun st => sess.byStream.erase st } n where
  named := by
    have hinj (sid' : UInt32) (s' : Session) (hs' : sess.bySid.lookup sid' = some s') := h.sid_inj hs hs'
    have hold := h.named
    grind
  streams := by
    intro st sid'
    -- the stream of the session is the only one that goes
    have hforget : (s.stream.elim sess.byStream fun st => sess.byStream.erase st).lookup st =
        if s.stream = some st then none else sess.byStream.lookup st := by
      cases s.stream <;> grind [Option.elim]
    have hself := fun hst => (h.streams st sid).mpr ⟨s, hs, hst⟩
    have hold := h.streams
    grind
  known sid' s' st hs' hst := forall_lookup_erase (fun sid s hs => h.known sid s st hs) sid' s' hs' hst
  phases := forall_lookup_erase h.phases
  sessions := (length_keys_erase_le sess.bySid sid).trans h.sessions
  assocs := hfits

/-- **A session stays what it is for**, whatever else changes in it. -/
theorem put (hs : sess.bySid.lookup sid = some s) (hassoc : s'.assoc = s.assoc)
    (htarget : s'.target = s.target) (hstream : s'.stream = s.stream) (hfits : s'.Fits) :
    Tables assocs { sess with bySid := sess.bySid.insert sid s' } n where
  named := by
    intro t y sid'
    rw [h.named, exists_lookup_insert_iff hs (by rw [hassoc, htarget])]
  streams := by
    intro st sid'
    rw [exists_lookup_insert_iff hs (by rw [hstream])]
    exact h.streams st sid'
  known := by
    have hknown := h.known
    grind
  phases := forall_lookup_insert h.phases hfits
  sessions := (length_keys_insert_of_lookup hs s').le.trans h.sessions
  assocs := h.assocs

/-- **A session gets its stream**, which no session had. -/
theorem issued (hs : sess.bySid.lookup sid = some s) (hnone : s.stream = none)
    (hassoc : s'.assoc = s.assoc) (htarget : s'.target = s.target) (hstream : s'.stream = some st) (hfits : s'.Fits)
    (hst : n ≤ st) (hn : st < n') :
    Tables assocs { sess with bySid := sess.bySid.insert sid s', byStream := sess.byStream.insert st sid } n' where
  named := by
    intro t y sid'
    rw [h.named, exists_lookup_insert_iff hs (by rw [hassoc, htarget])]
  streams := by
    have hold := h.streams
    have hknown := h.known
    grind
  known := by
    have hknown := h.known
    grind
  phases := forall_lookup_insert h.phases hfits
  sessions := (length_keys_insert_of_lookup hs s').le.trans h.sessions
  assocs := h.assocs

/-- **A session is opened** for a destination that had none, under a sid that was free. -/
theorem opened {nextSid : UInt32} (hsid : sess.bySid.lookup sid = none)
    (hroom : sess.bySid.keys.length < MAX_SESSIONS_PER_CONN) (hnone : namedBy assocs tcp target = none)
    (ha : ∀ y, a.named y = if y = target then some sid else namedBy assocs tcp y) (hfits : a.Fits)
    (hassoc : s.assoc = tcp) (htarget : s.target = target) (hstream : s.stream = none) (hs : s.Fits) :
    Tables (assocs.insert tcp a) { sess with nextSid := nextSid, bySid := sess.bySid.insert sid s } n where
  named := by
    have hold := h.named
    grind
  streams := by
    have hold := h.streams
    grind
  known := by
    have hknown := h.known
    grind
  phases := forall_lookup_insert h.phases hs
  sessions := by
    show (sess.bySid.insert sid s).keys.length ≤ MAX_SESSIONS_PER_CONN
    rw [length_keys_insert_of_absent hsid]
    exact hroom
  assocs := forall_lookup_insert h.assocs hfits

/-- An association with the same sessions, or a new one with none. -/
theorem assoc (ha : ∀ y, a.named y = namedBy assocs tcp y) (hfits : a.Fits) :
    Tables (assocs.insert tcp a) sess n where
  named := by
    have hold := h.named
    grind
  streams := h.streams
  known := h.known
  phases := h.phases
  sessions := h.sessions
  assocs := forall_lookup_insert h.assocs hfits

/-- An association goes, and it has no sessions. -/
theorem unassoc (hnone : ∀ y, namedBy assocs tcp y = none) :
    Tables (assocs.erase tcp) sess n where
  named := by
    intro t y sid'
    rw [← h.named]
    by_cases ht : t = tcp
    · rw [ht, hnone, namedBy, AList.lookup_erase, Option.bind_none]
    · rw [namedBy, AList.lookup_erase_ne ht, namedBy]
  streams := h.streams
  known := h.known
  phases := h.phases
  sessions := h.sessions
  assocs := forall_lookup_erase h.assocs

end Tables

/-! ### The timers -/

/-- The id of the timer that a session waits for. -/
def UdpPhase.deadline : UdpPhase → Option ℕ
  | .awaitResp deadline _ => some deadline
  | _ => none

/-- The timers whose ids are kept for as long as they are armed. -/
def IsResp : Tm → Prop
  | .udpResp _ => True
  | _ => False

/-- A timer for the requests that wait is due at that time. -/
def Due (timers : AList fun _ : ℕ => Tm) (armed : AList fun _ : ℕ => ℕ) (time : ℕ) : Prop :=
  ∃ id, timers.lookup id = some .pending ∧ armed.lookup id = some time

theorem Due.erase {timers : AList fun _ : ℕ => Tm} {armed : AList fun _ : ℕ => ℕ} {time id : ℕ} {tm : Tm}
    (h : Due timers armed time) (hid : timers.lookup id = some tm) (htm : tm ≠ .pending) :
    Due (timers.erase id) (armed.erase id) time := by
  obtain ⟨id', htimer, harmed⟩ := h
  have hne : id' ≠ id := by
    rintro rfl
    exact htm (Option.some.inj (hid.symm.trans htimer))
  exact ⟨id', by rw [AList.lookup_erase_ne hne, htimer], by rw [AList.lookup_erase_ne hne, harmed]⟩

namespace Client

variable {cfg : Cfg} {c c' : Client} {a : Answers} {sid : UInt32} {s s' : Session} {tcp id : ℕ}

/-- The id that is kept of a timer. -/
def holder (c : Client) : Tm → Option ℕ
  | .auth => c.conn.bind Conn.authTimer
  | .reconnect => c.reconnect
  | .ingress tcp => (c.ingress.lookup tcp).map Ingress.timer
  | .udpResp sid => (c.sess.bySid.lookup sid).bind fun s => s.phase.deadline
  | .metrics => none
  | .pending => none

/-- The ids that are kept, where what keeps the id is as it was. -/
theorem holder_congr {tm : Tm} (hconn : tm = .auth → c'.conn.bind Conn.authTimer = c.conn.bind Conn.authTimer)
    (hreconnect : tm = .reconnect → c'.reconnect = c.reconnect) (hingress : c'.ingress = c.ingress)
    (hsess : ∀ sid, tm = .udpResp sid → c'.holder (.udpResp sid) = c.holder (.udpResp sid)) : c'.holder tm = c.holder tm := by
  cases tm with
  | auth => exact hconn rfl
  | reconnect => exact hreconnect rfl
  | metrics => rfl
  | ingress tcp => rw [holder, holder, hingress]
  | pending => rfl
  | udpResp sid => exact hsess sid rfl

theorem holder_setConn {tm : Tm} (conn : Option Conn) (htm : tm ≠ .auth) :
    Client.holder { c with conn := conn } tm = c.holder tm :=
  holder_congr (fun heq => absurd heq htm) (fun _ => rfl) rfl fun _ _ => rfl

theorem holder_setReconnect {tm : Tm} (reconnect : Option ℕ) (htm : tm ≠ .reconnect) :
    Client.holder { c with reconnect := reconnect } tm = c.holder tm :=
  holder_congr (fun _ => rfl) (fun heq => absurd heq htm) rfl fun _ _ => rfl

/-- What holds between callbacks of the sessions and the timers. -/
structure Sound (cfg : Cfg) (c : Client) : Prop where
  clocks : Clocks IsResp c.holder c.timers c.armed c.nextId
  due : ∀ o ∈ c.pending, Due c.timers c.armed (o.enqueuedAt + cfg.pendingDeadline)
  tables : Tables c.assocs c.sess c.nextId

/-- Ids are given, and parts of the client that wait for no timer change. -/
theorem Sound.mono (h : Sound cfg c) (hholder : c'.holder = c.holder) (htimers : c'.timers = c.timers)
    (harmed : c'.armed = c.armed) (hnext : c.nextId ≤ c'.nextId) (hpending : ∀ o ∈ c'.pending, o ∈ c.pending)
    (htables : Tables c'.assocs c'.sess c'.nextId) : Sound cfg c' where
  clocks := by
    rw [htimers, harmed]
    exact h.clocks.mono hnext (fun tm id hid => by rwa [hholder] at hid) fun tm _ => by rw [hholder]
  due := by
    rw [htimers, harmed]
    exact fun o ho => h.due o (hpending o ho)
  tables := htables

/-- **A timer is armed.** -/
theorem Sound.arm (tm : Tm) {due : ℕ} (h : Sound cfg c) (hother : ∀ tm', tm' ≠ tm → c'.holder tm' = c.holder tm')
    (hheld : ∀ id, c'.holder tm = some id → id = c.nextId)
    (hkept : IsResp tm → c.holder tm = none ∧ c'.holder tm = some c.nextId)
    (htimers : c'.timers = c.timers.insert c.nextId tm) (harmed : c'.armed = c.armed.insert c.nextId due)
    (hnext : c.nextId < c'.nextId)
    (hpending : ∀ o ∈ c'.pending, o ∈ c.pending ∨ tm = .pending ∧ due = o.enqueuedAt + cfg.pendingDeadline)
    (htables : Tables c'.assocs c'.sess c'.nextId) : Sound cfg c' where
  clocks := by
    rw [htimers, harmed]
    exact h.clocks.arm hnext hother hheld hkept
  due := by
    intro o ho
    rw [htimers, harmed]
    rcases hpending o ho with ho | ⟨rfl, rfl⟩
    · obtain ⟨id, htimer, hdue⟩ := h.due o ho
      have hne : id ≠ c.nextId := (h.clocks.known htimer).ne
      exact ⟨id, by rw [AList.lookup_insert_ne hne, htimer], by rw [AList.lookup_insert_ne hne, hdue]⟩
    · exact ⟨c.nextId, AList.lookup_insert .., AList.lookup_insert ..⟩
  tables := htables

/-- **A timer is over**, fired or cancelled, and its id is kept no longer. -/
theorem Sound.release {tm : Tm} (h : Sound cfg c) (hid : c.timers.lookup id = some tm) (htm : tm ≠ .pending)
    (hgone : c'.holder tm = none) (hother : ∀ tm', tm' ≠ tm → c'.holder tm' = c.holder tm')
    (htimers : c'.timers = c.timers) (harmed : c'.armed = c.armed) (hnext : c'.nextId = c.nextId)
    (hpending : c'.pending = c.pending) (htables : Tables c'.assocs c'.sess c'.nextId) : Sound cfg (c'.cancel id) where
  clocks := by
    have := h.clocks.cancel hid hgone hother
    rw [← htimers, ← harmed, ← hnext] at this
    exact this
  due := by
    intro o ho
    have := (h.due o (hpending ▸ ho)).erase hid htm
    rw [← htimers, ← harmed] at this
    exact this
  tables := htables

theorem Sound.note (h : Sound cfg c) (ns : List Note) : Sound cfg (c.note ns) :=
  h.mono rfl rfl rfl le_rfl (fun _ ho => ho) h.tables

theorem Sound.openStream (h : Sound cfg c) (a : Answers) : Sound cfg (c.openStream a).2 :=
  h.mono rfl rfl rfl (Nat.le_succ _) (fun _ ho => ho) (h.tables.mono (Nat.le_succ _))

/-! ### Sessions -/

/-- What `clearDst` does: the destination has no session, and nothing else changes. -/
theorem clearDst_spec (c : Client) (tcp : ℕ) (target : Target) (refused : Bool) :
    ∃ assocs, c.clearDst tcp target refused = { c with assocs := assocs } ∧ assocs.keys.Perm c.assocs.keys ∧
      (∀ t y, namedBy assocs t y = if t = tcp ∧ y = target then none else namedBy c.assocs t y) ∧
      ((∀ t a, c.assocs.lookup t = some a → a.Fits) → ∀ t a, assocs.lookup t = some a → a.Fits) := by
  -- nothing to do where the destination has no entry
  have hsame (hnone : namedBy c.assocs tcp target = none) (t : ℕ) (y : Target) :
      namedBy c.assocs t y = if t = tcp ∧ y = target then none else namedBy c.assocs t y := by
    grind
  rw [clearDst]
  cases ha : c.assocs.lookup tcp with
  | none => exact ⟨c.assocs, rfl, List.Perm.refl _, hsame (by rw [namedBy, ha, Option.bind_none]), id⟩
  | some a =>
    dsimp only
    cases he : a.dsts.lookup target with
    | none =>
      exact ⟨c.assocs, rfl, List.Perm.refl _, hsame (by rw [namedBy_of_lookup ha, Assoc.named, he, Option.bind_none]), id⟩
    | some e =>
      refine ⟨_, rfl, keys_insert_perm ha _, fun t y => ?_, fun hfits => ?_⟩
      · have hnamed := namedBy_of_lookup ha
        grind [named_insert_none]
      · have hfit := hfits tcp a ha
        refine forall_lookup_insert hfits ⟨?_, hfit.opening, fun hsock => ?_⟩
        · show (a.dsts.insert target _).keys.length ≤ MAX_DST_PER_ASSOC
          rw [length_keys_insert_of_lookup he]
          exact hfit.dsts
        · rw [hfit.unopened hsock] at he
          cases he

/-- What `end_session` does to a session that there is. -/
theorem endSession_spec (hs : c.sess.bySid.lookup sid = some s) (refused : Bool) :
    ∃ assocs, c.endSession sid refused =
        { c.clearDeadline s.phase with
          assocs := assocs
          sess :=
            { c.sess with
              bySid := c.sess.bySid.erase sid
              byStream := s.stream.elim c.sess.byStream fun st => c.sess.byStream.erase st } } ∧
      assocs.keys.Perm c.assocs.keys ∧
      (∀ t y, namedBy assocs t y = if t = s.assoc ∧ y = s.target then none else namedBy c.assocs t y) ∧
      ((∀ t a, c.assocs.lookup t = some a → a.Fits) → ∀ t a, assocs.lookup t = some a → a.Fits) := by
  rw [endSession, hs]
  dsimp only
  generalize hc₁ : ({ c with sess := { c.sess with bySid := c.sess.bySid.erase sid } } : Client) = c₁
  obtain ⟨assocs, heq, hspec⟩ := clearDst_spec (c₁.clearDeadline s.phase) s.assoc s.target refused
  have hassocs : (c₁.clearDeadline s.phase).assocs = c.assocs := by
    rw [← hc₁]
    cases s.phase <;> rfl
  rw [hassocs] at hspec
  refine ⟨assocs, ?_, hspec⟩
  rw [heq, ← hc₁]
  cases s.phase <;> cases s.stream <;> rfl

theorem lookup_endSession (c : Client) (sid : UInt32) (refused : Bool) (sid' : UInt32) :
    (c.endSession sid refused).sess.bySid.lookup sid' = if sid' = sid then none else c.sess.bySid.lookup sid' := by
  cases hs : c.sess.bySid.lookup sid with
  | none =>
    rw [endSession, hs]
    grind
  | some s =>
    obtain ⟨assocs, heq, -⟩ := endSession_spec hs refused
    rw [heq]
    exact lookup_erase_eq_ite ..

theorem holder_udpResp (hs : c.sess.bySid.lookup sid = some s) : c.holder (.udpResp sid) = s.phase.deadline := by
  rw [holder, hs, Option.bind_some]

/-- **A session ends.** -/
theorem Sound.endSession (h : Sound cfg c) (sid : UInt32) (refused : Bool) : Sound cfg (c.endSession sid refused) := by
  cases hs : c.sess.bySid.lookup sid with
  | none =>
    rw [Client.endSession, hs]
    exact h
  | some s =>
    obtain ⟨assocs, heq, -, hnamed, hfits⟩ := endSession_spec hs refused
    have htables := h.tables.ended hs hnamed (hfits h.tables.assocs)
    have hholder := holder_udpResp hs
    rw [heq]
    generalize hsess : ({ c.sess with
      bySid := c.sess.bySid.erase sid
      byStream := s.stream.elim c.sess.byStream fun st => c.sess.byStream.erase st } : Sessions) = sess at htables
    -- the sessions that are left wait for the timers that they did
    have hleft (tm : Tm) : Client.holder { c with assocs := assocs, sess := sess } tm =
        if tm = .udpResp sid then none else c.holder tm := by
      cases tm <;> grind [holder]
    have hother (tm : Tm) (htm : tm ≠ .udpResp sid) := (hleft tm).trans (if_neg htm)
    have hgone := (hleft (.udpResp sid)).trans (if_pos rfl)
    have hsame (hdeadline : c.holder (.udpResp sid) = none) : Sound cfg { c with assocs := assocs, sess := sess } :=
      h.mono (funext fun tm => by grind) rfl rfl le_rfl (fun _ ho => ho) htables
    cases hphase : s.phase with
    | awaitResp deadline rx =>
      rw [hphase] at hholder
      exact h.release (h.clocks.held hholder) Tm.noConfusion hgone hother rfl rfl rfl rfl htables
    | pendingAuth queue => exact hsame (by rw [hholder, hphase]; rfl)
    | «open» => exact hsame (by rw [hholder, hphase]; rfl)

theorem Sound.foldl_endSession (h : Sound cfg c) (sids : List UInt32) :
    Sound cfg (sids.foldl (fun c sid => c.endSession sid false) c) := by
  induction sids generalizing c with
  | nil => exact h
  | cons sid sids ih => exact ih (h.endSession sid false)

theorem lookup_foldl_endSession (c : Client) (sids : List UInt32) (sid' : UInt32) :
    (sids.foldl (fun c sid => c.endSession sid false) c).sess.bySid.lookup sid' =
      if sid' ∈ sids then none else c.sess.bySid.lookup sid' := by
  induction sids generalizing c with
  | nil => rfl
  | cons sid sids ih =>
    rw [List.foldl_cons, ih, lookup_endSession]
    grind

/-- A session ends after its association, or before it. -/
theorem endSession_eraseAssoc (hs : ∀ s, c.sess.bySid.lookup sid = some s → s.assoc = tcp) (refused : Bool) :
    Client.endSession { c with assocs := c.assocs.erase tcp } sid refused =
      { c.endSession sid refused with assocs := (c.endSession sid refused).assocs.erase tcp } := by
  simp only [Client.endSession]
  cases hlookup : c.sess.bySid.lookup sid with
  | none => rfl
  | some s =>
    obtain rfl := hs s hlookup
    dsimp only
    have hgone (c : Client) (target : Target) (hc : c.assocs.lookup s.assoc = none) :
        c.clearDst s.assoc target refused = c := by rw [clearDst, hc]
    -- whatever is entered for the association goes with it
    have hentered (c : Client) (target : Target) :
        c.clearDst s.assoc target refused =
          { c with assocs := (c.clearDst s.assoc target refused).assocs } ∧
        (c.clearDst s.assoc target refused).assocs.erase s.assoc = c.assocs.erase s.assoc := by
      rw [clearDst]
      split
      · exact ⟨rfl, rfl⟩
      · split
        · exact ⟨rfl, rfl⟩
        · exact ⟨rfl, erase_insert_self ..⟩
    rw [hgone _ _ (by cases s.phase <;> exact AList.lookup_erase ..)]
    generalize hc₁ : (Client.clearDeadline { c with sess := { c.sess with bySid := c.sess.bySid.erase sid } } s.phase) = c₁
    obtain ⟨heq, herase⟩ := hentered c₁ s.target
    rw [heq]
    have hassocs : c₁.assocs = c.assocs := by
      rw [← hc₁]
      cases s.phase <;> rfl
    rw [hassocs] at herase
    cases s.stream <;> dsimp only [clearStream] <;> rw [herase, ← hc₁] <;> cases s.phase <;> rfl

theorem foldl_endSession_eraseAssoc (sids : List UInt32)
    (hs : ∀ sid ∈ sids, ∀ s, c.sess.bySid.lookup sid = some s → s.assoc = tcp) :
    sids.foldl (fun c sid => c.endSession sid false) { c with assocs := c.assocs.erase tcp } =
      { sids.foldl (fun c sid => c.endSession sid false) c with
        assocs := (sids.foldl (fun c sid => c.endSession sid false) c).assocs.erase tcp } := by
  induction sids generalizing c with
  | nil => rfl
  | cons sid sids ih =>
    rw [List.foldl_cons, List.foldl_cons, endSession_eraseAssoc (hs sid List.mem_cons_self)]
    refine ih fun sid' hmem s hlookup => hs sid' (List.mem_cons_of_mem _ hmem) s ?_
    grind [lookup_endSession]

/-- The sessions of an association. -/
theorem mem_filterMap_session {a : Assoc} {sid : UInt32} :
    sid ∈ a.dsts.entries.filterMap (fun e => e.2.session) ↔ ∃ target, a.named target = some sid := by
  rw [List.mem_filterMap]
  constructor
  · rintro ⟨e, he, hsid⟩
    have hlookup : a.dsts.lookup e.1 = some e.2 := AList.mem_lookup_iff.mpr he
    exact ⟨e.1, by rw [Assoc.named, hlookup, Option.bind_some, hsid]⟩
  · rintro ⟨target, hsid⟩
    obtain ⟨e, he, hsid⟩ := Option.bind_eq_some_iff.mp hsid
    exact ⟨⟨target, e⟩, AList.mem_lookup_iff.mp he, hsid⟩

/-- **An association ends**, with its sessions. -/
theorem Sound.endAssoc (h : Sound cfg c) (tcp : ℕ) : Sound cfg (c.endAssoc tcp) := by
  cases ha : c.assocs.lookup tcp with
  | none =>
    rw [Client.endAssoc, ha]
    exact h
  | some a =>
    rw [Client.endAssoc, ha]
    dsimp only
    generalize hsids : a.dsts.entries.filterMap (fun e => e.2.session) = sids
    have hmem (sid : UInt32) : sid ∈ sids ↔ ∃ target, namedBy c.assocs tcp target = some sid := by
      rw [← hsids, mem_filterMap_session]
      simp only [namedBy_of_lookup ha]
    have hassoc (sid : UInt32) (hsid : sid ∈ sids) (s : Session) (hs : c.sess.bySid.lookup sid = some s) :
        s.assoc = tcp := by
      obtain ⟨target, hnamed⟩ := (hmem sid).mp hsid
      obtain ⟨s', hs', hassoc, -⟩ := (h.tables.named tcp target sid).mp hnamed
      cases hs.symm.trans hs'
      exact hassoc
    rw [foldl_endSession_eraseAssoc sids hassoc]
    have hfold := h.foldl_endSession sids
    generalize hc₁ : sids.foldl (fun c sid => c.endSession sid false) c = c₁ at hfold ⊢
    refine hfold.mono rfl rfl rfl le_rfl (fun _ ho => ho) (hfold.tables.unassoc fun target => ?_)
    -- a session that is still named is one of the association, and these have ended
    rw [Option.eq_none_iff_forall_ne_some]
    intro sid hnamed
    obtain ⟨s, hs, hassoc, -⟩ := (hfold.tables.named tcp target sid).mp hnamed
    rw [← hc₁, lookup_foldl_endSession] at hs
    split at hs
    · cases hs
    · next hout =>
      exact hout ((hmem sid).mpr ⟨s.target, (h.tables.named tcp s.target sid).mpr ⟨s, hs, hassoc, rfl⟩⟩)

/-- The streams are none of a destination's business. -/
theorem clearDst_byStream (c : Client) (byStream : AList fun _ : ℕ => UInt32) (tcp : ℕ) (target : Target) (refused : Bool) :
    Client.clearDst { c with sess := { c.sess with byStream := byStream } } tcp target refused =
      { c.clearDst tcp target refused with sess := { c.sess with byStream := byStream } } := by
  simp only [clearDst]
  split
  · rfl
  · split <;> rfl

/-- The stream of a session that could not be asked for goes again. -/
theorem endSession_unissued {st : ℕ} (tx : List UInt8) (hs : c.sess.bySid.lookup sid = some s) (hnone : s.stream = none)
    (hst : c.sess.byStream.lookup st = none) (refused : Bool) :
    (Client.putSession { c with sess := { c.sess with byStream := c.sess.byStream.insert st sid } } sid
        { s with stream := some st, tx := tx }).endSession sid refused =
      c.endSession sid refused := by
  have hput : (c.sess.bySid.insert sid { s with stream := some st, tx := tx }).lookup sid =
      some { s with stream := some st, tx := tx } := AList.lookup_insert ..
  have hforget : (c.sess.byStream.insert st sid).erase st = c.sess.byStream := by
    rw [erase_insert_self, erase_of_absent hst]
  simp only [Client.endSession, putSession, hput, hs, hnone, erase_insert_self]
  generalize hc₁ : Client.clearDeadline { c with sess := { c.sess with bySid := c.sess.bySid.erase sid } } s.phase = c₁
  have hsess : c₁.sess = { c.sess with bySid := c.sess.bySid.erase sid } := by
    rw [← hc₁]
    cases s.phase <;> rfl
  have hwith : Client.clearDeadline
      { c with sess := ⟨c.sess.nextSid, c.sess.bySid.erase sid, c.sess.byStream.insert st sid⟩ } s.phase =
      { c₁ with sess := { c₁.sess with byStream := c.sess.byStream.insert st sid } } := by
    rw [← hc₁]
    cases s.phase <;> rfl
  obtain ⟨assocs, heq, -⟩ := clearDst_spec c₁ s.assoc s.target refused
  rw [hwith, clearDst_byStream, heq]
  simp only [clearStream, hforget, hsess]

/-- A stream that leads to a session. -/
theorem Sound.session_of_stream {st : ℕ} (h : Sound cfg c) (hst : (c.sess.byStream.lookup st).isSome) :
    ∃ sid s, c.sess.byStream.lookup st = some sid ∧ c.sess.bySid.lookup sid = some s ∧ s.stream = some st := by
  obtain ⟨sid, hsid⟩ := Option.isSome_iff_exists.mp hst
  obtain ⟨s, hs, hstream⟩ := (h.tables.streams st sid).mp hsid
  exact ⟨sid, s, hsid, hs, hstream⟩

/-- A session that ends at its deadline. -/
theorem endSession_cancel {rx : List UInt8} (hs : c.sess.bySid.lookup sid = some s) (hphase : s.phase = .awaitResp id rx)
    (refused : Bool) : (c.cancel id).endSession sid refused = c.endSession sid refused := by
  have htimers : (c.timers.erase id).erase id = c.timers.erase id := erase_of_absent (AList.lookup_erase ..)
  have harmed : (c.armed.erase id).erase id = c.armed.erase id := erase_of_absent (AList.lookup_erase ..)
  simp only [Client.endSession, cancel, hs, hphase, clearDeadline, htimers, harmed]

/-- A session whose timer is armed waits for its RESP. -/
theorem Sound.awaits (h : Sound cfg c) (hid : c.timers.lookup id = some (.udpResp sid)) :
    ∃ s rx, c.sess.bySid.lookup sid = some s ∧ s.phase = .awaitResp id rx := by
  have hheld := h.clocks.kept hid trivial
  rw [holder, Option.bind_eq_some_iff] at hheld
  obtain ⟨s, hs, hdeadline⟩ := hheld
  cases hphase : s.phase with
  | awaitResp deadline rx =>
    rw [hphase] at hdeadline
    cases hdeadline
    exact ⟨s, rx, hs, hphase⟩
  | pendingAuth q =>
    rw [hphase] at hdeadline
    cases hdeadline
  | «open» =>
    rw [hphase] at hdeadline
    cases hdeadline

/-! ### The other parts -/

/-- What has to do with neither sessions nor timers. -/
theorem Sound.frame (h : Sound cfg c) (opens : AList fun _ : ℕ => Open) (fronts : List ℕ) :
    Sound cfg { c with opens := opens, fronts := fronts } :=
  h.mono rfl rfl rfl le_rfl (fun _ ho => ho) h.tables

theorem Sound.close (h : Sound cfg c) : Sound cfg c.close := by
  refine h.mono (funext fun tm => ?_) rfl rfl le_rfl (fun _ ho => ho) h.tables
  refine holder_congr (fun _ => ?_) (fun _ => rfl) rfl fun _ _ => rfl
  show (c.conn.map _).bind Conn.authTimer = c.conn.bind Conn.authTimer
  cases c.conn <;> rfl

/-- The connection changes, and the timer that it waited for is cancelled. -/
theorem Sound.setConn (h : Sound cfg c) (conn : Option Conn) (hconn : conn.bind Conn.authTimer = none) :
    Sound cfg ((c.conn.bind Conn.authTimer).elim { c with conn := conn } (Client.cancel { c with conn := conn })) := by
  have hother (tm : Tm) (htm : tm ≠ .auth) := holder_setConn (c := c) conn htm
  cases htimer : c.conn.bind Conn.authTimer with
  | some id =>
    have hheld : c.holder .auth = some id := htimer
    exact h.release (h.clocks.held hheld) Tm.noConfusion hconn hother rfl rfl rfl rfl h.tables
  | none =>
    refine h.mono (funext fun tm => ?_) rfl rfl le_rfl (fun _ ho => ho) h.tables
    by_cases htm : tm = .auth
    · rw [htm]
      exact hconn.trans htimer.symm
    · exact hother tm htm

/-- Where the connection waits for the timer that it did, or for none. -/
theorem Sound.withConn (h : Sound cfg c) (conn : Option Conn) (hconn : ∀ id, conn.bind Conn.authTimer = some id →
    c.conn.bind Conn.authTimer = some id) : Sound cfg { c with conn := conn } where
  clocks := by
    refine h.clocks.mono le_rfl (fun tm id hid => ?_) fun tm htm => holder_setConn conn fun heq => ?_
    · by_cases htm : tm = .auth
      · rw [htm] at hid ⊢
        exact hconn id hid
      · rwa [holder_setConn conn htm] at hid
    · rw [heq] at htm
      exact htm
  due := h.due
  tables := h.tables

/-- The ids that are kept of the requests that are still being read. -/
theorem holder_insert_ingress (c : Client) (tcp : ℕ) (ing : Ingress) (tm : Tm) :
    Client.holder { c with ingress := c.ingress.insert tcp ing } tm =
      if tm = .ingress tcp then some ing.timer else c.holder tm := by
  cases tm <;> grind [holder]

theorem holder_erase_ingress (c : Client) (tcp : ℕ) (tm : Tm) :
    Client.holder { c with ingress := c.ingress.erase tcp } tm = if tm = .ingress tcp then none else c.holder tm := by
  cases tm <;> grind [holder]

theorem holder_putSession (c : Client) (sid : UInt32) (s : Session) (tm : Tm) :
    (c.putSession sid s).holder tm = if tm = .udpResp sid then s.phase.deadline else c.holder tm := by
  cases tm <;> grind [holder, Client.putSession]

/-- A socket is read no longer, and its timer is over. -/
theorem Sound.eraseIngress (h : Sound cfg c) (hid : c.timers.lookup id = some (.ingress tcp)) :
    Sound cfg (Client.cancel { c with ingress := c.ingress.erase tcp } id) :=
  h.release hid Tm.noConfusion (by rw [holder_erase_ingress, if_pos rfl])
    (fun tm htm => by rw [holder_erase_ingress, if_neg htm]) rfl rfl rfl rfl h.tables

theorem Sound.timer_of_ingress {ing : Ingress} (h : Sound cfg c) (hing : c.ingress.lookup tcp = some ing) :
    c.timers.lookup ing.timer = some (.ingress tcp) := by
  refine h.clocks.held ?_
  rw [holder, hing, Option.map_some]

/-- The association that is found by what it waits for, or by its socket. -/
theorem lookup_of_find {p : (Sigma fun _ : ℕ => Assoc) → Bool} {e : Sigma fun _ : ℕ => Assoc}
    (h : c.assocs.entries.find? p = some e) : c.assocs.lookup e.1 = some e.2 ∧ p e :=
  ⟨AList.mem_lookup_iff.mpr (List.mem_of_find?_eq_some h), List.find?_some h⟩

/-- **The requests that have waited for too long are refused.** Any other has a timer of its own. -/
theorem Sound.expire (h : Sound cfg c) (hid : c.timers.lookup id = some .pending)
    (hdue : ∀ due, c.armed.lookup id = some due → due ≤ c.now) :
    Sound cfg { c.cancel id with pending := (expirePending c.pending c.now cfg.pendingDeadline).2 } where
  clocks := h.clocks.cancel hid rfl fun _ _ => rfl
  due := by
    intro o ho
    rw [expirePending, List.partition_eq_filter_filter, List.mem_filter] at ho
    obtain ⟨ho, hkeep⟩ := ho
    simp only [Bool.not_eq_true', decide_eq_false_iff_not, Nat.not_le, Function.comp_apply] at hkeep
    obtain ⟨id', htimer, harmed⟩ := h.due o ho
    have hne : id' ≠ id := by
      rintro rfl
      have := hdue _ harmed
      omega
    exact ⟨id', by rw [← htimer]; exact AList.lookup_erase_ne hne, by rw [← harmed]; exact AList.lookup_erase_ne hne⟩
  tables := h.tables

theorem sound_new (cfg : Cfg) : Sound cfg new where
  clocks := by
    refine ⟨fun hid => ?_, fun id => rfl, fun {tm id} hid => ?_, fun hid => ?_⟩
    · cases hid
    · cases tm <;> cases hid
    · cases hid
  due o ho := absurd ho List.not_mem_nil
  tables := by
    refine ⟨fun tcp target sid => ⟨fun h => ?_, fun h => ?_⟩, fun st sid => ⟨fun h => ?_, fun h => ?_⟩,
      fun sid s st hs => ?_, fun sid s hs => ?_, Nat.zero_le _, fun tcp a ha => ?_⟩
    · cases h
    · obtain ⟨s, hs, -⟩ := h
      cases hs
    · cases h
    · obtain ⟨s, hs, -⟩ := h
      cases hs
    · cases hs
    · cases hs
    · cases ha

end Client

end MqProxy.Tunnel
