import MqProxy.Library.Operations
import MqProxy.Runtime.ShardFrame

/-!
# The results of operations

Dials, resolutions and socket opens are answered by a callback, and an app may cancel one
at any time before. A book (`Library.Book`) is kept for each kind: what the shard will
still answer is in its tables, in the queues of what it completes itself, and in the batch
that `drive` has taken from such a queue and is delivering.

The last of these is out of reach of `cancel_dial` and `cancel_udp_socket`: an operation of
the batch that is cancelled there, in the callback of an earlier one, is answered all the
same (`cancelled_dial_answered`). In all other cases a cancelled operation is not answered,
and none is answered twice (`results_kept`). The queue of local resolutions is emptied one
by one and has no such gap.
-/

namespace MqProxy.Runtime

open MqProxy.Library

namespace OpKind

/-- What an entry of the log says about an operation of the kind. -/
def mark : OpKind → Edge → Option Mark
  | .dial, .call (.dial _ _) (.id op) => some (.opened op)
  | .dial, .call (.cancelDial op) _ => some (.cancelled op)
  | .dial, .callback (.dialResult op _) => some (.answered op)
  | .resolve, .call (.resolve _ _) (.id op) => some (.opened op)
  | .resolve, .call (.cancelResolve op) _ => some (.cancelled op)
  | .resolve, .callback (.resolveResult op _) => some (.answered op)
  | .udpSocket, .call (.openUdpSocket _) (.id op) => some (.opened op)
  | .udpSocket, .call (.openAppUdpSocket _) (.id op) => some (.opened op)
  | .udpSocket, .call (.cancelUdpSocket op) _ => some (.cancelled op)
  | .udpSocket, .callback (.udpSocket op _) => some (.answered op)
  | _, _ => none

/-- The operations that the shard keeps in its state. -/
def kept : OpKind → ShardState → Multiset ℕ
  | .dial, st => st.dials.val + st.limited
  | .resolve, st => st.resolves.val + (st.resolved.map Prod.fst : List ℕ)
  | .udpSocket, st => st.socketOps.val + st.limitedUdp

/-- The book of a kind. -/
def book (k : OpKind) (st : ShardState) (c : Cont) : Book where
  next := st.nextId
  pending := k.kept st + k.batch c
  marks := st.log.filterMap k.mark

end OpKind

/-! ### What is apart from the operations -/

/-- The operations are left alone. -/
structure Apart (st st' : ShardState) : Prop where
  nextId : st.nextId ≤ st'.nextId
  kept : ∀ k : OpKind, k.kept st' = k.kept st
  marks : ∀ k : OpKind, st'.log.filterMap k.mark = st.log.filterMap k.mark

namespace Apart

variable {st st' st'' : ShardState}

theorem refl (st : ShardState) : Apart st st := ⟨le_rfl, fun _ => rfl, fun _ => rfl⟩

theorem trans (h : Apart st st') (h' : Apart st' st'') : Apart st st'' where
  nextId := h.nextId.trans h'.nextId
  kept k := (h'.kept k).trans (h.kept k)
  marks k := (h'.marks k).trans (h.marks k)

theorem after (h' : Apart st' st'') (h : Apart st st') : Apart st st'' := h.trans h'

/-- A book that is left alone, in a part of an input with the same batch. -/
theorem book (h : Apart st st') {c c' : Cont} (k : OpKind) (hc : k.batch c' = k.batch c) :
    Book.Step (k.book st c) (k.book st' c') := by
  rw [OpKind.book, OpKind.book, h.kept k, h.marks k, hc]
  exact .idle h.nextId

end Apart

theorem kept_note (st : ShardState) (e : Edge) (k : OpKind) : k.kept (st.note e) = k.kept st := by
  cases k <;> rfl

theorem marks_note (st : ShardState) (e : Edge) (k : OpKind) :
    (st.note e).log.filterMap k.mark = st.log.filterMap k.mark ++ (k.mark e).toList := by
  rw [ShardState.note, List.filterMap_append]
  cases he : k.mark e <;> simp [he]

theorem apart_note (st : ShardState) {e : Edge} (he : ∀ k : OpKind, k.mark e = none) : Apart st (st.note e) where
  nextId := le_rfl
  kept := kept_note st e
  marks k := by rw [marks_note, he k, Option.toList_none, List.append_nil]

theorem mark_request (r : IoRequest) (k : OpKind) : k.mark (.request r) = none := by
  cases k <;> rfl

theorem apart_pushRequest (st : ShardState) (r : IoRequest) : Apart st (st.pushRequest r) where
  nextId := le_rfl
  kept k := by cases k <;> rfl
  marks := (apart_note st (mark_request r)).marks

/-- The other tables may change. -/
theorem apart_tables {st st' : ShardState} (hnext : st.nextId ≤ st'.nextId) (hdials : st'.dials = st.dials)
    (hlimited : st'.limited = st.limited) (hresolves : st'.resolves = st.resolves)
    (hresolved : st'.resolved = st.resolved) (hsocketOps : st'.socketOps = st.socketOps)
    (hlimitedUdp : st'.limitedUdp = st.limitedUdp) (hlog : st'.log = st.log) : Apart st st' where
  nextId := hnext
  kept k := by cases k <;> simp only [OpKind.kept, hdials, hlimited, hresolves, hresolved, hsocketOps, hlimitedUdp]
  marks k := by rw [hlog]

theorem apart_insertAppTcp (st : ShardState) : Apart st st.insertAppTcp.2 :=
  apart_tables (Nat.le_succ _) rfl rfl rfl rfl rfl rfl rfl

theorem apart_insertUdp (st : ShardState) (e : UdpEntry) : Apart st (st.insertUdp e).2 :=
  apart_tables (Nat.le_succ _) rfl rfl rfl rfl rfl rfl rfl

theorem mark_of_bare {e : Edge} (he : e.bare = true) (k : OpKind) : k.mark e = none := by
  unfold OpKind.mark
  split
  all_goals first | rfl | cases he

theorem mark_call_of_bare {c : CxCall} (hc : c.bare = true) (a : Answer) (k : OpKind) : k.mark (.call c a) = none := by
  cases c with
  | dial | cancelDial | resolve | cancelResolve | openUdpSocket | openAppUdpSocket | cancelUdpSocket => cases hc
  | _ => cases k <;> rfl

/-- **What leaves the operations alone keeps them apart.** -/
theorem Frame.apart {st st' : ShardState} (h : Frame st st') : Apart st st' := by
  obtain ⟨es, hlog, hes⟩ := h.log
  have hops := h.ops
  simp only [ShardState.ops, Prod.mk.injEq] at hops
  obtain ⟨hnext, hdials, hlimited, hresolves, hresolved, hsocketOps, -, hlimitedUdp⟩ := hops
  refine ⟨hnext.ge, fun k => ?_, fun k => ?_⟩
  · cases k <;> simp only [OpKind.kept, hdials, hlimited, hresolves, hresolved, hsocketOps, hlimitedUdp]
  · have hnone : es.filterMap k.mark = [] := List.filterMap_eq_nil_iff.mpr fun e he => mark_of_bare (hes e he) k
    rw [hlog, List.filterMap_append, hnone, List.append_nil]

/-! ### The calls of the app -/

section Calls

variable {k : OpKind} {st st' : ShardState} {c : Cont}

/-- The number an operation gets is not among those that are kept. -/
theorem nextId_notMem (hs : (k.book st c).Sound) : st.nextId ∉ k.kept st := by
  intro hmem
  exact lt_irrefl _ (hs.fresh _ (hs.awaited _ (Multiset.mem_add.mpr (Or.inl hmem))).1)

/-- An operation is opened: one of its kind is kept and nothing of the other kinds changes. -/
theorem book_opened {e : Edge} (ko : OpKind) (hnext : st'.nextId = st.nextId + 1)
    (hkept : k.kept st' = if k = ko then st.nextId ::ₘ k.kept st else k.kept st)
    (hmarks : st'.log.filterMap k.mark = st.log.filterMap k.mark)
    (hmark : k.mark e = if k = ko then some (.opened st.nextId) else none) :
    Book.Step (k.book st c) (k.book (st'.note e) c) := by
  have hnext' : (st'.note e).nextId = st.nextId + 1 := hnext
  rw [OpKind.book, OpKind.book, marks_note, hmarks, kept_note, hkept, hmark, hnext']
  split
  · rw [Multiset.cons_add]
    exact .opened
  · rw [Option.toList_none, List.append_nil]
    exact .idle (Nat.le_succ _)

theorem coe_snoc (l : List ℕ) (a : ℕ) (m : Multiset ℕ) : m + ((l ++ [a] : List ℕ) : Multiset ℕ) = a ::ₘ (m + l) := by
  rw [← Multiset.coe_add, ← add_assoc, add_comm _ (([a] : List ℕ) : Multiset ℕ), Multiset.coe_singleton,
    Multiset.singleton_add]

variable {t : Finset ℕ}

/-- The operation goes into a table. -/
theorem val_insert {m : Multiset ℕ} {a : ℕ} (ha : a ∉ t.val + m) : (insert a t).val + m = a ::ₘ (t.val + m) := by
  have ht : a ∉ t := fun hmem => ha (Multiset.mem_add.mpr (Or.inl hmem))
  rw [Finset.insert_val_of_notMem ht, Multiset.cons_add]

variable (hs : (k.book st c).Sound)
include hs

theorem book_dial (target : Target) (deadline : ℕ) :
    Book.Step (k.book st c)
      (k.book ((st.dial target deadline).2.note (.call (.dial target deadline) (.id st.nextId))) c) := by
  have hnew := nextId_notMem hs
  unfold ShardState.dial
  dsimp only
  split
  · refine book_opened .dial rfl ?_ rfl (by cases k <;> rfl)
    cases k with
    | dial => exact coe_snoc _ _ _
    | resolve => rfl
    | udpSocket => rfl
  · refine book_opened .dial rfl ?_ ((apart_pushRequest _ _).marks k) (by cases k <;> rfl)
    cases k with
    | dial => exact val_insert hnew
    | resolve => rfl
    | udpSocket => rfl

theorem book_resolve (target : Target) (deadline : ℕ) :
    Book.Step (k.book st c)
      (k.book ((st.resolve target deadline).2.note (.call (.resolve target deadline) (.id st.nextId))) c) := by
  have hnew := nextId_notMem hs
  unfold ShardState.resolve
  dsimp only
  split
  · refine book_opened .resolve rfl ?_ rfl (by cases k <;> rfl)
    cases k with
    | dial => rfl
    | resolve =>
      rw [if_pos rfl, OpKind.kept, List.map_append]
      exact coe_snoc _ _ _
    | udpSocket => rfl
  · refine book_opened .resolve rfl ?_ ((apart_pushRequest _ _).marks k) (by cases k <;> rfl)
    cases k with
    | dial => rfl
    | resolve => exact val_insert hnew
    | udpSocket => rfl

/-- Both opens put the operation into the same table. -/
theorem kept_openUdpSocket (ip : IpAddr) :
    k.kept (st.openUdpSocket ip).2 = if k = .udpSocket then st.nextId ::ₘ k.kept st else k.kept st := by
  have hnew := nextId_notMem hs
  cases k with
  | dial => rfl
  | resolve => rfl
  | udpSocket => exact val_insert hnew

theorem book_openUdpSocket (ip : IpAddr) :
    Book.Step (k.book st c) (k.book ((st.openUdpSocket ip).2.note (.call (.openUdpSocket ip) (.id st.nextId))) c) :=
  book_opened .udpSocket rfl (kept_openUdpSocket hs ip) ((apart_pushRequest _ _).marks k) (by cases k <;> rfl)

omit hs

theorem fst_openAppUdpSocket (st : ShardState) (ip : IpAddr) : (st.openAppUdpSocket ip).1 = st.nextId := by
  unfold ShardState.openAppUdpSocket
  split <;> rfl

theorem book_openAppUdpSocket (hs : (k.book st c).Sound) (ip : IpAddr) :
    Book.Step (k.book st c)
      (k.book ((st.openAppUdpSocket ip).2.note (.call (.openAppUdpSocket ip) (.id st.nextId))) c) := by
  unfold ShardState.openAppUdpSocket
  split
  · refine book_opened .udpSocket rfl ?_ rfl (by cases k <;> rfl)
    cases k with
    | dial => rfl
    | resolve => rfl
    | udpSocket => exact coe_snoc _ _ _
  · refine book_opened .udpSocket rfl ?_ ((apart_pushRequest _ _).marks k) (by cases k <;> rfl)
    rw [← kept_openUdpSocket hs ip]
    cases k <;> rfl

variable {op : ℕ}

/-- An operation is cancelled: it is no longer kept, and nothing of the other kinds changes. -/
theorem book_cancelled {e : Edge} (ko : OpKind) (hnext : st'.nextId = st.nextId)
    (hkept : if k = ko then k.kept st' ≤ k.kept st ∧ op ∉ k.kept st' else k.kept st' = k.kept st)
    (hbatch : op ∉ ko.batch c) (hmarks : st'.log.filterMap k.mark = st.log.filterMap k.mark)
    (hmark : k.mark e = if k = ko then some (.cancelled op) else none) :
    Book.Step (k.book st c) (k.book (st'.note e) c) := by
  have hnext' : (st'.note e).nextId = st.nextId := hnext
  rw [OpKind.book, OpKind.book, marks_note, hmarks, kept_note, hmark, hnext']
  split at hkept
  · next hk =>
    subst hk
    rw [if_pos rfl]
    refine .cancelled (Multiset.add_le_add_right hkept.1) ?_
    rw [Multiset.mem_add, not_or, Multiset.mem_coe]
    exact ⟨hkept.2, hbatch⟩
  · next hk =>
    rw [if_neg hk, hkept, Option.toList_none, List.append_nil]
    exact .idle le_rfl

/-- Out of the table, where it was kept once. -/
theorem erase_table {m : Multiset ℕ} (hnodup : (t.val + m).Nodup) (hop : op ∈ t) :
    (t.erase op).val + m ≤ t.val + m ∧ op ∉ (t.erase op).val + m := by
  constructor
  · exact Multiset.add_le_add_right (Finset.val_le_iff.mpr (Finset.erase_subset op t))
  · rw [Multiset.mem_add, not_or]
    exact ⟨Finset.notMem_erase op t, Multiset.disjoint_left.mp (Multiset.nodup_add.mp hnodup).2.2 hop⟩

/-- Out of the queue. -/
theorem filter_queue {q : List ℕ} (hop : op ∉ t) : t.val + (q.filter fun o => o ≠ op : List ℕ) ≤ t.val + q ∧
      op ∉ t.val + ((q.filter fun o => o ≠ op : List ℕ) : Multiset ℕ) := by
  constructor
  · exact Multiset.add_le_add_left (Multiset.coe_le.mpr List.filter_sublist.subperm)
  · rw [Multiset.mem_add, not_or, Multiset.mem_coe, List.mem_filter]
    exact ⟨hop, by simp⟩

include hs

theorem nodup_kept : (k.kept st).Nodup := (Multiset.nodup_add.mp hs.nodup).1

theorem book_cancelDial (hbatch : op ∉ OpKind.dial.batch c) (a : Answer) :
    Book.Step (k.book st c) (k.book ((st.cancelDial op).note (.call (.cancelDial op) a)) c) := by
  have hnodup := nodup_kept hs
  unfold ShardState.cancelDial
  split
  · next hop =>
    refine book_cancelled .dial rfl ?_ hbatch ((apart_pushRequest _ _).marks k) (by cases k <;> rfl)
    cases k with
    | dial => exact erase_table hnodup hop
    | resolve => rfl
    | udpSocket => rfl
  · next hop =>
    refine book_cancelled .dial rfl ?_ hbatch rfl (by cases k <;> rfl)
    cases k with
    | dial => exact filter_queue hop
    | resolve => rfl
    | udpSocket => rfl

theorem book_cancelResolve (op : ℕ) (a : Answer) :
    Book.Step (k.book st c) (k.book ((st.cancelResolve op).note (.call (.cancelResolve op) a)) c) := by
  have hnodup := nodup_kept hs
  have hbatch : op ∉ OpKind.resolve.batch c := List.not_mem_nil
  unfold ShardState.cancelResolve
  split
  · next hop =>
    refine book_cancelled .resolve rfl ?_ hbatch ((apart_pushRequest _ _).marks k) (by cases k <;> rfl)
    cases k with
    | dial => rfl
    | resolve => exact erase_table hnodup hop
    | udpSocket => rfl
  · next hop =>
    refine book_cancelled .resolve rfl ?_ hbatch rfl (by cases k <;> rfl)
    cases k with
    | dial => rfl
    | resolve =>
      have hmap : (st.resolved.filter fun o => o.1 ≠ op).map Prod.fst =
          (st.resolved.map Prod.fst).filter fun o => o ≠ op := by
        rw [List.filter_map]
        rfl
      rw [if_pos rfl, OpKind.kept, OpKind.kept, hmap]
      exact filter_queue hop
    | udpSocket => rfl

theorem book_cancelUdpSocket (hbatch : op ∉ OpKind.udpSocket.batch c)
    (a : Answer) : Book.Step (k.book st c) (k.book ((st.cancelUdpSocket op).note (.call (.cancelUdpSocket op) a)) c) := by
  have hnodup := nodup_kept hs
  unfold ShardState.cancelUdpSocket
  split
  · next hop =>
    refine book_cancelled .udpSocket rfl ?_ hbatch ((apart_pushRequest _ _).marks k) (by cases k <;> rfl)
    cases k with
    | dial => rfl
    | resolve => rfl
    | udpSocket => exact erase_table hnodup hop
  · next hop =>
    refine book_cancelled .udpSocket rfl ?_ hbatch rfl (by cases k <;> rfl)
    cases k with
    | dial => rfl
    | resolve => rfl
    | udpSocket => exact filter_queue hop

/-- **A call keeps the books.** An operation that is cancelled is not one of the batch. -/
theorem book_perform (call : CxCall)
    (hbatch : ∀ op, (call = .cancelDial op → op ∉ OpKind.dial.batch c) ∧
      (call = .cancelUdpSocket op → op ∉ OpKind.udpSocket.batch c)) :
    Book.Step (k.book st c) (k.book ((st.perform call).2.note (.call call (st.perform call).1)) c) := by
  have hapart (hap : Apart st (st.perform call).2) (hmark : ∀ k : OpKind, ∀ a, k.mark (.call call a) = none) :
      Book.Step (k.book st c) (k.book ((st.perform call).2.note (.call call (st.perform call).1)) c) :=
    (hap.trans (apart_note _ fun k => hmark k _)).book k rfl
  by_cases hbare : call.bare = true
  · exact hapart (still_perform st hbare).apart fun k a => mark_call_of_bare hbare a k
  cases call with
  | dial target deadline => exact book_dial hs target deadline
  | cancelDial op => exact book_cancelDial hs ((hbatch op).1 rfl) _
  | resolve target deadline => exact book_resolve hs target deadline
  | cancelResolve op => exact book_cancelResolve hs op _
  | openUdpSocket ip => exact book_openUdpSocket hs ip
  | openAppUdpSocket ip =>
    have hopen := book_openAppUdpSocket hs ip
    rw [← fst_openAppUdpSocket st ip] at hopen
    exact hopen
  | cancelUdpSocket op => exact book_cancelUdpSocket hs ((hbatch op).2 rfl) _
  | startRelay tcp stream conn preread => exact hapart (frame_startRelay _ _ _ _ _).apart fun k a => by cases k <;> rfl
  | setTimer at_ =>
    exact hapart (apart_tables (Nat.le_succ _) rfl rfl rfl rfl rfl rfl rfl) fun k a => by cases k <;> rfl
  | _ => exact absurd rfl hbare

end Calls

/-! ### The steps -/

section Steps

variable {τ : Type} {T : ℕ → Transport τ} {sh sh' : Shard τ} {k : OpKind} {st st' : ShardState} {c c' : Cont}

/-- The book of a kind, in the middle of an input. -/
def OpKind.bookOf (k : OpKind) (sh : Shard τ) : Book := k.book sh.st sh.control.cont

/-- A callback that answers no operation. -/
theorem book_callApp (hap : Apart sh.st st) {cb : Callback} (hcb : ∀ k : OpKind, k.mark (.callback cb) = none)
    (hbatch : k.batch c = k.batch sh.control.cont) : Book.Step (k.bookOf sh) (k.bookOf (sh.callApp st cb c)) :=
  (hap.trans (apart_note st hcb)).book k hbatch

/-- A callback that answers an operation: `st` keeps it once less than before and is the
same for the other kinds, and what happened on the way to `st'` is about no operation. -/
theorem book_answered {cb : Callback} (ko : OpKind) (op : ℕ)
    (hpending : k.kept sh.st + k.batch sh.control.cont =
      if k = ko then op ::ₘ (k.kept st + k.batch c) else k.kept st + k.batch c)
    (hap : Apart st st') (hnext : st.nextId = sh.st.nextId) (hlog : st.log = sh.st.log)
    (hmark : k.mark (.callback cb) = if k = ko then some (.answered op) else none) :
    Book.Step (k.bookOf sh) (k.bookOf (sh.callApp st' cb c)) := by
  have hbook : k.bookOf (sh.callApp st' cb c) = k.book (st'.note (.callback cb)) c := rfl
  have hnext' : sh.st.nextId ≤ (st'.note (.callback cb)).nextId := hnext ▸ hap.nextId
  rw [hbook, OpKind.bookOf, OpKind.book, OpKind.book, hpending, marks_note, hap.marks, hlog, kept_note, hap.kept,
    hmark]
  split
  · exact .answered hnext'
  · rw [Option.toList_none, List.append_nil]
    exact .idle hnext'

variable {op : ℕ}

/-- Out of a table. -/
theorem cons_erase_table {t : Finset ℕ} (hop : op ∈ t) (m m' : Multiset ℕ) :
    t.val + m + m' = op ::ₘ ((t.erase op).val + m + m') := by
  rw [Finset.erase_val, ← Multiset.cons_add, ← Multiset.cons_add, Multiset.cons_erase (Finset.mem_val.mpr hop)]

theorem book_onDialResult (hc : sh.control = .shard .done) (hop : op ∈ sh.st.dials)
    (r : Except DialError SocketAddr) : Book.Step (k.bookOf sh) (k.bookOf (sh.onDialResult op r)) := by
  have hpending : k.kept sh.st + k.batch sh.control.cont =
      if k = .dial then op ::ₘ (k.kept (sh.st.dropDial op) + k.batch .done)
      else k.kept (sh.st.dropDial op) + k.batch .done := by
    rw [hc]
    cases k with
    | dial => exact cons_erase_table hop _ _
    | resolve => rfl
    | udpSocket => rfl
  rw [Shard.onDialResult, if_pos hop]
  cases r with
  | ok addr => exact book_answered .dial op hpending (apart_insertAppTcp _) rfl rfl (by cases k <;> rfl)
  | error e => exact book_answered .dial op hpending (.refl _) rfl rfl (by cases k <;> rfl)

theorem book_onResolveResult (hc : sh.control = .shard .done) (hop : op ∈ sh.st.resolves)
    (r : Except DialError SocketAddr) : Book.Step (k.bookOf sh) (k.bookOf (sh.onResolveResult op r)) := by
  rw [Shard.onResolveResult, if_pos hop]
  refine book_answered .resolve op ?_ (.refl (sh.st.dropResolve op)) rfl rfl (by cases k <;> rfl)
  rw [hc]
  cases k with
  | dial => rfl
  | resolve => exact cons_erase_table hop _ _
  | udpSocket => rfl

theorem book_onUdpSocket (hc : sh.control = .shard .done) (hop : op ∈ sh.st.socketOps)
    (r : Except ErrorKind SocketAddr) : Book.Step (k.bookOf sh) (k.bookOf (sh.onUdpSocket op r)) := by
  have hpending : k.kept sh.st + k.batch sh.control.cont =
      if k = .udpSocket then op ::ₘ (k.kept (sh.st.dropSocketOp op) + k.batch .done)
      else k.kept (sh.st.dropSocketOp op) + k.batch .done := by
    rw [hc]
    cases k with
    | dial => rfl
    | resolve => rfl
    | udpSocket => exact cons_erase_table hop _ _
  rw [Shard.onUdpSocket, if_pos hop]
  cases r with
  | ok addr => exact book_answered .udpSocket op hpending (apart_insertUdp _ _) rfl rfl (by cases k <;> rfl)
  | error e => exact book_answered .udpSocket op hpending (.refl _) rfl rfl (by cases k <;> rfl)

/-- A batch is taken: what was in the queue is in the batch. -/
theorem book_takeLimitedUdp (hbatch : k.batch sh.control.cont = []) :
    Book.Step (k.bookOf sh) (k.bookOf sh.takeLimitedUdp) := by
  have hpending : k.kept sh.takeLimitedUdp.st + k.batch sh.takeLimitedUdp.control.cont =
      k.kept sh.st + k.batch sh.control.cont := by
    rw [hbatch]
    cases k with
    | dial => rfl
    | resolve => rfl
    | udpSocket =>
      have hkept : OpKind.udpSocket.kept sh.takeLimitedUdp.st = sh.st.socketOps.val := Multiset.add_zero _
      rw [hkept, OpKind.kept, Multiset.coe_nil, Multiset.add_zero]
      rfl
  rw [OpKind.bookOf, OpKind.bookOf, OpKind.book, OpKind.book, hpending]
  exact .idle le_rfl

theorem book_passEnd {closed : List ℕ} (hc : sh.control = .shard (.dispatch closed)) :
    Book.Step (k.bookOf sh) (k.bookOf (sh.passEnd closed)) := by
  have hpending : k.kept (sh.passEnd closed).st + k.batch (sh.passEnd closed).control.cont =
      k.kept sh.st + k.batch sh.control.cont := by
    rw [hc]
    cases k with
    | dial =>
      have hkept : OpKind.dial.kept (sh.passEnd closed).st = sh.st.dials.val := Multiset.add_zero _
      have hbatch : OpKind.dial.batch (Control.shard (.dispatch closed)).cont = [] := rfl
      rw [hkept, hbatch, OpKind.kept, Multiset.coe_nil, Multiset.add_zero]
      rfl
    | resolve => rfl
    | udpSocket => rfl
  have hmarks : (sh.passEnd closed).st.log.filterMap k.mark = sh.st.log.filterMap k.mark :=
    (apart_note sh.st (e := .passEnd) fun k => by cases k <;> rfl).marks k
  rw [OpKind.bookOf, OpKind.bookOf, OpKind.book, OpKind.book, hpending, hmarks]
  exact .idle le_rfl

/-- An event is about no operation. -/
theorem apart_dispatch (closed : List ℕ) (ev : Polled) : Apart sh.st (sh.dispatch closed ev).st :=
  rel_dispatch .trans (fun hw : Works (fun _ _ => True) _ _ => hw.apart) (fun st _ => apart_note st fun k => by cases k <;> rfl)
    (fun st _ => apart_note st fun k => by cases k <;> rfl) sh closed ev

theorem listeners_dispatch (closed : List ℕ) (ev : Polled) : (sh.dispatch closed ev).listeners = sh.listeners := by
  unfold Shard.dispatch Shard.streamEvent
  dsimp only
  repeat' split
  all_goals rfl

theorem batch_dispatch (closed : List ℕ) (ev : Polled) (k : OpKind) :
    k.batch (sh.dispatch closed ev).control.cont = [] := by
  unfold Shard.dispatch Shard.streamEvent
  dsimp only
  repeat' split
  all_goals cases k <;> rfl

/-- An app that does not cancel an operation of the batch that is being delivered. -/
def Careful (sh : Shard τ) : Action τ → Prop
  | .call (.cancelDial op) => op ∉ OpKind.dial.batch sh.control.cont
  | .call (.cancelUdpSocket op) => op ∉ OpKind.udpSocket.batch sh.control.cont
  | _ => True

/-- **A step keeps the books.** -/
theorem book_step {a : Action τ} (hs : (k.bookOf sh).Sound) (hcareful : Careful sh a) (h : sh.step T a = some sh') :
    Book.Step (k.bookOf sh) (k.bookOf sh') := by
  cases turn_of_step (readsFit_any sh a) h with
  | still hst hk _ => exact hst.apart.book k (hk.batch k)
  | relay hr hev _ hst _ hk _ =>
    refine Apart.book ?_ k (hk.batch k)
    rw [hst]
    exact (works_relayOp hr hev.stream : Works (fun _ _ => True) _ _).apart
  | call c hc =>
    refine book_perform hs c fun op => ⟨?_, ?_⟩
    · rintro rfl
      exact hcareful
    · rintro rfl
      exact hcareful
  | accepted tag hc _ => exact book_callApp (apart_insertAppTcp _) (fun k => by cases k <;> rfl) (by rw [hc]; rfl)
  | listener tag hc =>
    refine Apart.book ?_ k rfl
    exact apart_tables (Nat.le_succ _) rfl rfl rfl rfl rfl rfl rfl
  | dialResult r hc hop => exact book_onDialResult hc hop r
  | resolveResult r hc hop => exact book_onResolveResult hc hop r
  | udpSocket r hc hop => exact book_onUdpSocket hc hop r
  | @dialRefused _ op ops hc =>
    refine book_answered .dial op ?_ (.refl sh.st) rfl rfl (by cases k <;> rfl)
    rw [hc]
    cases k with
    | dial => exact Multiset.add_cons op (OpKind.dial.kept sh.st) (ops : Multiset ℕ)
    | resolve => rfl
    | udpSocket => rfl
  | @openRefused _ op ops hc =>
    refine book_answered .udpSocket op ?_ (.refl sh.st) rfl rfl (by cases k <;> rfl)
    rw [hc]
    cases k with
    | dial => rfl
    | resolve => rfl
    | udpSocket => exact Multiset.add_cons op (OpKind.udpSocket.kept sh.st) (ops : Multiset ℕ)
  | @resolved _ turns op addr rest hc hres =>
    refine book_answered .resolve op ?_ (.refl { sh.st with resolved := rest }) rfl rfl (by cases k <;> rfl)
    rw [hc]
    cases k with
    | dial => rfl
    | resolve =>
      rw [if_pos rfl, OpKind.kept, hres, ← Multiset.cons_add]
      exact congrArg (· + 0) (Multiset.add_cons op sh.st.resolves.val (rest.map Prod.fst : List ℕ))
    | udpSocket => rfl
  | takeLimitedUdp hc => exact book_takeLimitedUdp (by rw [hc]; cases k <;> rfl)
  | @event closed ev hc =>
    refine (apart_dispatch closed ev).book k ?_
    rw [batch_dispatch, hc]
    cases k <;> rfl
  | passEnd hc => exact book_passEnd hc

theorem sound_new (t : τ) (primaryLocal : SocketAddr) (k : OpKind) : (k.bookOf (Shard.new t primaryLocal)).Sound := by
  have hbook : k.bookOf (Shard.new t primaryLocal) = ⟨1, 0, []⟩ := by cases k <;> rfl
  rw [hbook]
  exact Book.sound_nil 1

/-- The books are sound along a run of a careful app. -/
theorem sound_run {t : τ} {primaryLocal : SocketAddr} {as : List (Action τ)}
    (hrun : Run (Shard.step T) Careful (Shard.new t primaryLocal) as sh) (k : OpKind) : (k.bookOf sh).Sound :=
  hrun.invariant (I := fun sh => (k.bookOf sh).Sound)
    (fun _ _ _ hs hcareful hstep => hs.step (book_step hs hcareful hstep)) (sound_new t primaryLocal k)

/-- **Results are delivered at most once, and not once cancelled**, for the dials, the
resolutions and the socket opens of an app that does not cancel an operation of the batch
that is being delivered to it. -/
theorem results_kept (T : ℕ → Transport τ) {t : τ} {primaryLocal : SocketAddr} {as : List (Action τ)}
    (hrun : Run (Shard.step T) Careful (Shard.new t primaryLocal) as sh) (k : OpKind) (op : ℕ) :
    (∀ past e future, sh.st.log = past ++ e :: future → k.mark e = some (.cancelled op) →
      (∃ e' ∈ past, k.mark e' = some (.opened op)) → ∀ x ∈ future, k.mark x ≠ some (.answered op)) ∧
      sh.st.log.countP (fun e => k.mark e = some (.answered op)) ≤ 1 := by
  have hs := sound_run hrun k
  constructor
  · rintro past e future hlog he ⟨e', he', hopen⟩ x hx hans
    have hmarks : (k.bookOf sh).marks = past.filterMap k.mark ++ .cancelled op :: future.filterMap k.mark := by
      rw [OpKind.bookOf, OpKind.book, hlog, List.filterMap_append, List.filterMap_cons_some he]
    apply hs.not_answered hmarks
    · exact List.mem_filterMap.mpr ⟨e', he', hopen⟩
    · exact List.mem_filterMap.mpr ⟨x, hx, hans⟩
  · have honce := hs.answered_once op
    rw [OpKind.bookOf, OpKind.book, List.countP_filterMap] at honce
    refine le_of_eq_of_le (List.countP_congr fun e _ => ?_) honce
    cases k.mark e <;> simp

end Steps

/-- A dial is cancelled after it was handed to the driver; the result comes and is dropped. -/
theorem results_kept_late : ∃ sh past future, Run (Shard.step fun _ => Shard.still) Careful (Shard.new () Shard.anyLocal)
      [.start, .call (.dial Shard.anyTarget 0), .call (.cancelDial 1), .ret, .dialResult 1 (.error .refused),
        .shutdownSignal] sh ∧
    sh.st.log = past ++ .call (.cancelDial 1) .unit :: future ∧ (∀ x ∈ future, OpKind.dial.mark x ≠ some (.answered 1)) ∧
    sh.st.log.countP (fun e => OpKind.dial.mark e = some (.answered 1)) ≤ 1 := by
  have hrun : Run (Shard.step fun _ => Shard.still) Careful (Shard.new () Shard.anyLocal)
      [.start, .call (.dial Shard.anyTarget 0), .call (.cancelDial 1), .ret, .dialResult 1 (.error .refused),
        .shutdownSignal] _ :=
    .cons trivial rfl <| .cons trivial rfl <| .cons List.not_mem_nil rfl <| .cons trivial rfl <| .cons trivial rfl <|
      .cons trivial rfl <| .nil _
  have hkept := results_kept _ hrun .dial 1
  let past : List Edge := [.callback .start, .request (.dial 1 Shard.anyTarget 0), .call (.dial Shard.anyTarget 0) (.id 1),
    .request (.cancelDial 1)]
  have hopen : ∃ e ∈ past, OpKind.dial.mark e = some (.opened 1) :=
    ⟨.call (.dial Shard.anyTarget 0) (.id 1), by simp [past], rfl⟩
  exact ⟨_, past, [.callback .shutdown], hrun, rfl, hkept.1 past (.call (.cancelDial 1) .unit) _ rfl rfl hopen, hkept.2⟩

/-! ### A batch that is out of reach -/

/-- A shard whose app has dialled `n` times and has the control. -/
structure Dialled (n : ℕ) (sh : Shard Unit) : Prop where
  control : sh.control = .app .done
  nextId : sh.st.nextId = n + 1
  card : sh.st.dials.card = n
  below : ∀ op ∈ sh.st.dials, op < sh.st.nextId
  limited : sh.st.limited = []
  timers : sh.st.timers = ∅
  tcp : sh.st.tcp = ∅
  appUdpOps : sh.st.appUdpOps = ∅
  udp : sh.st.udp = AList.insert ShardState.PRIMARY_UDP ⟨Shard.anyLocal, .transport⟩ ∅

variable {n : ℕ} {sh : Shard Unit}

theorem atCap_iff (h : Dialled n sh) : sh.st.atCap = true ↔ SOCKET_CAP ≤ n := by
  simp [ShardState.atCap, h.tcp, h.appUdpOps, h.udp, h.card]

theorem dialled_call (h : Dialled n sh) (hn : n < SOCKET_CAP) :
    Dialled (n + 1) (sh.call (.dial Shard.anyTarget 0)) := by
  have hnew : sh.st.nextId ∉ sh.st.dials := fun hmem => lt_irrefl _ (h.below _ hmem)
  have hcap : ({ sh.st with nextId := sh.st.nextId + 1 } : ShardState).atCap = false := by
    have hfree : ¬sh.st.atCap = true := fun hfull => absurd ((atCap_iff h).mp hfull) (Nat.not_le_of_lt hn)
    exact Bool.not_eq_true _ ▸ hfree
  have hcall : (sh.call (.dial Shard.anyTarget 0)).st =
      (({ sh.st with nextId := sh.st.nextId + 1, dials := insert sh.st.nextId sh.st.dials } : ShardState).pushRequest
        (.dial sh.st.nextId Shard.anyTarget 0)).note (.call (.dial Shard.anyTarget 0) (.id sh.st.nextId)) := by
    simp [Shard.call, ShardState.perform, ShardState.dial, hcap]
  refine ⟨h.control, ?_, ?_, ?_, ?_, ?_, ?_, ?_, ?_⟩ <;> rw [hcall]
  · exact congrArg (· + 1) h.nextId
  · exact (Finset.card_insert_of_notMem hnew).trans (congrArg (· + 1) h.card)
  · intro op hop
    rcases Finset.mem_insert.mp hop with rfl | hop
    · exact Nat.lt_succ_self _
    · exact Nat.lt_succ_of_lt (h.below op hop)
  · exact h.limited
  · exact h.timers
  · exact h.tcp
  · exact h.appUdpOps
  · exact h.udp

/-- The app dials until the shard is full. -/
theorem run_dialled {m : ℕ} (h : Dialled m sh) (hn : m + n ≤ SOCKET_CAP) :
    ∃ sh', Run (Shard.step fun _ => Shard.still) (fun _ _ => True) sh (List.replicate n (.call (.dial Shard.anyTarget 0))) sh' ∧
      Dialled (m + n) sh' := by
  induction n generalizing m sh with
  | zero => exact ⟨sh, .nil sh, h⟩
  | succ n ih =>
    obtain ⟨sh', hrun, hsh'⟩ := ih (dialled_call h (by omega)) (by omega)
    exact ⟨sh', .cons trivial (Shard.step_call h.control _) hrun, by rwa [Nat.add_assoc, Nat.add_comm 1 n] at hsh'⟩

/-- A dial of a full shard is refused. -/
theorem call_dial_full (hcap : sh.st.atCap = true) : sh.call (.dial Shard.anyTarget 0) = { sh with
        st := { sh.st with
          nextId := sh.st.nextId + 1
          limited := sh.st.limited ++ [sh.st.nextId]
          log := sh.st.log ++ [.call (.dial Shard.anyTarget 0) (.id sh.st.nextId)] } } := by
  have hcap' : ({ sh.st with nextId := sh.st.nextId + 1 } : ShardState).atCap = true := hcap
  simp [Shard.call, ShardState.perform, ShardState.dial, hcap', ShardState.note]

/-- Of two refused dials the second is cancelled in the callback of the first. -/
theorem run_cancelled {a b : ℕ} (hcontrol : sh.control = .app .done)
    (hlimited : sh.st.limited = [a, b]) (htimers : sh.st.timers = ∅) (hb : b ∉ sh.st.dials) :
    ∃ sh', Run (Shard.step fun _ => Shard.still) (fun _ _ => True) sh
        [.ret, .drive 0, .go, .poll none, .go, .call (.cancelDial b), .ret, .go] sh' ∧
      sh'.st.log = sh.st.log ++ [.passEnd, .callback (.dialResult a (.error .limit)), .call (.cancelDial b) .unit,
        .callback (.dialResult b (.error .limit))] := by
  obtain ⟨⟨nextId, requests, timers, tcp, streams, deadStreams, dials, limited, resolves, resolved, socketOps,
    appUdpOps, limitedUdp, udp, paths, log⟩, transport, listeners, rr, control⟩ := sh
  obtain rfl : control = .app .done := hcontrol
  obtain rfl : limited = [a, b] := hlimited
  obtain rfl : timers = ∅ := htimers
  refine ⟨_, .cons trivial rfl <| .cons trivial (Shard.step_drive_idle rfl rfl) <| .cons trivial rfl <| .cons trivial rfl <|
    .cons trivial rfl <| .cons trivial rfl <| .cons trivial rfl <| .cons trivial rfl <| .nil _, ?_⟩
  have hdials : b ∉ dials := hb
  simp [Shard.callApp, Shard.call, ShardState.perform, ShardState.cancelDial, Shard.passEnd, Shard.goOn,
    ShardState.note, hdials]

/-- **A cancelled dial is answered**, when it is one of the batch of refused dials that is
being delivered. -/
theorem cancelled_dial_answered : ∃ as sh past future,
    Run (Shard.step fun _ => Shard.still) (fun _ _ => True) (Shard.new () Shard.anyLocal) as sh ∧
      sh.st.log = past ++ .call (.cancelDial 4098) .unit :: future ∧
      (∃ e ∈ past, OpKind.dial.mark e = some (.opened 4098)) ∧
      ∃ x ∈ future, OpKind.dial.mark x = some (.answered 4098) := by
  -- the app starts and dials until the shard is full
  let sh₀ : Shard Unit := (Shard.new () Shard.anyLocal).callApp (Shard.new () Shard.anyLocal).st .start .done
  have hstep : (Shard.new () Shard.anyLocal).step (fun _ => Shard.still) .start = some sh₀ := rfl
  have hstart : Dialled 0 sh₀ := ⟨rfl, rfl, rfl, by simp [sh₀, Shard.callApp, Shard.new, ShardState.note, ShardState.new],
    rfl, rfl, rfl, rfl, rfl⟩
  obtain ⟨sh₁, hrun₁, h₁⟩ := run_dialled (n := SOCKET_CAP) hstart (Nat.zero_add _).le
  rw [Nat.zero_add] at h₁
  -- two more dials are refused
  have hcap₁ : sh₁.st.atCap = true := (atCap_iff h₁).mpr le_rfl
  have hsh₂ := call_dial_full hcap₁
  have hcap₂ : (sh₁.call (.dial Shard.anyTarget 0)).st.atCap = true := by rw [hsh₂]; exact hcap₁
  have hsh₃ := call_dial_full hcap₂
  generalize hsh : (sh₁.call (.dial Shard.anyTarget 0)).call (.dial Shard.anyTarget 0) = sh₃ at hsh₃
  rw [hsh₂] at hsh₃
  have hrun₂ : Run (Shard.step fun _ => Shard.still) (fun _ _ => True) sh₁
      [.call (.dial Shard.anyTarget 0), .call (.dial Shard.anyTarget 0)] sh₃ := by
    have hcontrol : (sh₁.call (.dial Shard.anyTarget 0)).control = .app .done := h₁.control
    rw [← hsh]
    exact .cons trivial (Shard.step_call h₁.control _) (.cons trivial (Shard.step_call hcontrol _) (.nil _))
  have hnext : sh₁.st.nextId = 4097 := h₁.nextId
  -- and the second of these is cancelled too late
  have hcontrol : sh₃.control = .app .done := by rw [hsh₃]; exact h₁.control
  have hlimited : sh₃.st.limited = [4097, 4098] := by rw [hsh₃]; simp [h₁.limited, hnext]
  have htimers : sh₃.st.timers = ∅ := by rw [hsh₃]; exact h₁.timers
  have hnew : 4098 ∉ sh₃.st.dials := by
    rw [hsh₃]
    intro hmem
    have := h₁.below _ hmem
    omega
  obtain ⟨sh₄, hrun₃, hlog⟩ := run_cancelled hcontrol hlimited htimers hnew
  refine ⟨_, sh₄, sh₁.st.log ++ [.call (.dial Shard.anyTarget 0) (.id 4097), .call (.dial Shard.anyTarget 0) (.id 4098), .passEnd,
    .callback (.dialResult 4097 (.error .limit))], [.callback (.dialResult 4098 (.error .limit))],
    .cons trivial hstep (hrun₁.append (hrun₂.append hrun₃)), ?_, ⟨.call (.dial Shard.anyTarget 0) (.id 4098), by simp, rfl⟩,
    ⟨_, List.mem_singleton_self _, rfl⟩⟩
  rw [hlog, hsh₃]
  simp [hnext]

end MqProxy.Runtime
