import MqProxy.Library.History
import MqProxy.Library.Runs
import MqProxy.Server.GatewayRelay

/-!
# The upload of a request

The H3 body of a request goes through one buffer to hyper: the gateway reads into it, hyper's
body takes from it, and the gateway or the bridge may cut it off. **`upload_in_order`**: whatever
the order, hyper gets a prefix of the body; a body with a length ends cleanly only after that
many bytes; one that is shorter or longer is aborted and the request reset; and the buffer
never holds more than `UPLOAD_CAP`.
-/

namespace MqProxy.Server

open MqProxy.Library MqProxy.Runtime

/-! ### What the log says -/

/-- The bytes of the H3 body that were read. -/
def readOf (log : List GwNote) : List UInt8 :=
  log.flatMap fun
    | .recv bs _ => bs
    | .drained bs => bs
    | _ => []

/-- The bytes that hyper got. -/
def yieldedOf (log : List GwNote) : List UInt8 :=
  log.flatMap fun
    | .polled (.data bs) => bs
    | _ => []

/-- Notes that have nothing to do with the upload. -/
def GwNote.quiet : GwNote → Bool
  | .recv _ _ | .drained _ | .polled _ | .aborted => false
  | _ => true

/-- A clean end: not after an abort, and after all bytes of a known length. -/
def Ends (cl : Option ℕ) (past : List GwNote) : GwNote → Prop
  | .polled .last => .aborted ∉ past ∧ ∀ n, cl = some n → (yieldedOf past).length = n
  | _ => True

/-- A read that keeps to the length `n`. -/
def Fits (n : ℕ) (past : List GwNote) : GwNote → Prop
  | .recv bs fin => (readOf past).length + bs.length ≤ n ∧ (fin = true → n ≤ (readOf past).length + bs.length)
  | _ => True

@[simp] theorem readOf_append (log log' : List GwNote) : readOf (log ++ log') = readOf log ++ readOf log' :=
  List.flatMap_append

@[simp] theorem yieldedOf_append (log log' : List GwNote) :
    yieldedOf (log ++ log') = yieldedOf log ++ yieldedOf log' :=
  List.flatMap_append

@[simp] theorem readOf_recv (bs : List UInt8) (fin : Bool) : readOf [.recv bs fin] = bs := List.append_nil bs

@[simp] theorem yieldedOf_data (bs : List UInt8) : yieldedOf [.polled (.data bs)] = bs := List.append_nil bs

theorem readOf_quiet {ns : List GwNote} (h : ∀ e ∈ ns, e.quiet = true) : readOf ns = [] := by
  refine List.flatMap_eq_nil_iff.mpr fun e he => ?_
  have hq := h e he
  cases e <;> first | rfl | cases hq

theorem yieldedOf_quiet {ns : List GwNote} (h : ∀ e ∈ ns, e.quiet = true) : yieldedOf ns = [] := by
  refine List.flatMap_eq_nil_iff.mpr fun e he => ?_
  have hq := h e he
  cases e <;> first | rfl | cases hq

/-- A rule that says nothing about quiet notes. -/
theorem lawful_quiet {Allowed : List GwNote → GwNote → Prop} {log ns : List GwNote} (hl : Lawful Allowed log)
    (hallowed : ∀ past e, e.quiet = true → Allowed past e) (h : ∀ e ∈ ns, e.quiet = true) :
    Lawful Allowed (log ++ ns) := by
  induction ns using List.reverseRecOn with
  | nil => simpa using hl
  | append_singleton ns e ih =>
    rw [← List.append_assoc]
    refine lawful_snoc.mpr ⟨ih fun e' he' => h e' (by simp [he']), hallowed _ e (h e (by simp))⟩

theorem ends_quiet {cl : Option ℕ} (past : List GwNote) (e : GwNote) (h : e.quiet = true) : Ends cl past e := by
  cases e <;> trivial

theorem fits_quiet {n : ℕ} (past : List GwNote) (e : GwNote) (h : e.quiet = true) : Fits n past e := by
  cases e <;> trivial

/-! ### The invariant -/

/-- The count of a request that is not done. -/
def GwPhase.recvd : GwPhase → Option ℕ
  | .origin recvd _ _ _ => some recvd
  | .done => none

/-- **How the upload stands to what was read and what hyper got.** While the request is relayed
nothing is lost and the reads keep to the length. -/
structure Uploads (cl : Option ℕ) (r : GwRelay) : Prop where
  declared : r.upload.cl = cl
  bytes : yieldedOf r.log ++ r.upload.data <+: readOf r.log
  yielded : r.upload.yielded = (yieldedOf r.log).length
  cap : r.upload.data.length ≤ UPLOAD_CAP
  bound : ∀ n, cl = some n → r.upload.yielded + r.upload.data.length ≤ n ∧
    (r.upload.fin = true → r.upload.yielded + r.upload.data.length = n)
  aborted : r.upload.aborted = true ↔ .aborted ∈ r.log
  ends : Lawful (Ends cl) r.log
  live : ∀ recvd, r.phase.recvd = some recvd → recvd = (readOf r.log).length ∧
    readOf r.log = yieldedOf r.log ++ r.upload.data ∧ ∀ n, cl = some n → Lawful (Fits n) r.log
  done : r.phase.recvd = none → r.upload.fin = false → r.upload.aborted = true
  strays : ∀ n, cl = some n → Lawful (Fits n) r.log ∨ .aborted ∈ r.log ∧ .reset ∈ r.log

variable {cl : Option ℕ} {r r' : GwRelay}

/-- A part of a callback that leaves the upload alone. -/
structure Calm (r r' : GwRelay) : Prop where
  upload : r'.upload = r.upload
  recvd : r'.phase.recvd = r.phase.recvd
  log : ∃ ns, r'.log = r.log ++ ns ∧ ∀ e ∈ ns, e.quiet = true

theorem Calm.refl (r : GwRelay) : Calm r r := ⟨rfl, rfl, [], by simp, by simp⟩

theorem Calm.trans {r'' : GwRelay} (h : Calm r r') (h' : Calm r' r'') : Calm r r'' := by
  obtain ⟨ns, hlog, hquiet⟩ := h.log
  obtain ⟨ns', hlog', hquiet'⟩ := h'.log
  refine ⟨h'.upload.trans h.upload, h'.recvd.trans h.recvd, ns ++ ns', ?_, fun e he => ?_⟩
  · rw [hlog', hlog, List.append_assoc]
  · exact (List.mem_append.mp he).elim (hquiet e) (hquiet' e)

theorem calm_note (r : GwRelay) (ns : List GwNote) (h : ∀ e ∈ ns, e.quiet = true) : Calm r (r.note ns) :=
  ⟨rfl, rfl, ns, rfl, h⟩

variable (h : Uploads cl r)
include h

theorem Uploads.calm (hcalm : Calm r r') : Uploads cl r' := by
  obtain ⟨hupload, hrecvd, ns, hlog, hquiet⟩ := hcalm
  have hread : readOf r'.log = readOf r.log := by rw [hlog, readOf_append, readOf_quiet hquiet, List.append_nil]
  have hyielded : yieldedOf r'.log = yieldedOf r.log := by
    rw [hlog, yieldedOf_append, yieldedOf_quiet hquiet, List.append_nil]
  have haborted : .aborted ∈ r'.log ↔ .aborted ∈ r.log := by
    rw [hlog, List.mem_append, or_iff_left fun hmem => by cases hquiet _ hmem]
  have hfits (n : ℕ) (hl : Lawful (Fits n) r.log) : Lawful (Fits n) r'.log :=
    hlog ▸ lawful_quiet hl fits_quiet hquiet
  exact
    { declared := hupload ▸ h.declared
      bytes := by rw [hread, hyielded, hupload]; exact h.bytes
      yielded := by rw [hyielded, hupload]; exact h.yielded
      cap := hupload ▸ h.cap
      bound := hupload ▸ h.bound
      aborted := by rw [haborted, hupload]; exact h.aborted
      ends := hlog ▸ lawful_quiet h.ends ends_quiet hquiet
      live := fun recvd hr => by
        obtain ⟨hcount, hwhole, hlawful⟩ := h.live recvd (hrecvd ▸ hr)
        rw [hread, hyielded, hupload]
        exact ⟨hcount, hwhole, fun n hn => hfits n (hlawful n hn)⟩
      done := by rw [hrecvd, hupload]; exact h.done
      strays := fun n hn => (h.strays n hn).imp (hfits n) fun hab => by
        rw [haborted, hlog, List.mem_append]
        exact ⟨hab.1, Or.inl hab.2⟩ }

/-- **A note that puts nothing into the buffer**: what hyper gets by it leaves the front. -/
theorem Uploads.keep {u : UploadBuf} {e : GwNote} (hcl : u.cl = r.upload.cl)
    (hdata : yieldedOf [e] ++ u.data = r.upload.data) (hcount : u.yielded = r.upload.yielded + (yieldedOf [e]).length)
    (hfin : u.fin = r.upload.fin) (haborted : u.aborted = true ↔ r.upload.aborted = true ∨ .aborted = e)
    (hends : Ends cl r.log e) (hfits : ∀ n, Fits n r.log e) (hread : r.phase.recvd ≠ none → readOf [e] = []) :
    Uploads cl ({ r with upload := u }.note [e]) := by
  have hlength : u.yielded + u.data.length = r.upload.yielded + r.upload.data.length := by
    rw [hcount, ← hdata, List.length_append, Nat.add_assoc]
  have hle : u.data.length ≤ r.upload.data.length := by
    rw [← hdata, List.length_append]
    exact Nat.le_add_left _ _
  have hyielded : yieldedOf (r.log ++ [e]) ++ u.data = yieldedOf r.log ++ r.upload.data := by
    rw [yieldedOf_append, List.append_assoc, hdata]
  have hlawful (n : ℕ) (hl : Lawful (Fits n) r.log) : Lawful (Fits n) (r.log ++ [e]) := lawful_snoc.mpr ⟨hl, hfits n⟩
  exact
    { declared := hcl.trans h.declared
      bytes := by
        show yieldedOf (r.log ++ [e]) ++ u.data <+: readOf (r.log ++ [e])
        rw [hyielded, readOf_append]
        exact h.bytes.trans (List.prefix_append _ _)
      yielded := by
        show u.yielded = (yieldedOf (r.log ++ [e])).length
        rw [hcount, h.yielded, yieldedOf_append, List.length_append]
      cap := hle.trans h.cap
      bound := by
        show ∀ n, cl = some n → u.yielded + u.data.length ≤ n ∧ (u.fin = true → u.yielded + u.data.length = n)
        rw [hlength, hfin]
        exact h.bound
      aborted := by
        show u.aborted = true ↔ .aborted ∈ r.log ++ [e]
        rw [haborted, h.aborted, List.mem_append, List.mem_singleton]
      ends := lawful_snoc.mpr ⟨h.ends, hends⟩
      live := fun recvd hr => by
        obtain ⟨hrecvd, hwhole, hkept⟩ := h.live recvd hr
        have hnone : readOf [e] = [] := hread fun hdone => by cases hdone.symm.trans hr
        show recvd = (readOf (r.log ++ [e])).length ∧ readOf (r.log ++ [e]) = yieldedOf (r.log ++ [e]) ++ u.data ∧ _
        rw [hyielded, readOf_append, hnone, List.append_nil]
        exact ⟨hrecvd, hwhole, fun n hn => hlawful n (hkept n hn)⟩
      done := fun hr hf => haborted.mpr (Or.inl (h.done hr (hfin ▸ hf)))
      strays := fun n hn => (h.strays n hn).imp (hlawful n) fun hab =>
        ⟨List.mem_append_left _ hab.1, List.mem_append_left _ hab.2⟩ }

/-! ### The end of a request -/

/-- The upload is cut off. -/
theorem Uploads.cutUpload : Uploads cl r.cutUpload := by
  cases hfin : r.upload.fin with
  | true =>
    refine h.calm ⟨?_, rfl, [], ?_, by simp⟩
    · show r.upload.cut = r.upload
      rw [UploadBuf.cut, if_pos hfin]
    · show r.log ++ (if r.upload.fin = true then _ else _) = r.log ++ []
      rw [if_pos hfin]
  | false =>
    have hcut : r.cutUpload = { r with upload := r.upload.abort }.note [.aborted] := by
      simp [GwRelay.cutUpload, UploadBuf.cut, hfin]
    rw [hcut]
    exact h.keep rfl rfl rfl rfl ⟨fun _ => Or.inr rfl, fun _ => rfl⟩ trivial (fun _ => trivial) fun _ => rfl

/-- What is discarded comes behind what the buffer has. -/
theorem Uploads.drain (hdone : r.phase.recvd = none) (d : List UInt8) :
    Uploads cl (r.note [.drained d]) :=
  h.keep rfl rfl rfl rfl ⟨Or.inl, fun hab => hab.elim id fun he => by cases he⟩ trivial (fun _ => trivial) fun hlive =>
    absurd hdone hlive

/-- The request is done; its upload has to be complete or cut off. -/
theorem Uploads.toDone (hcut : r.upload.fin = false → r.upload.aborted = true) :
    Uploads cl { r with phase := .done } :=
  { h with
    live := fun _ hr => nomatch hr
    done := fun _ => hcut }

omit h

theorem cut_cutUpload (r : GwRelay) (h : r.cutUpload.upload.fin = false) : r.cutUpload.upload.aborted = true := by
  show (if r.upload.fin then r.upload else r.upload.abort).aborted = true
  have h : (if r.upload.fin then r.upload else r.upload.abort).fin = false := h
  split
  · next hfin =>
    rw [if_pos hfin, hfin] at h
    cases h
  · rfl

include h

theorem Uploads.finish (d : List UInt8) : Uploads cl (r.finish d) := by
  unfold GwRelay.finish
  split
  · have hdone := h.cutUpload.toDone (cut_cutUpload r)
    have hfinished := hdone.calm (calm_note _ [.finished] (List.forall_mem_singleton.mpr rfl))
    have hdrained := hfinished.drain rfl d
    simpa [GwRelay.note] using hdrained
  · next hphase => exact h.drain (by rw [hphase]; rfl) d

theorem Uploads.reset (d : List UInt8) : Uploads cl (r.reset d) := by
  unfold GwRelay.reset
  split
  · exact (h.calm (calm_note r [.reset] (List.forall_mem_singleton.mpr rfl))).finish d
  · exact h

theorem Uploads.sendError (status : ℕ) (xmq : List UInt8) (a : SendTurn) :
    Uploads cl (r.sendError status xmq a) := by
  unfold GwRelay.sendError
  split
  · exact h
  · next recvd head pending finDue hphase =>
    refine Uploads.finish ?_ a.drained
    have hcalm (status : ℕ) (hs : List MqProxy.Http.Field) (fin ok : Bool) :
        Calm r ({ r with status }.note [.headers hs fin ok]) :=
      ⟨rfl, rfl, _, rfl, List.forall_mem_singleton.mpr rfl⟩
    split
    · exact h.calm (hcalm _ _ _ _)
    · exact h.calm ((hcalm _ _ _ _).trans (calm_note _ _ (List.forall_mem_singleton.mpr rfl)))

/-! ### Reads and polls -/

/-- A read that keeps to the length goes behind the buffer. -/
theorem Uploads.recv {recvd : ℕ} {bs : List UInt8} {fin : Bool}
    (head : Option (List MqProxy.Http.Field)) (pending : List UInt8) (finDue : Bool) (hphase : r.phase.recvd = some recvd)
    (hroom : r.upload.data.length + bs.length ≤ UPLOAD_CAP)
    (hfits : ∀ n, cl = some n → recvd + bs.length ≤ n ∧ (fin = true → n ≤ recvd + bs.length)) :
    Uploads cl (GwRelay.note { r with
      upload := { r.upload with data := r.upload.data ++ bs, fin }
      phase := .origin (recvd + bs.length) head pending finDue } [.recv bs fin]) := by
  obtain ⟨hcount, hwhole, hlawful⟩ := h.live recvd hphase
  have hread : readOf (r.log ++ [.recv bs fin]) = readOf r.log ++ bs := by rw [readOf_append, readOf_recv]
  have hyielded : yieldedOf (r.log ++ [.recv bs fin]) = yieldedOf r.log :=
    (yieldedOf_append _ _).trans (List.append_nil _)
  have hlength : recvd = r.upload.yielded + r.upload.data.length := by
    rw [hcount, hwhole, List.length_append, h.yielded]
  have hnew (n : ℕ) (hn : cl = some n) : Lawful (Fits n) (r.log ++ [.recv bs fin]) := by
    refine lawful_snoc.mpr ⟨hlawful n hn, ?_⟩
    show (readOf r.log).length + _ ≤ n ∧ (_ → n ≤ (readOf r.log).length + _)
    rw [← hcount]
    exact hfits n hn
  exact
    { declared := h.declared
      bytes := by
        show yieldedOf (r.log ++ _) ++ (r.upload.data ++ bs) <+: readOf (r.log ++ _)
        rw [hread, hyielded, hwhole, List.append_assoc]
      yielded := by show _ = (yieldedOf (r.log ++ _)).length; rw [hyielded]; exact h.yielded
      cap := by simpa [GwRelay.note] using hroom
      bound := fun n hn => by
        have hle := hfits n hn
        show r.upload.yielded + (r.upload.data ++ bs).length ≤ n ∧
          (fin = true → r.upload.yielded + (r.upload.data ++ bs).length = n)
        rw [List.length_append]
        exact ⟨by omega, fun hfin => by have := hle.2 hfin; omega⟩
      aborted := h.aborted.trans (by simp [GwRelay.note])
      ends := lawful_snoc.mpr ⟨h.ends, trivial⟩
      live := fun recvd' hr => by
        cases hr
        show _ = (readOf (r.log ++ _)).length ∧ readOf (r.log ++ _) = yieldedOf (r.log ++ _) ++ (_ ++ bs) ∧ _
        rw [hread, hyielded, hwhole, ← List.append_assoc]
        refine ⟨?_, rfl, hnew⟩
        rw [List.length_append, ← hwhole, ← hcount]
      done := fun hr => nomatch hr
      strays := fun n hn => Or.inl (hnew n hn) }

/-- hyper takes the front of the buffer. -/
theorem Uploads.take {n : ℕ} (hle : n ≤ r.upload.data.length) :
    Uploads cl (GwRelay.note
      { r with upload := { r.upload with data := r.upload.data.drop n, yielded := r.upload.yielded + n } }
      [.polled (.data (r.upload.data.take n))]) := by
  refine h.keep rfl ?_ ?_ rfl ⟨Or.inl, fun hab => hab.elim id fun he => by cases he⟩ trivial (fun _ => trivial)
    fun _ => rfl
  · rw [yieldedOf_data]
    exact List.take_append_drop _ _
  · rw [yieldedOf_data, List.length_take, min_eq_left hle]

/-- hyper polls the body. -/
theorem Uploads.poll : Uploads cl r.poll := by
  -- a poll that yields no bytes, and leaves all but `wantH3` as it was
  have hidle {u : UploadBuf} {p : Polled} (hu : u = r.upload ∨ u = { r.upload with wantH3 := true })
      (hp : ∀ bs, p ≠ .data bs) (hends : Ends cl r.log (.polled p)) :
      Uploads cl ({ r with upload := u }.note [.polled p]) := by
    have hyielded : yieldedOf [.polled p] = [] := by
      cases p with
      | data bs => exact absurd rfl (hp bs)
      | _ => rfl
    have haborted : r.upload.aborted = true ↔ r.upload.aborted = true ∨ GwNote.aborted = .polled p :=
      ⟨Or.inl, fun hab => hab.elim id fun he => by cases he⟩
    rcases hu with rfl | rfl <;>
      exact h.keep rfl (by rw [hyielded]; rfl) (by rw [hyielded]; rfl) rfl haborted hends (fun _ => trivial) fun _ => rfl
  unfold GwRelay.poll UploadBuf.pollFrame
  split
  · exact hidle (Or.inl rfl) nofun trivial
  next habort =>
    split
    · next hdata =>
      split
      · next hfin =>
        -- the clean end: all that was read has been yielded
        refine hidle (Or.inl rfl) nofun ⟨fun hmem => habort (h.aborted.mpr hmem), fun n hn => ?_⟩
        have hbound := (h.bound n hn).2 hfin
        rw [hdata, h.yielded] at hbound
        simpa using hbound
      · exact hidle (Or.inr rfl) nofun trivial
    · exact h.take (min_le_left _ _)

/-! ### The loop -/

/-- **A read that does not keep to the length** aborts the upload and resets the request. -/
theorem Uploads.stray {recvd : ℕ} {head : Option (List MqProxy.Http.Field)} {pending bs : List UInt8} {finDue fin : Bool} (hopen : r.upload.fin = false) (d : List UInt8) :
    Uploads cl ((GwRelay.note { r with phase := .origin recvd head pending finDue } [.recv bs fin]).reset d) := by
  have hlog : ((GwRelay.note { r with phase := .origin recvd head pending finDue } [.recv bs fin]).reset d) =
      { r with upload := r.upload.abort, phase := .done,
               log := r.log ++ [.recv bs fin, .reset, .aborted, .finished, .drained d] } := by
    simp [GwRelay.note, GwRelay.reset, GwRelay.finish, GwRelay.cutUpload, UploadBuf.cut, hopen]
  rw [hlog]
  have hread : readOf (r.log ++ [.recv bs fin, .reset, .aborted, .finished, .drained d]) =
      readOf r.log ++ (bs ++ d) := by simp [readOf]
  have hyielded : yieldedOf (r.log ++ [.recv bs fin, .reset, .aborted, .finished, .drained d]) = yieldedOf r.log := by
    simp [yieldedOf]
  have hends : Lawful (Ends cl) (r.log ++ [.recv bs fin, .reset, .aborted, .finished, .drained d]) := by
    have hsnoc : r.log ++ [.recv bs fin, .reset, .aborted, .finished, .drained d] =
        r.log ++ [.recv bs fin] ++ [.reset] ++ [.aborted] ++ [.finished] ++ [.drained d] := by simp
    rw [hsnoc]
    simp only [lawful_snoc]
    exact ⟨⟨⟨⟨⟨h.ends, trivial⟩, trivial⟩, trivial⟩, trivial⟩, trivial⟩
  exact
    { declared := h.declared
      bytes := by
        show yieldedOf (r.log ++ _) ++ r.upload.data <+: readOf (r.log ++ _)
        rw [hread, hyielded]
        exact h.bytes.trans (List.prefix_append _ _)
      yielded := by show _ = (yieldedOf (r.log ++ _)).length; rw [hyielded]; exact h.yielded
      cap := h.cap
      bound := h.bound
      aborted := ⟨fun _ => by simp, fun _ => rfl⟩
      ends := hends
      live := fun _ hr => nomatch hr
      done := fun _ _ => rfl
      strays := fun _ _ => Or.inr (by simp) }

omit h

/-- What the loop of `fill` leaves behind, for a request with the upload of `r`. -/
def Fills (cl : Option ℕ) (r : GwRelay) (d : List UInt8) (q : UploadBuf × ℕ × List GwNote × Option Bool) : Prop :=
  ∀ head pending finDue,
    let r' := GwRelay.note { r with upload := q.1, phase := .origin q.2.1 head pending finDue } q.2.2.1
    match q.2.2.2 with
    | none => Uploads cl r'
    | some _ => Uploads cl (r'.reset d)

/-- The loop stops without a read. -/
theorem Uploads.stop {recvd : ℕ} (h : Uploads cl r) (hphase : r.phase.recvd = some recvd) (d : List UInt8)
    (bad : Option Bool) : Fills cl r d (r.upload, recvd, [], bad) := by
  intro head pending finDue
  have hsame : Uploads cl (GwRelay.note { r with phase := .origin recvd head pending finDue } []) :=
    h.calm ⟨rfl, hphase.symm, [], by simp [GwRelay.note], by simp⟩
  cases bad with
  | none => exact hsame
  | some ended => exact hsame.reset d

/-- **The loop of `fill`**: the room does not underflow, and the upload stays in order. -/
theorem Uploads.fillLoop {recvd : ℕ} {turns : List BodyRead} (h : Uploads cl r) (hphase : r.phase.recvd = some recvd)
    (hhonest : ∀ a ∈ turns, HonestRead a) (d : List UInt8) :
    ∃ q, GwRelay.fillLoop r.upload recvd turns = some q ∧ Fills cl r d q := by
  have hroom : ¬UPLOAD_CAP < r.upload.data.length := not_lt.mpr h.cap
  induction turns generalizing r recvd with
  | nil =>
    rw [GwRelay.fillLoop, if_neg hroom]
    exact ⟨_, rfl, h.stop hphase d none⟩
  | cons a turns ih =>
    rw [GwRelay.fillLoop, if_neg hroom]
    dsimp only
    split
    · exact ⟨_, rfl, h.stop hphase d none⟩
    next hgo =>
      simp only [Bool.or_eq_true, decide_eq_true_eq, not_or, Bool.not_eq_true] at hgo
      obtain ⟨⟨hopen, -⟩, -⟩ := hgo
      split
      · exact ⟨_, rfl, h.stop hphase d _⟩
      next bs fin hrecv =>
        have hle : bs.length ≤ min (UPLOAD_CAP - r.upload.data.length) SLICE := hhonest a (by simp) _ bs fin hrecv
        split
        · exact ⟨_, rfl, fun head pending finDue => h.stray hopen d⟩
        next hkeeps =>
          -- the length check passed
          have hfits (n : ℕ) (hn : cl = some n) : recvd + bs.length ≤ n ∧ (fin = true → n ≤ recvd + bs.length) := by
            rw [h.declared, hn] at hkeeps
            simp only [Option.any_some, Bool.or_eq_true, decide_eq_true_eq, Bool.and_eq_true, not_or, not_lt, not_and]
              at hkeeps
            exact ⟨hkeeps.1, fun hfin => hkeeps.2 hfin⟩
          have hcap : r.upload.data.length + bs.length ≤ UPLOAD_CAP := by
            have := h.cap
            omega
          have hread (head : Option (List MqProxy.Http.Field)) (pending : List UInt8) (finDue : Bool) :=
            h.recv head pending finDue hphase hcap hfits
          split
          · exact ⟨_, rfl, hread⟩
          · have hnext := hread none [] false
            obtain ⟨q, hq, hfills⟩ := ih hnext rfl (fun b hb => hhonest b (by simp [hb])) (not_lt.mpr hnext.cap)
            refine ⟨(q.1, q.2.1, .recv bs fin :: q.2.2.1, q.2.2.2), ?_, fun head pending finDue => ?_⟩
            · exact congrArg (Option.map _) hq
            · have hgo := hfills head pending finDue
              simpa [GwRelay.note] using hgo

theorem Uploads.fill {turns : List BodyRead} (h : Uploads cl r) (hhonest : ∀ a ∈ turns, HonestRead a) (d : List UInt8) :
    ∃ q, r.fill turns d = some q ∧ Uploads cl q.1 := by
  unfold GwRelay.fill
  cases hphase : r.phase with
  | done => exact ⟨_, rfl, h⟩
  | origin recvd head pending finDue =>
    obtain ⟨q, hq, hfills⟩ := h.fillLoop (by rw [hphase]; rfl) hhonest d
    refine ⟨_, congrArg (Option.map _) hq, ?_⟩
    have hq := hfills head pending finDue
    dsimp only at hq ⊢
    split at hq
    · next hbad => simpa only [hbad] using hq
    · next hbad => simpa only [hbad] using hq

/-! ### The response leaves the upload alone -/

theorem calm_sendHead (r : GwRelay) (a : SendTurn) : Calm r (r.sendHead a).1 := by
  unfold GwRelay.sendHead
  split
  · next hphase =>
    split
    · exact ⟨rfl, by rw [hphase]; rfl, _, rfl, List.forall_mem_singleton.mpr rfl⟩
    · exact calm_note r _ (List.forall_mem_singleton.mpr rfl)
  · exact .refl r

theorem calm_sendPending (r : GwRelay) (a : SendTurn) : Calm r (r.sendPending a).1 := by
  unfold GwRelay.sendPending
  split
  · next hphase =>
    split
    · exact .refl r
    · split
      · exact ⟨rfl, by rw [hphase]; rfl, _, rfl, List.forall_mem_singleton.mpr rfl⟩
      · exact .refl r
  · exact .refl r

theorem calm_sendFin (r : GwRelay) (a : SendTurn) : Calm r (r.sendFin a).1 := by
  unfold GwRelay.sendFin
  split
  · exact calm_note r _ (List.forall_mem_singleton.mpr rfl)
  · exact .refl r

theorem calm_andThen {q : GwRelay × Except StreamError Bool} {f : GwRelay → GwRelay × Except StreamError Bool}
    (hq : Calm r q.1) (hf : ∀ r, Calm r (f r).1) : Calm r (GwRelay.andThen q f).1 := by
  unfold GwRelay.andThen
  split
  · exact hq.trans (hf q.1)
  · exact hq

theorem calm_sendOut (r : GwRelay) (a : SendTurn) : Calm r (r.sendOut a).1 :=
  calm_andThen (calm_andThen (calm_sendHead r a) fun r => calm_sendPending r a) fun r => calm_sendFin r a

include h

theorem Uploads.flush (a : SendTurn) : Uploads cl (r.flush a).1 := by
  have hout := h.calm (calm_sendOut r a)
  unfold GwRelay.flush
  split
  · exact h
  · generalize r.sendOut a = q at hout
    obtain ⟨r', out⟩ := q
    have hout : Uploads cl r' := hout
    rcases out with e | ⟨- | -⟩
    · exact hout.reset a.drained
    · exact hout
    · dsimp only
      split
      · exact hout.finish a.drained
      · exact hout

theorem Uploads.onResponse (head : RelayHead) (a : SendTurn) :
    Uploads cl (r.onResponse head a) := by
  unfold GwRelay.onResponse
  split
  · exact h
  · next hphase =>
    refine Uploads.flush (h.calm ?_) a
    exact ⟨rfl, by rw [hphase]; rfl, [], by simp, by simp⟩

theorem Uploads.onBodyFrame (bs : List UInt8) (a : SendTurn) :
    Uploads cl (r.onBodyFrame bs a).1 := by
  unfold GwRelay.onBodyFrame
  split
  · exact h
  next recvd head pending finDue hphase =>
    have hkept (p : List UInt8) (ns : List GwNote) (hns : ∀ e ∈ ns, e.quiet = true) :
        Uploads cl (GwRelay.note { r with phase := .origin recvd head p finDue } ns) :=
      h.calm ⟨rfl, by rw [hphase]; rfl, ns, rfl, hns⟩
    have hkept' (p : List UInt8) : Uploads cl { r with phase := .origin recvd head p finDue } := by
      simpa [GwRelay.note] using hkept p [] (by simp)
    dsimp only
    split
    · exact hkept' _
    · split
      · split
        · exact h.calm (calm_note r _ (List.forall_mem_singleton.mpr rfl))
        · exact hkept _ _ (List.forall_mem_singleton.mpr rfl)
      · split
        · exact hkept' _
        · exact h.reset a.drained

theorem Uploads.onBodyEnd (done : Completion) (a : SendTurn) :
    Uploads cl (r.onBodyEnd done a) := by
  unfold GwRelay.onBodyEnd
  split
  · exact h
  · next hphase =>
    split
    · exact h.reset a.drained
    · refine Uploads.flush (h.calm ?_) a
      exact ⟨rfl, by rw [hphase]; rfl, [], by simp, by simp⟩

theorem Uploads.onFailure (f : OriginFailure) (afterHead : Bool) (a : SendTurn) :
    Uploads cl (r.onFailure f afterHead a) := by
  unfold GwRelay.onFailure
  split
  · exact h.reset a.drained
  · exact h.sendError _ _ a

omit h

/-! ### Runs -/

/-- The length that a request declares. -/
def BodyKind.length : BodyKind → Option ℕ
  | .known n => some n
  | _ => Option.none

theorem uploads_start (masq : Bool) (method : MqProxy.Http.Method) (body : BodyKind) :
    Uploads body.length (Relayed.start masq method body).gw := by
  cases body <;>
    exact
      { declared := rfl
        bytes := List.nil_prefix
        yielded := rfl
        cap := Nat.zero_le _
        bound := fun n hn => by cases hn <;> exact ⟨Nat.zero_le _, nofun⟩
        aborted := ⟨nofun, nofun⟩
        ends := lawful_nil
        live := fun recvd hr => by cases hr; exact ⟨rfl, rfl, fun _ _ => lawful_nil⟩
        done := nofun
        strays := fun _ _ => Or.inl lawful_nil }

/-- **An event keeps the upload in order**; honest answers never make it fail. -/
theorem Uploads.step {w : Relayed} {e : RelayEvent} (h : Uploads cl w.gw) (hhonest : e.Honest) :
    ∃ w', w.step e = some w' ∧ Uploads cl w'.gw := by
  have hquiet (e : GwNote) (he : e.quiet = true) : Uploads cl (w.gw.note [e]) :=
    h.calm (calm_note w.gw [e] (by simpa using he))
  cases e with
  | readable turns d =>
    simp only [Relayed.step]
    split
    · next hphase => exact ⟨_, rfl, h.drain (by rw [hphase]; rfl) d⟩
    · obtain ⟨q, hq, hfill⟩ := h.fill hhonest d
      rw [hq]
      refine ⟨_, rfl, ?_⟩
      dsimp only
      split
      · exact hfill.cutUpload
      · exact hfill
  | wantH3 turns d =>
    obtain ⟨q, hq, hfill⟩ := h.fill hhonest d
    exact ⟨_, congrArg (Option.map _) hq, hfill⟩
  | writable a => exact ⟨_, rfl, h.flush a⟩
  | response head a => exact ⟨_, rfl, (hquiet _ rfl).onResponse head a⟩
  | frame bs a => exact ⟨_, rfl, (hquiet _ rfl).onBodyFrame bs a⟩
  | bodyEnd reused connectMs tls a => exact ⟨_, rfl, ((hquiet _ rfl).onBodyEnd _ a).cutUpload⟩
  | failure f a => exact ⟨_, rfl, ((hquiet _ rfl).onFailure f _ a).cutUpload⟩
  | poll => exact ⟨_, rfl, h.poll⟩
  | newBody => exact ⟨_, rfl, { h with }⟩
  | dropBody => exact ⟨_, rfl, { h with }⟩
  | closed => exact ⟨_, rfl, h.cutUpload.toDone (cut_cutUpload w.gw)⟩
  | shutdown d => exact ⟨_, rfl, (hquiet _ rfl).finish d⟩

/-- **The upload of a request.** Whatever the sizes of the reads, where the body ends, and the order of
reads, polls, refills and ends: hyper gets a prefix of the H3 body. With a declared length a clean
end comes after that many bytes and no more are ever given; a read that makes the body longer, or
ends it too early, leaves the upload aborted and the request reset. The buffer holds at most
`UPLOAD_CAP`, so that the room never underflows, and after an abort there is no clean end. -/
theorem upload_in_order {masq : Bool} {method : MqProxy.Http.Method} {body : BodyKind} {es : List RelayEvent} {w : Relayed}
    (hrun : Run Relayed.step (fun _ e => e.Honest) (Relayed.start masq method body) es w) :
    yieldedOf w.gw.log <+: readOf w.gw.log ∧
    (∀ n, body = .known n →
      (∀ past future, w.gw.log = past ++ .polled .last :: future → (yieldedOf past).length = n) ∧
      (w.gw.upload.isEndStream = true → (yieldedOf w.gw.log).length = n) ∧
      (yieldedOf w.gw.log).length ≤ n ∧
      ∀ past bs fin future, w.gw.log = past ++ .recv bs fin :: future →
        n < (readOf past).length + bs.length ∨ fin = true ∧ (readOf past).length + bs.length < n →
        .aborted ∈ w.gw.log ∧ .reset ∈ w.gw.log) ∧
    w.gw.upload.data.length ≤ UPLOAD_CAP ∧
    (∀ e : RelayEvent, e.Honest → (w.step e).isSome = true) ∧
    (∀ past future, w.gw.log = past ++ .polled .last :: future → .aborted ∉ past) ∧
    (.aborted ∈ w.gw.log → w.gw.upload.isEndStream = false) := by
  have h : Uploads body.length w.gw := by
    refine Run.invariant (I := fun w => Uploads body.length w.gw) (fun w e w' hinv hhonest hstep => ?_) hrun
      (uploads_start masq method body)
    obtain ⟨w'', hw'', hnext⟩ := hinv.step hhonest
    cases hw''.symm.trans hstep
    exact hnext
  refine ⟨( List.prefix_append _ _).trans h.bytes, fun n hn => ?_, h.cap, fun e he => ?_,
    fun past future hlog => (h.ends past _ future hlog).1, fun hmem => ?_⟩
  · have hlength : body.length = some n := by rw [hn]; rfl
    have hbound := h.bound n hlength
    rw [h.yielded] at hbound
    refine ⟨fun past future hlog => (h.ends past _ future hlog).2 n hlength, fun hend => ?_, by omega,
      fun past bs fin future hlog hstray => ?_⟩
    · simp only [UploadBuf.isEndStream, Bool.and_eq_true, decide_eq_true_eq] at hend
      have hall := hbound.2 hend.1.1
      rw [hend.1.2] at hall
      simpa using hall
    · refine (h.strays n hlength).resolve_left fun hlawful => ?_
      have hfits := hlawful past _ future hlog
      rcases hstray with hlong | ⟨hfin, hshort⟩
      · exact absurd hfits.1 (not_le.mpr hlong)
      · exact absurd (hfits.2 hfin) (not_le.mpr hshort)
  · obtain ⟨w', hw', -⟩ := h.step he
    rw [hw']
    rfl
  · have hab := h.aborted.mpr hmem
    simp [UploadBuf.isEndStream, hab]

/-- Two bytes and the end, if there is room. -/
def twoBytes : BodyRead := fun room => if 2 ≤ room then .ok ([1, 2], true) else .error .blocked

/-- Two bytes are read, and hyper gets them and the end. -/
theorem upload_in_order_two :
    ∃ w, Run Relayed.step (fun _ e => e.Honest) (Relayed.start false [] (.known 2))
        [.readable [twoBytes] [], .poll, .poll] w ∧
      w.gw.log = [.recv [1, 2] true, .polled (.data [1, 2]), .polled .last] ∧
      yieldedOf w.gw.log <+: readOf w.gw.log ∧ (yieldedOf w.gw.log).length ≤ 2 := by
  have hhonest : HonestRead twoBytes := by
    intro room bs fin h
    unfold twoBytes at h
    split at h
    · next hroom =>
      cases h
      exact hroom
    · cases h
  have hhonest' : ∀ a ∈ [twoBytes], HonestRead a := by simpa using hhonest
  refine Run.exists_and (.cons hhonest' rfl <| .cons trivial rfl <| .cons trivial rfl <| .nil _) fun hrun => ?_
  obtain ⟨hfront, hknown, -⟩ := upload_in_order hrun
  exact ⟨rfl, hfront, (hknown 2 rfl).2.2.1⟩

end MqProxy.Server
