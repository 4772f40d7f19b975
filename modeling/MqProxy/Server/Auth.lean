import MqProxy.Server.Segmentation

/-!
# The control stream's AUTH_REQUEST

The loop at the start of `ctrl_readable` of `mq-proxy/src/server/mod.rs`, which reads the
control stream of a connection that is not yet authenticated until there is an
AUTH_REQUEST to be judged. The token a server compares with is its configured one, cut to
255 bytes (`Server::new`).

`authRead_spec` says what a call of the loop leaves, whatever the stream gives:
it waits with all the bytes so far, or it has judged them. `authCalls_accepts` says that a
frame with the right token is accepted, however the stream cuts it.
-/

namespace MqProxy.Server

open MqProxy.Wire MqProxy.Runtime MqProxy.Library

/-- `MAX_TOKEN`. -/
def MAX_TOKEN : ℕ := 255

/-- The `token` of `Server::new`. -/
def serverToken (token : List UInt8) : List UInt8 := token.take (min token.length MAX_TOKEN)

theorem serverToken_eq (token : List UInt8) : serverToken token = token.take MAX_TOKEN := by
  rw [serverToken, Nat.min_comm, ← List.take_eq_take_min]

/-! ### The loop -/

/-- What the loop makes of the bytes so far: a verdict, or nothing yet. -/
def authVerdict (token rx : List UInt8) (fin : Bool) : Option Bool :=
  match AuthReq.decode rx with
  | .ok (r, used) => if used ≤ MAX_FRAME then some (r.authToken == token) else some false
  -- frames are at most 512 bytes, complete or not
  | .error .short => if !fin && rx.length < MAX_FRAME then none else some false
  | .error _ => some false

/-- How a call of the loop ends. -/
inductive AuthRead where
  /-- It returned, with these bytes in `rx`. -/
  | waits (rx : List UInt8)
  /-- The stream was reset. -/
  | failed
  /-- The request was judged. -/
  | judged (ok : Bool)
  deriving DecidableEq

/-- The loop of `ctrl_readable`. -/
def authRead (token rx : List UInt8) (inc : Incoming) : Option (AuthRead × Incoming) :=
  match checkedSub REQ_BUF rx.length with
  | none => none
  | some cap =>
    match _h : recv cap inc with
    | (.blocked, inc') => some (.waits rx, inc')
    | (.failed, inc') => some (.failed, inc')
    | (.data bytes fin, inc') =>
      match authVerdict token (rx ++ bytes) fin with
      | some ok => some (.judged ok, inc')
      | none => if bytes.length = 0 then some (.waits (rx ++ bytes), inc') else authRead token (rx ++ bytes) inc'
termination_by weight inc
decreasing_by
  have := weight_recv _h
  omega

/-- Calls of the loop, until one of them does not wait. -/
def authCalls (token : List UInt8) : ℕ → List UInt8 → Incoming → Option (AuthRead × Incoming)
  | 0, rx, inc => some (.waits rx, inc)
  | n + 1, rx, inc =>
    match authRead token rx inc with
    | some (.waits rx', inc') => authCalls token n rx' inc'
    | r => r

/-! ### Verdicts -/

/-- **The request is accepted** if it is complete within 512 bytes and has the token. -/
theorem authVerdict_true {token rx : List UInt8} {fin : Bool} :
    authVerdict token rx fin = some true ↔
      ∃ r used, AuthReq.decode rx = .ok (r, used) ∧ used ≤ MAX_FRAME ∧ r.authToken = token := by
  rw [authVerdict]
  cases AuthReq.decode rx with
  | ok frame =>
    obtain ⟨r, used⟩ := frame
    constructor
    · intro h
      simp only at h
      split at h
      · next hused => exact ⟨r, used, rfl, hused, beq_iff_eq.mp (Option.some.inj h)⟩
      · cases h
    · rintro ⟨r', used', heq, hused, htoken⟩
      cases heq
      simp only
      rw [if_pos hused, htoken, beq_self_eq_true]
  | error e =>
    constructor
    · intro h
      cases e with
      | short =>
        simp only at h
        split_ifs at h
        cases h
      | badValue => cases h
      | invalid => cases h
    · rintro ⟨r', used', heq, -⟩
      cases heq

/-- The loop waits with fewer bytes than a frame may have. -/
theorem length_of_authVerdict {token rx : List UInt8} {fin : Bool} (h : authVerdict token rx fin = none) :
    rx.length < MAX_FRAME := by
  rw [authVerdict] at h
  split at h
  · split_ifs at h
  · split_ifs at h with hwait
    simp only [Bool.and_eq_true, decide_eq_true_eq] at hwait
    exact hwait.2
  · cases h

/-- The bytes of an AUTH_REQUEST that the server accepts. -/
structure Accepted (token frame : List UInt8) : Prop where
  decoded : ∃ r, AuthReq.decode frame = .ok (r, frame.length) ∧ r.authToken = token
  bounded : frame.length ≤ MAX_FRAME

namespace Accepted

variable {token frame rx : List UInt8}

/-- A frame is accepted whatever follows it. -/
theorem verdict (h : Accepted token frame) (hrx : frame <+: rx) (fin : Bool) : authVerdict token rx fin = some true := by
  obtain ⟨more, rfl⟩ := hrx
  obtain ⟨r, hdecode, htoken⟩ := h.decoded
  exact authVerdict_true.mpr ⟨r, _, AuthReq.decode_coherent.ok_append hdecode more, h.bounded, htoken⟩

/-- A part of a frame is waited on. -/
theorem waits (h : Accepted token frame) (hrx : rx <+: frame) (hlt : rx.length < frame.length) :
    authVerdict token rx false = none := by
  obtain ⟨r, hdecode, -⟩ := h.decoded
  have hshort := AuthReq.decode_coherent.strict_prefix hdecode (by rwa [List.take_length]) hlt
  have hlength : rx.length < MAX_FRAME := lt_of_lt_of_le hlt h.bounded
  rw [authVerdict, hshort]
  simp [hlength]

end Accepted

/-! ### Calls of the loop -/

/-- The bytes of a read. -/
def Recv.bytes : Recv → List UInt8
  | .data bytes _ => bytes
  | .blocked | .failed => []

/-- The bytes of a script are those of a read and of what is left. -/
theorem payload_recv {cap : ℕ} {inc inc' : Incoming} {r : Recv} (h : recv cap inc = (r, inc')) :
    payload inc = r.bytes ++ payload inc' := by
  match inc with
  | [] =>
    cases h
    rfl
  | .blocked :: rs =>
    cases h
    rfl
  | .failed :: rs =>
    cases h
    rfl
  | .data bytes fin :: rs =>
    rw [recv] at h
    split at h
    · cases h
      rfl
    · cases h
      rw [payload, payload, Recv.bytes, ← List.append_assoc, List.take_append_drop]

/-- The bytes `bs` more explain how a call ended. -/
def AuthRead.Explained (token rx bs : List UInt8) : AuthRead → Prop
  | .waits rx' => rx' = rx ++ bs ∧ rx'.length < MAX_FRAME
  | .failed => True
  | .judged ok => ∃ fin, authVerdict token (rx ++ bs) fin = some ok

/-- **What a call of the loop does**: `REQ_BUF - len` does not underflow, and the bytes it
read and those before say how it ends. -/
theorem authRead_spec (token : List UInt8) {rx : List UInt8} (hrx : rx.length < MAX_FRAME) (inc : Incoming) :
    ∃ r inc' bs, authRead token rx inc = some (r, inc') ∧ payload inc = bs ++ payload inc' ∧ r.Explained token rx bs := by
  have hcap : checkedSub REQ_BUF rx.length = some (REQ_BUF - rx.length) :=
    checkedSub_of_le (le_of_lt (lt_trans hrx (by decide)))
  rw [authRead, hcap]
  simp only
  split
  · next inc' hrecv => exact ⟨_, inc', [], rfl, payload_recv hrecv, (List.append_nil rx).symm, hrx⟩
  · next inc' hrecv => exact ⟨_, inc', [], rfl, payload_recv hrecv, trivial⟩
  · next bytes fin inc' hrecv =>
    have hpayload := payload_recv hrecv
    split
    · next ok hverdict => exact ⟨_, inc', bytes, rfl, hpayload, fin, hverdict⟩
    · next hverdict =>
      have hlength := length_of_authVerdict hverdict
      split
      · exact ⟨_, inc', bytes, rfl, hpayload, rfl, hlength⟩
      · -- the loop goes on with what is left of the script
        have hw := weight_recv hrecv
        obtain ⟨r, inc'', bs, hread, hrest, hexplained⟩ := authRead_spec token hlength inc'
        refine ⟨r, inc'', bytes ++ bs, hread, by rw [hpayload, Recv.bytes, hrest, List.append_assoc], ?_⟩
        cases r with
        | waits rx' => exact ⟨by rw [hexplained.1, List.append_assoc], hexplained.2⟩
        | failed => exact trivial
        | judged ok =>
          obtain ⟨fin', hok⟩ := hexplained
          exact ⟨fin', by rw [← List.append_assoc]; exact hok⟩
termination_by weight inc

/-- A stream that is reset after a byte. -/
theorem authRead_spec_reset :
    ∃ r inc' bs, authRead [] [] [.data [1] false, .failed] = some (r, inc') ∧ [1] = bs ++ payload inc' ∧
      r.Explained [] [] bs :=
  authRead_spec [] (by decide) _

/-! ### A frame that arrives -/

/-- The bytes before are a part of the frame, and the reads to come hold the rest of it. -/
structure Arrives (frame rx : List UInt8) (inc : Incoming) : Prop where
  part : rx <+: frame
  less : rx.length < frame.length
  clean : Clean false inc
  opened : ends inc = false
  rest : frame <+: rx ++ payload inc

/-- Reads that hold the rest of a frame are some. -/
theorem Arrives.ne_nil {frame rx : List UInt8} {inc : Incoming} (h : Arrives frame rx inc) : inc ≠ [] := by
  rintro rfl
  have hle := h.rest.length_le
  rw [payload, List.append_nil] at hle
  exact absurd h.less (not_lt.mpr hle)

/-- After a read the bytes are still a part of the frame, or they hold it. -/
theorem Arrives.read {frame rx bytes : List UInt8} {last : Bool} {inc inc' : Incoming} (h : Arrives frame rx inc)
    (hconsumes : Consumes false inc bytes last inc') :
    last = false ∧ (Arrives frame (rx ++ bytes) inc' ∨ frame <+: rx ++ bytes) := by
  have hends := hconsumes.ends
  rw [h.opened, Bool.false_or, Bool.false_or] at hends
  obtain ⟨hlast, hopened⟩ := Bool.or_eq_false_iff.mp hends.symm
  have hrest : frame <+: (rx ++ bytes) ++ payload inc' := by
    rw [List.append_assoc, ← hconsumes.payload]
    exact h.rest
  refine ⟨hlast, ?_⟩
  rcases Nat.lt_or_ge (rx ++ bytes).length frame.length with hlt | hge
  · have hclean := hconsumes.clean
    rw [hlast] at hclean
    exact .inl ⟨List.prefix_of_prefix_length_le (List.prefix_append _ _) hrest hlt.le, hlt, hclean, hopened, hrest⟩
  · exact .inr (List.prefix_of_prefix_length_le hrest (List.prefix_append _ _) hge)

/-- **A call of the loop accepts the frame or waits for the rest of it.** -/
theorem authRead_accepts {token frame rx : List UInt8} {inc : Incoming} (hframe : Accepted token frame)
    (h : Arrives frame rx inc) :
    ∃ r inc', authRead token rx inc = some (r, inc') ∧
      (r = .judged true ∨ ∃ rx', r = .waits rx' ∧ Arrives frame rx' inc' ∧ weight inc' < weight inc) := by
  have hlength : rx.length < MAX_FRAME := lt_of_lt_of_le h.less hframe.bounded
  have hframeLt : MAX_FRAME < REQ_BUF := by decide
  have hcap : checkedSub REQ_BUF rx.length = some (REQ_BUF - rx.length) := checkedSub_of_le (by omega)
  rw [authRead, hcap]
  simp only
  rcases recv_consumes (REQ_BUF - rx.length) h.clean with
    ⟨inc', hrecv, hconsumes, hw⟩ | ⟨bytes, last, inc', hrecv, -, hconsumes, hw⟩
  · -- nothing now
    rw [hrecv]
    obtain ⟨-, harrives | hwhole⟩ := h.read hconsumes
    · rw [List.append_nil] at harrives
      exact ⟨_, inc', rfl, .inr ⟨rx, rfl, harrives, hw.resolve_right harrives.ne_nil⟩⟩
    · rw [List.append_nil] at hwhole
      exact absurd h.less (not_lt.mpr hwhole.length_le)
  · rw [hrecv]
    simp only
    have hless : weight inc' < weight inc := hw.resolve_right fun hno => by omega
    obtain ⟨rfl, harrives | hwhole⟩ := h.read hconsumes
    · rw [hframe.waits harrives.part harrives.less]
      simp only
      split
      · exact ⟨_, inc', rfl, .inr ⟨_, rfl, harrives, hless⟩⟩
      · obtain ⟨r, inc'', hread, hcases⟩ := authRead_accepts hframe harrives
        refine ⟨r, inc'', hread, hcases.imp_right ?_⟩
        rintro ⟨rx', rfl, harrives', hless'⟩
        exact ⟨rx', rfl, harrives', hless'.trans hless⟩
    · rw [hframe.verdict hwhole]
      exact ⟨_, inc', rfl, .inl rfl⟩
termination_by weight inc

/-- **A frame with the server's token is accepted**, however the reads cut it. -/
theorem authCalls_accepts {token frame rx : List UInt8} {inc : Incoming} (hframe : Accepted token frame)
    (h : Arrives frame rx inc) {n : ℕ} (hn : weight inc ≤ n) :
    ∃ inc', authCalls token n rx inc = some (.judged true, inc') := by
  induction n generalizing rx inc with
  | zero => exact absurd (eq_nil_of_weight (Nat.le_zero.mp hn)) h.ne_nil
  | succ n ih =>
    obtain ⟨r, inc', hread, rfl | ⟨rx', rfl, harrives, hless⟩⟩ := authRead_accepts hframe h
    · exact ⟨inc', by rw [authCalls, hread]⟩
    · rw [authCalls, hread]
      exact ih harrives (by omega)

end MqProxy.Server
