import MqProxy.Tunnel.State

/-!
# The requests of the ingress do not depend on how they are read

The bytes of a client reach `Ingress::feed` in reads. After each one the parser looks
at everything that is buffered; what it has consumed is dropped, and it waits for more
until it comes to something (`serve`).

* A parser that has answered answers the same on every longer buffer, and consumes no
  more than there is (`Stands`).
* Hence a whole run over any reads does what one `feed` over all the bytes does
  (`serve_eq`): the same replies, the same outcome and as many bytes consumed.
-/

namespace MqProxy.Tunnel

open MqProxy.Ingress

/-! ### The run over the reads -/

/-- How much of the buffer is consumed by what was done. -/
def consumed (notes : List Note) : ℕ :=
  (notes.map fun | .consume _ n => n | _ => 0).sum

/-- The reads of a socket, one `feed` after each, until it comes to something: what it comes
to, and what was done. `rx` is what is buffered before the first of them. -/
def serve (tcp : ℕ) (udp written : Bool) (p : Parser) (rx : List UInt8) :
    List (List UInt8) → Option (Fed × List Note)
  | [] => some (.wait, [])
  | r :: reads => do
    let (fed, p, notes) ← feed tcp udp written 2 p (rx ++ r)
    if fed = .wait then
      let (fed, more) ← serve tcp udp written p ((rx ++ r).drop (consumed notes)) reads
      return (fed, notes ++ more)
    else return (fed, notes)

/-! ### Two turns -/

theorem capped_eq (b : List UInt8) (parse : List UInt8 → Progress) :
    capped b parse = if parse (b.take INGRESS_CAP) = .need then if INGRESS_CAP ≤ b.length then .close else .need
      else parse (b.take INGRESS_CAP) := by
  rw [capped, min_comm, ← List.take_eq_take_min]
  grind

/-- Only the greeting of SOCKS5 is answered and read on, and then it is over. -/
theorem greeted_of_feed {p p' : Parser} {rx bytes : List UInt8} {udp : Bool} {n : ℕ}
    (h : p.feed rx udp = (.reply n bytes false, p')) : p = .socks5 ⟨false⟩ ∧ p' = .socks5 ⟨true⟩ := by
  have hgreeting (b : List UInt8) (h : (Socks5.greeting b).1 = .reply n bytes false) :
      (Socks5.greeting b).2 = true := by
    unfold Socks5.greeting at h ⊢
    grind
  have hrequest (b : List UInt8) : Socks5.request b ≠ .reply n bytes false := by
    unfold Socks5.request
    grind [Socks5.refuse]
  have hline (e : ℕ) (b : List UInt8) : HttpConnect.parseLine e b ≠ .reply n bytes false := by
    unfold HttpConnect.parseLine
    grind [HttpConnect.bad]
  cases p with
  | http =>
    simp only [Parser.feed, HttpConnect.feed, capped_eq, HttpConnect.parse] at h
    grind
  | socks5 p =>
    cases hgreeted : p.greeted <;>
      simp only [Parser.feed, Socks5.Socks5Parser.feed, hgreeted, capped_eq, min_comm, ← List.take_eq_take_min] at h
    · grind [Socks5.Socks5Parser]
    · grind

/-- Two turns are enough. -/
theorem exists_feed (tcp : ℕ) (udp written : Bool) (p : Parser) (rx : List UInt8) :
    ∃ r, feed tcp udp written 2 p rx = some r := by
  rcases hp : p.feed rx udp with ⟨_ | _ | _ | ⟨n, bytes, close⟩ | _, q⟩ <;> simp only [feed, hp]
  any_goals exact ⟨_, rfl⟩
  split
  · exact ⟨_, rfl⟩
  · next hon =>
    -- only the greeting is read on, and what comes behind it is not
    obtain rfl : close = false := by grind
    obtain ⟨-, rfl⟩ := greeted_of_feed hp
    rcases hq : (Parser.socks5 ⟨true⟩).feed (rx.drop n) udp with
      ⟨_ | _ | _ | ⟨n', bytes', close'⟩ | _, q'⟩ <;> dsimp only
    any_goals exact ⟨_, rfl⟩
    cases close' with
    | false => cases (greeted_of_feed hq).1
    | true => simp

/-! ### Answers stand -/

/-- The bytes an answer consumes. -/
def Progress.consumed : Progress → ℕ
  | .done n _ | .associate n | .reply n _ _ => n
  | .need | .close => 0

/-- The answer of `parse` on `b`, if it is one, is within `b` and stands however `b` goes on. -/
def Stands {α : Type} (answer : α → Progress) (parse : List UInt8 → α) (b : List UInt8) : Prop :=
  answer (parse b) ≠ .need → Progress.consumed (answer (parse b)) ≤ b.length ∧ ∀ e, parse (b ++ e) = parse b

theorem greeting_stands (b : List UInt8) : Stands Prod.fst Socks5.greeting b := by
  intro h
  unfold Socks5.greeting at h ⊢
  constructor
  · grind [Progress.consumed]
  · intro e
    grind

theorem addrSpan_append {b : List UInt8} (h4 : 4 ≤ b.length) (h : Socks5.addrSpan b ≠ .more) (e : List UInt8) :
    Socks5.addrSpan (b ++ e) = Socks5.addrSpan b := by
  unfold Socks5.addrSpan at h ⊢
  grind

theorem request_stands (b : List UInt8) : Stands id Socks5.request b := by
  intro h
  refine ⟨by unfold Socks5.request; grind [Progress.consumed, Socks5.refuse], fun e => ?_⟩
  have h4 : 4 ≤ b.length := by
    by_contra h4
    exact h (if_pos (Nat.lt_of_not_le h4))
  have hget := fun i (hi : i < b.length) => List.getD_append b e 0 i hi
  simp only [Socks5.request, id_eq, hget 0 (by omega), hget 1 (by omega), hget 3 (by omega)] at h ⊢
  cases hspan : Socks5.addrSpan b with
  | more => grind
  | unsupported => grind [addrSpan_append h4 (by simp [hspan]) e]
  | found off len => grind [addrSpan_append h4 (by simp [hspan]) e]

theorem windowPosition_cons (pat : List UInt8) (x : UInt8) (b : List UInt8) :
    HttpConnect.windowPosition pat (x :: b) =
      if pat <+: x :: b then some 0 else (HttpConnect.windowPosition pat b).map (· + 1) := by
  simp only [HttpConnect.windowPosition, List.prefix_iff_eq_take, eq_comm]

theorem windowPosition_append {pat b : List UInt8} {i : ℕ} (h : HttpConnect.windowPosition pat b = some i)
    (e : List UInt8) : i + pat.length ≤ b.length ∧ HttpConnect.windowPosition pat (b ++ e) = some i := by
  induction b generalizing i with
  | nil => cases h
  | cons x b ih =>
    rw [windowPosition_cons] at h
    rw [List.cons_append, windowPosition_cons]
    split at h
    · next hpat =>
      cases h
      exact ⟨by simpa using hpat.length_le, if_pos (hpat.trans (List.prefix_append _ e))⟩
    · next hpat =>
      obtain ⟨k, hk, rfl⟩ := Option.map_eq_some_iff.1 h
      obtain ⟨hle, happ⟩ := ih hk
      have hno : ¬pat <+: x :: (b ++ e) := fun hp =>
        hpat (List.prefix_of_prefix_length_le hp (List.prefix_append (x :: b) e) (by simp; omega))
      exact ⟨by simp; omega, by rw [if_neg hno, happ]; rfl⟩

theorem exists_windowPosition {pat q b : List UInt8} {i : ℕ} (h : HttpConnect.windowPosition (pat ++ q) b = some i) :
    ∃ j, HttpConnect.windowPosition pat b = some j := by
  induction b generalizing i with
  | nil => cases h
  | cons x b ih =>
    rw [windowPosition_cons] at h ⊢
    split
    · exact ⟨0, rfl⟩
    · next hpat =>
      rw [if_neg fun hp => hpat ((List.prefix_append pat q).trans hp)] at h
      obtain ⟨k, hk, -⟩ := Option.map_eq_some_iff.1 h
      obtain ⟨j, hj⟩ := ih hk
      exact ⟨j + 1, by rw [hj]; rfl⟩

theorem consumed_parseLine (hend : ℕ) (line : List UInt8) :
    Progress.consumed (HttpConnect.parseLine hend line) ≤ hend := by
  unfold HttpConnect.parseLine
  grind [Progress.consumed, HttpConnect.bad]

theorem parse_stands (b : List UInt8) : Stands id HttpConnect.parse b := by
  intro h
  unfold HttpConnect.parse at h ⊢
  cases hend : HttpConnect.windowPosition [0x0D, 0x0A, 0x0D, 0x0A] b with
  | none => rw [hend] at h; exact absurd rfl h
  | some i =>
    obtain ⟨j, hj⟩ := @exists_windowPosition [0x0D, 0x0A] [0x0D, 0x0A] _ _ hend
    refine ⟨(consumed_parseLine _ _).trans (windowPosition_append hend []).1, fun e => ?_⟩
    have hle := (windowPosition_append hj []).1
    rw [(windowPosition_append hend e).2, (windowPosition_append hj e).2, hj]
    dsimp only [Option.getD_some]
    rw [List.take_append_of_le_length (by omega)]

/-- What a full buffer or an answer has settled, no byte behind it changes. -/
theorem take_append_stands {α : Type} {answer : α → Progress} {parse : List UInt8 → α} {b : List UInt8}
    (hs : ∀ b, Stands answer parse b) (h : answer (parse (b.take INGRESS_CAP)) = .need → INGRESS_CAP ≤ b.length)
    (e : List UInt8) : parse ((b ++ e).take INGRESS_CAP) = parse (b.take INGRESS_CAP) := by
  rw [List.take_append]
  by_cases hneed : answer (parse (b.take INGRESS_CAP)) = .need
  · rw [Nat.sub_eq_zero_of_le (h hneed), List.take_zero, List.append_nil]
  · exact (hs _ hneed).2 _

theorem capped_stands {parse : List UInt8 → Progress} (hs : ∀ b, Stands id parse b) (b : List UInt8) :
    Stands id (capped · parse) b := by
  intro h
  simp only [capped_eq, id_eq] at h ⊢
  have happ := take_append_stands hs (b := b) (by grind)
  have hle := fun h => (hs (b.take INGRESS_CAP) h).1
  refine ⟨by grind [Progress.consumed, List.length_take], fun e => ?_⟩
  rw [happ e, List.length_append]
  grind

/-- **An answer stands**, whatever is read behind it. -/
theorem Parser.feed_stands (p : Parser) (udp : Bool) (rx : List UInt8) : Stands Prod.fst (p.feed · udp) rx := by
  cases p with
  | http =>
    have hs := capped_stands parse_stands rx
    simp only [Stands, Parser.feed, HttpConnect.feed, id_eq] at hs ⊢
    grind [Progress.consumed]
  | socks5 p =>
    cases hgreeted : p.greeted with
    | true =>
      have hs := capped_stands request_stands rx
      simp only [Stands, Parser.feed, Socks5.Socks5Parser.feed, hgreeted, if_true, id_eq] at hs ⊢
      grind [Progress.consumed]
    | false =>
      have hs := capped_stands
        (fun b h => ⟨(greeting_stands b h).1, fun e => congrArg Prod.fst ((greeting_stands b h).2 e)⟩) rx
      have hover := take_append_stands greeting_stands (b := rx)
      simp only [Stands, Parser.feed, Socks5.Socks5Parser.feed, hgreeted, if_neg Bool.false_ne_true, id_eq, min_comm,
        ← List.take_eq_take_min] at hs ⊢
      grind [Progress.consumed, capped_eq]

theorem Parser.feed_need {p p' : Parser} {rx : List UInt8} {udp : Bool} (h : p.feed rx udp = (.need, p')) : p' = p := by
  cases p with
  | http => grind [Parser.feed]
  | socks5 p =>
    have hover (b : List UInt8) (h : (Socks5.greeting b).1 = .need) : (Socks5.greeting b).2 = false := by
      unfold Socks5.greeting at h ⊢
      grind
    simp only [Parser.feed, Socks5.Socks5Parser.feed, min_comm, ← List.take_eq_take_min] at h
    grind [capped_eq, Socks5.Socks5Parser]

/-- What the stage a parser is in makes of the bytes, before the cap. -/
def Parser.stage : Parser → List UInt8 → Progress
  | .socks5 p, b => if p.greeted then Socks5.request b else (Socks5.greeting b).1
  | .http, b => HttpConnect.parse b

theorem Parser.closes_of_full {p : Parser} {udp : Bool} {rx : List UInt8} (hfull : INGRESS_CAP ≤ rx.length)
    (h : p.stage (rx.take INGRESS_CAP) = .need) : (p.feed rx udp).1 = .close := by
  cases p with
  | http => grind [Parser.feed, Parser.stage, HttpConnect.feed, capped_eq]
  | socks5 p => grind [Parser.feed, Parser.stage, Socks5.Socks5Parser.feed, capped_eq]

theorem Parser.length_lt_of_need {p : Parser} {udp : Bool} {rx : List UInt8} (h : (p.feed rx udp).1 = .need) :
    rx.length < INGRESS_CAP := by
  by_contra hfull
  cases p with
  | http => grind [Parser.feed, HttpConnect.feed, capped_eq]
  | socks5 p => grind [Parser.feed, Socks5.Socks5Parser.feed, capped_eq]

/-! ### The loop -/

section Loop

variable {tcp n : ℕ} {udp written : Bool} {p p' : Parser} {b rx : List UInt8} {fed : Fed} {notes : List Note}

theorem feed_add {r : Fed × Parser × List Note} (h : feed tcp udp written n p rx = some r) (m : ℕ) :
    feed tcp udp written (n + m) p rx = some r := by
  induction n generalizing p rx r with
  | zero => cases h
  | succ n ih =>
    rw [Nat.add_right_comm]
    rcases hp : p.feed rx udp with ⟨_ | _ | _ | _ | _, q⟩ <;> simp only [feed, hp] at h ⊢
    any_goals exact h
    split at h
    · next hc => rwa [if_pos hc]
    · next hc =>
      obtain ⟨r', hr, rfl⟩ := Option.map_eq_some_iff.1 h
      rw [if_neg hc, ih hr]
      rfl

/-- A loop that waits goes on behind what it has consumed; one that has come to something is over. -/
theorem feed_append (h : feed tcp udp written n p b = some (fed, p', notes)) (e : List UInt8) :
    consumed notes ≤ b.length ∧ (fed ≠ .wait → feed tcp udp written n p (b ++ e) = some (fed, p', notes)) ∧
      (fed = .wait → (p'.feed (b.drop (consumed notes)) udp).1 = .need ∧
        ∀ m r, feed tcp udp written m p' (b.drop (consumed notes) ++ e) = some r →
          feed tcp udp written (n + m) p (b ++ e) = some (r.1, r.2.1, notes ++ r.2.2)) := by
  induction n generalizing p b notes with
  | zero => cases h
  | succ n ih =>
    have hs := p.feed_stands udp b
    rcases hp : p.feed b udp with ⟨ans, q⟩
    simp only [Stands, hp] at hs
    rw [feed, hp] at h
    cases ans with
    | need =>
      cases h
      obtain rfl := Parser.feed_need hp
      exact ⟨Nat.zero_le _, fun h => absurd rfl h, fun _ => ⟨congrArg Prod.fst hp, fun m r hr => by
        rw [Nat.add_comm]
        exact feed_add hr _⟩⟩
    | reply k bytes close =>
      obtain ⟨hk, happ⟩ := hs (by simp)
      simp only [Progress.consumed] at hk
      simp only [Nat.add_right_comm n 1, feed, happ e, List.drop_append_of_le_length hk]
      dsimp only at h
      split at h
      · next hc =>
        cases h
        exact ⟨by simpa [consumed] using hk, fun _ => if_pos hc, nofun⟩
      · next hc =>
        obtain ⟨⟨fed', q', more⟩, hr, hmap⟩ := Option.map_eq_some_iff.1 h
        cases hmap
        obtain ⟨hle, hend, hwait⟩ := ih hr
        have hsum : consumed ([.consume tcp k, .write tcp bytes] ++ more) = k + consumed more := by simp [consumed]
        rw [List.length_drop] at hle
        rw [hsum, ← List.drop_drop]
        refine ⟨by omega, fun h => ?_, fun h => ⟨(hwait h).1, fun m r' hr' => ?_⟩⟩
        · rw [if_neg hc, hend h]
          rfl
        · rw [if_neg hc, (hwait h).2 m r' hr']
          rfl
    | _ =>
      obtain ⟨hk, happ⟩ := hs (by simp)
      cases h
      exact ⟨by simp_all [consumed, Progress.consumed], fun _ => by rw [feed, happ e], nofun⟩

/-- **A run over reads is one loop** over all the bytes. -/
theorem serve_eq (hwait : (p.feed rx udp).1 = .need) (reads : List (List UInt8)) :
    serve tcp udp written p rx reads =
      (feed tcp udp written 2 p (rx ++ reads.flatten)).map fun r => (r.1, r.2.2) := by
  induction reads generalizing p rx with
  | nil =>
    rcases hp : p.feed rx udp with ⟨ans, q⟩
    rw [hp] at hwait
    cases hwait
    simp [serve, feed, hp]
  | cons r reads ih =>
    obtain ⟨⟨fed, p', notes⟩, hf⟩ := exists_feed tcp udp written p (rx ++ r)
    obtain ⟨-, hend, hgo⟩ := feed_append hf reads.flatten
    rw [List.flatten_cons, ← List.append_assoc]
    by_cases hfed : fed = .wait
    · obtain ⟨hneed, hgo⟩ := hgo hfed
      obtain ⟨r₁, hr₁⟩ := exists_feed tcp udp written p' ((rx ++ r).drop (consumed notes) ++ reads.flatten)
      obtain ⟨r₂, hr₂⟩ := exists_feed tcp udp written p (rx ++ r ++ reads.flatten)
      have hr := hgo 2 r₁ hr₁
      rw [feed_add hr₂ 2, Option.some.injEq] at hr
      rw [hr₂, hr, serve, hf]
      simp [hfed, ih hneed, hr₁]
    · rw [hend hfed, serve, hf]
      simp [hfed]

/-! ### The greeting -/

/-- A whole SOCKS5 greeting stands at the front of `b`. -/
def Greets (b : List UInt8) : Prop :=
  2 ≤ b.length ∧ b.getD 0 0 = Socks5.VER ∧ 2 + (b.getD 1 0).toNat ≤ b.length

instance (b : List UInt8) : Decidable (Greets b) :=
  inferInstanceAs (Decidable (_ ∧ _ ∧ _))

/-- The answers to a greeting among what was done. -/
def methodReplies (notes : List Note) : ℕ :=
  notes.countP fun
    | .write _ bytes => bytes = [Socks5.VER, 0x00] ∨ bytes = [Socks5.VER, 0xFF]
    | _ => false

/-- A greeting is far below the cap. -/
theorem greeting_feed (b : List UInt8) (udp : Bool) :
    (Parser.socks5 ⟨false⟩).feed b udp = ((Socks5.greeting b).1, .socks5 ⟨(Socks5.greeting b).2⟩) := by
  have hshort (c : List UInt8) (h : (Socks5.greeting c).1 = .need) : c.length < INGRESS_CAP := by
    have := (c.getD 1 0).toNat_lt
    unfold Socks5.greeting INGRESS_CAP at *
    grind
  have htake : Socks5.greeting (b.take INGRESS_CAP) = Socks5.greeting b := by
    conv_rhs => rw [← List.take_append_drop INGRESS_CAP b]
    by_cases hneed : (Socks5.greeting (b.take INGRESS_CAP)).1 = .need
    · have := hshort _ hneed
      rw [List.drop_eq_nil_of_le (by grind), List.append_nil]
    · exact ((greeting_stands _ hneed).2 _).symm
  have hassoc (n : ℕ) : (Socks5.greeting b).1 ≠ .associate n := by
    unfold Socks5.greeting
    grind
  simp only [Parser.feed, Socks5.Socks5Parser.feed, min_comm, ← List.take_eq_take_min, capped_eq, htake]
  grind

theorem length_reply {k : ℕ} {bytes : List UInt8} {close : Bool} {q : Parser}
    (h : (Parser.socks5 ⟨true⟩).feed rx udp = (.reply k bytes close, q)) : bytes.length = 10 := by
  have hten (rep : UInt8) : (Socks5.reply rep).length = 10 := rfl
  have hrequest (b : List UInt8) (h : Socks5.request b = .reply k bytes close) : bytes.length = 10 := by
    unfold Socks5.request at h
    grind [Socks5.refuse]
  simp only [Parser.feed, Socks5.Socks5Parser.feed, capped_eq] at h
  grind

/-- What is answered to a request is not an answer to a greeting. -/
theorem methodReplies_request (h : feed tcp udp written n (.socks5 ⟨true⟩) rx = some (fed, p', notes)) :
    methodReplies notes = 0 := by
  cases n with
  | zero => cases h
  | succ n =>
    rcases hp : (Parser.socks5 ⟨true⟩).feed rx udp with ⟨ans, q⟩
    rw [feed, hp] at h
    cases ans with
    | reply k bytes close =>
      have hlen := length_reply hp
      cases close with
      | false => cases (greeted_of_feed hp).1
      | true =>
        simp only [Bool.or_true, if_true] at h
        cases h
        simp only [methodReplies, List.countP_eq_zero]
        grind
    | _ => cases h; rfl

theorem methodReplies_feed (h : feed tcp udp written n (.socks5 ⟨false⟩) rx = some (fed, p', notes)) :
    methodReplies notes = if Greets rx then 1 else 0 := by
  cases n with
  | zero => cases h
  | succ n =>
    rw [feed, greeting_feed, Socks5.greeting] at h
    dsimp only at h
    split_ifs at h with hlen hver htotal hauth
    · cases h
      rw [if_neg fun hg => absurd hg.1 (by omega)]
      rfl
    · cases h
      rw [if_neg fun hg => hver hg.2.1]
      rfl
    · cases h
      rw [if_neg fun hg => absurd hg.2.2 (by omega)]
      rfl
    · rw [if_pos (show Greets rx from ⟨by omega, not_not.1 hver, by omega⟩)]
      dsimp only at h
      split at h
      · cases h
        rfl
      · obtain ⟨r, hr, hmap⟩ := Option.map_eq_some_iff.1 h
        cases hmap
        have hzero := methodReplies_request hr
        rw [methodReplies] at hzero ⊢
        rw [List.countP_append, hzero]
        rfl
    · rw [if_pos (show Greets rx from ⟨by omega, not_not.1 hver, by omega⟩)]
      simp only [Bool.or_true, if_true] at h
      cases h
      rfl

end Loop

/-- **The reads do not matter**: over any two splits of the same bytes an ingress writes the same
replies, comes to the same and consumes as many bytes. An answer of a parser stands whatever comes
behind it and consumes no more than there is; the greeting is answered exactly once; a stage that is not
complete within the cap is closed; and two turns of the loop are enough. -/
theorem reads_irrelevant (tcp : ℕ) (udp written : Bool) (p : Parser) (hp : p = .socks5 ⟨false⟩ ∨ p = .http)
    (reads reads' : List (List UInt8)) (hreads : reads.flatten = reads'.flatten) :
    (∃ fed notes, serve tcp udp written p [] reads = some (fed, notes) ∧
      serve tcp udp written p [] reads' = some (fed, notes) ∧ consumed notes ≤ reads.flatten.length ∧
      (fed = .wait → reads.flatten.length < consumed notes + INGRESS_CAP) ∧
      (p = .socks5 ⟨false⟩ → methodReplies notes = if Greets reads.flatten then 1 else 0)) ∧
    ∀ (q : Parser) (rx : List UInt8),
      ((q.feed rx udp).1 ≠ .need → Progress.consumed (q.feed rx udp).1 ≤ rx.length ∧
        ∀ e, q.feed (rx ++ e) udp = q.feed rx udp) ∧
      (INGRESS_CAP ≤ rx.length → q.stage (rx.take INGRESS_CAP) = .need → (q.feed rx udp).1 = .close) ∧
      ∃ r, ∀ turns ≥ 2, feed tcp udp written turns q rx = some r := by
  have hnil : (p.feed [] udp).1 = .need := by rcases hp with rfl | rfl <;> rfl
  constructor
  · obtain ⟨⟨fed, p', notes⟩, hfeed⟩ := exists_feed tcp udp written p reads.flatten
    obtain ⟨hle, -, hwait⟩ := feed_append hfeed []
    refine ⟨fed, notes, ?_, ?_, hle, fun hfed => ?_, fun hsocks => ?_⟩
    · rw [serve_eq hnil, List.nil_append, hfeed]
      rfl
    · rw [serve_eq hnil, List.nil_append, ← hreads, hfeed]
      rfl
    · have := Parser.length_lt_of_need (hwait hfed).1
      rw [List.length_drop] at this
      omega
    · rw [hsocks] at hfeed
      exact methodReplies_feed hfeed
  · intro q rx
    obtain ⟨r, hr⟩ := exists_feed tcp udp written q rx
    refine ⟨q.feed_stands udp rx, Parser.closes_of_full, r, fun turns hturns => ?_⟩
    rw [← Nat.add_sub_of_le hturns]
    exact feed_add hr _

/-- A greeting in two reads, cut in two ways. -/
theorem reads_irrelevant_greeting : ∃ fed notes,
    serve 0 true true (.socks5 ⟨false⟩) [] [[5], [1, 0]] = some (fed, notes) ∧
      serve 0 true true (.socks5 ⟨false⟩) [] [[5, 1], [0]] = some (fed, notes) ∧ methodReplies notes = 1 := by
  obtain ⟨⟨fed, notes, h, h', -, -, hcount⟩, -⟩ :=
    reads_irrelevant 0 true true (.socks5 ⟨false⟩) (.inl rfl) [[5], [1, 0]] [[5, 1], [0]] rfl
  exact ⟨fed, notes, h, h', (hcount rfl).trans (by decide)⟩

end MqProxy.Tunnel
