import Mathlib.Data.List.Basic
import Mathlib.Data.List.Infix

/-!
# Readers and writers over a cursor

A binary format is usually read by a cursor that walks over a buffer: each
primitive looks at the bytes after the cursor, fails or moves the cursor on, and
a decoder is a sequence of primitives. Writing is the mirror image: a cursor over
a buffer of fixed size, each primitive overwriting the bytes after it.

Both are `StateT (Cursor β) (Except ε)`, over any kind of item `β` and any kind
of error `ε`. The buffer of a reader may be the beginning of something longer
that has not arrived yet, so one of the errors, `short`, means "not enough
items"; the others mean that no continuation can help.

* `Reads m bs a` — the reader `m` takes exactly `bs` and gives `a`, whatever
  stands before and after; `Reads.bind` composes.
* `Incremental short m` — the outcome of `m` is stable when the buffer grows:
  a success depends only on the items it took, and an error other than `short`
  stays. Closed under `>>=` (`Incremental.bind`); `Coherent` is what it says of a
  whole decoder, and `feed_eq` that a decoder run after every read of a stream
  decides the same however the stream is cut.
* `Emits w bs` — the writer `w` puts exactly `bs` at the cursor when they fit;
  `Rejects w` — it fails on every buffer; `Writes w bs P` — it does the one when
  `P` holds and the other when not (`Writes.bind` composes).
* `Format` — a writer and a reader of the same values, and the round trips that
  follow in both directions.
-/

namespace MqProxy.Library

variable {β ε α γ : Type}

/-- A cursor: a buffer, and how much of it is behind the cursor. -/
@[ext]
structure Cursor (β : Type) where
  /-- The buffer. -/
  buf : List β
  /-- How much of it is behind the cursor. -/
  off : ℕ
  deriving DecidableEq

/-- What moves a cursor: it fails, or gives a value and the cursor moved on. -/
abbrev Cursored (β ε α : Type) := StateT (Cursor β) (Except ε) α

theorem bind_apply (m : Cursored β ε α) (f : α → Cursored β ε γ) (c : Cursor β) :
    (m >>= f) c = match m c with
      | .ok (a, c') => f a c'
      | .error e => .error e := by
  change StateT.bind m f c = _
  unfold StateT.bind
  cases m c <;> rfl

variable {m : Cursored β ε α} {f : α → Cursored β ε γ}

theorem bind_ok {c c'' : Cursor β} {b : γ} :
    (m >>= f) c = .ok (b, c'') ↔ ∃ a c', m c = .ok (a, c') ∧ f a c' = .ok (b, c'') := by
  rw [bind_apply]
  cases h : m c with
  | error e => simp
  | ok p =>
    obtain ⟨a, c'⟩ := p
    constructor
    · exact fun h' => ⟨a, c', rfl, h'⟩
    · rintro ⟨a', c₁, h₁, h₂⟩
      simp only [Except.ok.injEq, Prod.mk.injEq] at h₁
      obtain ⟨rfl, rfl⟩ := h₁
      exact h₂

variable {e : ε}

theorem bind_error {c : Cursor β} :
    (m >>= f) c = .error e ↔ m c = .error e ∨ ∃ a c', m c = .ok (a, c') ∧ f a c' = .error e := by
  rw [bind_apply]
  cases h : m c with
  | error e' => simp
  | ok p =>
    obtain ⟨a, c'⟩ := p
    constructor
    · exact fun h' => .inr ⟨a, c', rfl, h'⟩
    · rintro (h' | ⟨a', c₁, h₁, h₂⟩)
      · cases h'
      · simp only [Except.ok.injEq, Prod.mk.injEq] at h₁
        obtain ⟨rfl, rfl⟩ := h₁
        exact h₂

theorem pure_apply (a : α) (c : Cursor β) : (pure a : Cursored β ε α) c = .ok (a, c) := rfl

theorem throw_apply (e : ε) (c : Cursor β) : (throw e : Cursored β ε α) c = .error e := rfl

/-- A value that may be missing: give up with `e` when it is. -/
def orThrow (e : ε) : Option α → Cursored β ε α
  | some a => pure a
  | none => throw e

/-- Where the cursor is. -/
def offset : Cursored β ε ℕ := fun c => .ok (c.off, c)

/-- Run a reader from the start of a buffer. -/
def decodeWith (m : Cursored β ε α) (buf : List β) : Except ε α :=
  match m ⟨buf, 0⟩ with
  | .ok (a, _) => .ok a
  | .error e => .error e

/-- Run a writer from the start of a buffer: what it gives, and the buffer written. -/
def encodeWith (w : Cursored β ε α) (out : List β) : Except ε (α × List β) :=
  match w ⟨out, 0⟩ with
  | .ok (a, c) => .ok (a, c.buf)
  | .error e => .error e

variable {buf : List β} {a : α}

theorem decodeWith_ok : decodeWith m buf = .ok a ↔ ∃ c, m ⟨buf, 0⟩ = .ok (a, c) := by
  unfold decodeWith
  cases m ⟨buf, 0⟩ with
  | error e => simp
  | ok p => simp [Prod.ext_iff, eq_comm]

theorem decodeWith_error : decodeWith m buf = .error e ↔ m ⟨buf, 0⟩ = .error e := by
  unfold decodeWith
  cases m ⟨buf, 0⟩ <;> simp

/-! ### What a reader takes -/

/-- The reader takes exactly `bs`, whatever stands before and after, and gives `a` of
the offset behind them. -/
def Reads (m : Cursored β ε α) (bs : List β) (a : ℕ → α) : Prop :=
  ∀ pre tail, m ⟨pre ++ bs ++ tail, pre.length⟩ =
    .ok (a (pre.length + bs.length), ⟨pre ++ bs ++ tail, pre.length + bs.length⟩)

theorem Reads.pure (a : α) : Reads (ε := ε) (β := β) (pure a) [] (fun _ => a) := by
  intro pre tail
  rw [pure_apply]
  simp

variable {bs cs : List β} {b : ℕ → γ}

theorem Reads.bind (hm : Reads m bs (fun _ => a)) (hf : Reads (f a) cs b) : Reads (m >>= f) (bs ++ cs) b := by
  intro pre tail
  have h₁ := hm pre (cs ++ tail)
  have h₂ := hf (pre ++ bs) tail
  simp only [List.append_assoc, List.length_append] at h₁ h₂ ⊢
  rw [bind_ok]
  exact ⟨a, _, h₁, by rw [h₂, Nat.add_assoc]⟩

/-- What is done to the value at the end. -/
theorem Reads.map {a : ℕ → α} (hm : Reads m bs a) (f : α → γ) :
    Reads (m >>= fun x => Pure.pure (f x)) bs (fun k => f (a k)) := by
  intro pre tail
  exact bind_ok.mpr ⟨_, _, hm pre tail, rfl⟩

theorem Reads.orThrow {o : Option α} (h : o = some a) : Reads (β := β) (orThrow e o) [] (fun _ => a) := by
  subst h
  exact Reads.pure a

theorem Reads.offset : Reads (β := β) (ε := ε) offset [] id := by
  intro pre tail
  simp [Library.offset]

/-! ### Growing buffers -/

/-- **The outcome is stable when the buffer grows**: a success depends only on the
items behind the new cursor, and an error other than `short` stays. -/
structure Incremental (short : ε) (m : Cursored β ε α) : Prop where
  /-- A success moves the cursor forward inside the buffer, and depends only on what it passed. -/
  ok : ∀ {buf : List β} {off : ℕ} {a : α} {c' : Cursor β}, off ≤ buf.length →
    m ⟨buf, off⟩ = .ok (a, c') →
      c'.buf = buf ∧ off ≤ c'.off ∧ c'.off ≤ buf.length ∧
        ∀ buf', buf.take c'.off <+: buf' → m ⟨buf', off⟩ = .ok (a, ⟨buf', c'.off⟩)
  /-- An error that is not `short` stays. -/
  err : ∀ {buf : List β} {off : ℕ} {e : ε}, off ≤ buf.length → m ⟨buf, off⟩ = .error e → e ≠ short →
    ∀ x, m ⟨buf ++ x, off⟩ = .error e

theorem Incremental.pure (short : ε) (a : α) : Incremental (β := β) short (pure a) where
  ok := by
    intro buf off a' c' hoff h
    rw [pure_apply] at h
    simp only [Except.ok.injEq, Prod.mk.injEq] at h
    obtain ⟨rfl, rfl⟩ := h
    exact ⟨rfl, le_rfl, hoff, fun _ _ => rfl⟩
  err := by
    intro buf off e _ h
    cases h

theorem Incremental.throw (short e : ε) : Incremental (β := β) (α := α) short (throw e) where
  ok := by
    intro buf off a' c' _ h
    cases h
  err := by
    intro buf off e' _ h _ x
    rw [throw_apply] at h ⊢
    exact h

variable {short : ε}

theorem Incremental.bind
    (hm : Incremental short m) (hf : ∀ a, Incremental short (f a)) : Incremental short (m >>= f) where
  ok := by
    intro buf off b c'' hoff h
    obtain ⟨a, ⟨buf', off'⟩, h₁, h₂⟩ := bind_ok.mp h
    obtain ⟨hb, hle, hlen, hext⟩ := hm.ok hoff h₁
    simp only at hb hle hlen hext
    subst hb
    obtain ⟨hb', hle', hlen', hext'⟩ := (hf a).ok hlen h₂
    refine ⟨hb', hle.trans hle', hlen', fun b hb => ?_⟩
    -- the second reader's items include the first one's
    have htake : buf'.take off' <+: b :=
      (List.take_prefix_take_left hle').trans hb
    exact bind_ok.mpr ⟨a, _, hext b htake, hext' b hb⟩
  err := by
    intro buf off e hoff h hne x
    rcases bind_error.mp h with h₁ | ⟨a, ⟨buf', off'⟩, h₁, h₂⟩
    · exact bind_error.mpr (.inl (hm.err hoff h₁ hne x))
    · obtain ⟨hb, hle, hlen, hext⟩ := hm.ok hoff h₁
      simp only at hb hle hlen hext
      subst hb
      have htake : buf'.take off' <+: buf' ++ x :=
        (List.take_prefix off' buf').trans (List.prefix_append buf' x)
      exact bind_error.mpr (.inr ⟨a, _, hext _ htake, (hf a).err hlen h₂ hne x⟩)

theorem Incremental.orThrow (short e : ε) (o : Option α) : Incremental (β := β) short (orThrow e o) := by
  cases o with
  | none => exact Incremental.throw short e
  | some a => exact Incremental.pure short a

theorem Incremental.offset (short : ε) : Incremental (β := β) short offset where
  ok := by
    intro buf off a c' hoff h
    simp only [Library.offset, Except.ok.injEq, Prod.mk.injEq] at h
    obtain ⟨rfl, rfl⟩ := h
    exact ⟨rfl, le_rfl, hoff, fun _ _ => rfl⟩
  err := by
    intro buf off e _ h
    cases h

/-- A reader that looks at a condition and may give up on it. -/
theorem Incremental.ite {p : Prop} [Decidable p] {m' : Cursored β ε α}
    (h : Incremental short m) (h' : Incremental short m') : Incremental short (if p then m else m') := by
  split
  · exact h
  · exact h'

/-- The reader reports where its cursor ends. -/
def Reports (m : Cursored β ε (α × ℕ)) : Prop := ∀ c r c', m c = .ok (r, c') → r.2 = c'.off

theorem Reports.bind (m : Cursored β ε γ) {f : γ → Cursored β ε (α × ℕ)} (h : ∀ a, Reports (f a)) :
    Reports (m >>= f) := by
  intro c r c' hr
  obtain ⟨a, c₁, -, h₂⟩ := bind_ok.mp hr
  exact h a c₁ r c' h₂

theorem Reports.throw (e : ε) : Reports (throw e : Cursored β ε (α × ℕ)) := by
  intro c r c' h
  cases h

theorem Reports.ite {p : Prop} [Decidable p] {m m' : Cursored β ε (α × ℕ)} (h : Reports m) (h' : Reports m') :
    Reports (if p then m else m') := by
  split
  · exact h
  · exact h'

/-! ### Decoders of a growing stream -/

/-- **What a decoder of a stream must satisfy** for its decision to depend on the
items alone: a success and an error other than `short` survive any continuation,
a success that `p` was too short for takes more than `p`, and every strict prefix
of what a success took is too short. -/
structure Coherent (short : ε) (decode : List β → Except ε (α × ℕ)) : Prop where
  /-- A success survives any continuation. -/
  ok_append : ∀ {p : List β} {f : α} {n : ℕ}, decode p = .ok (f, n) → ∀ x, decode (p ++ x) = .ok (f, n)
  /-- An error other than `short` survives any continuation. -/
  error_append : ∀ {p : List β} {e : ε}, decode p = .error e → e ≠ short → ∀ x, decode (p ++ x) = .error e
  /-- What `p` was too short for takes more than `p`. -/
  short_append : ∀ {p x : List β} {f : α} {n : ℕ}, decode p = .error short → decode (p ++ x) = .ok (f, n) →
    p.length < n
  /-- Every strict prefix of what a success took is too short. -/
  strict_prefix : ∀ {p q : List β} {f : α} {n : ℕ}, decode p = .ok (f, n) → q <+: p.take n → q.length < n →
    decode q = .error short

/-- A decoder that runs an incremental reader from the start of the buffer and
reports where the cursor ends is coherent. -/
theorem Incremental.coherent {m : Cursored β ε (α × ℕ)} (hm : Incremental short m)
    (hr : Reports m) : Coherent short (decodeWith m) := by
  have hok : ∀ {p : List β} {f : α} {n : ℕ}, decodeWith m p = .ok (f, n) →
      n ≤ p.length ∧ ∀ p', p.take n <+: p' → decodeWith m p' = .ok (f, n) := by
    intro p f n h
    obtain ⟨c, hc⟩ := decodeWith_ok.mp h
    have hn : n = c.off := hr _ _ _ hc
    obtain ⟨-, -, hlen, hext⟩ := hm.ok (Nat.zero_le _) hc
    rw [← hn] at hlen hext
    exact ⟨hlen, fun p' hp' => decodeWith_ok.mpr ⟨_, hext p' hp'⟩⟩
  have herr : ∀ {p : List β} {e : ε}, decodeWith m p = .error e → e ≠ short →
      ∀ x, decodeWith m (p ++ x) = .error e := by
    intro p e h hne x
    exact decodeWith_error.mpr (hm.err (Nat.zero_le _) (decodeWith_error.mp h) hne x)
  have happ : ∀ {p : List β} {f : α} {n : ℕ}, decodeWith m p = .ok (f, n) →
      ∀ x, decodeWith m (p ++ x) = .ok (f, n) :=
    fun h x => (hok h).2 _ ((List.take_prefix _ _).trans (List.prefix_append _ x))
  refine ⟨happ, herr, ?_, ?_⟩
  · intro p x f n hp hpx
    by_contra hle
    have hle : n ≤ p.length := Nat.le_of_not_lt hle
    -- the items the success took are all in `p`
    have := (hok hpx).2 p (by rw [List.take_append_of_le_length hle]; exact List.take_prefix _ _)
    rw [hp] at this
    cases this
  · intro p q f n hp hq hlt
    have hqp : q <+: p := hq.trans (List.take_prefix _ _)
    obtain ⟨x, rfl⟩ := hqp
    cases hdq : decodeWith m q with
    | error e =>
      by_contra hne
      have := herr hdq (fun he => hne (by rw [he])) x
      rw [hp] at this
      cases this
    | ok r =>
      obtain ⟨f', n'⟩ := r
      have := happ hdq x
      rw [hp] at this
      simp only [Except.ok.injEq, Prod.mk.injEq] at this
      have := (hok hdq).1
      omega

/-- A success takes items of the buffer. -/
theorem Coherent.le_length {decode : List β → Except ε (α × ℕ)} (h : Coherent short decode)
    {p : List β} {f : α} {n : ℕ} (hp : decode p = .ok (f, n)) : n ≤ p.length := by
  by_contra hlt
  have hlt : p.length < n := Nat.lt_of_not_le hlt
  have := h.strict_prefix hp (by rw [List.take_of_length_le hlt.le]) hlt
  rw [hp] at this
  cases this

/-- Decode after every read of a stream, as long as the buffer is too short: the
buffer so far, then the reads still to come. -/
def feed [DecidableEq ε] (short : ε) (decode : List β → Except ε (α × ℕ)) (buf : List β) :
    List (List β) → Except ε (α × ℕ)
  | [] => decode buf
  | r :: rs =>
    match decode buf with
    | .error e => if e = short then feed short decode (buf ++ r) rs else .error e
    | .ok p => .ok p

/-- **A coherent decoder decides on the stream, not on the reads**: run after every
read, it ends with what it gives on the whole stream at once. -/
theorem Coherent.feed_eq [DecidableEq ε] {decode : List β → Except ε (α × ℕ)}
    (h : Coherent short decode) (rs : List (List β)) :
    ∀ buf, feed short decode buf rs = decode (buf ++ rs.flatten) := by
  induction rs with
  | nil => intro buf; simp [feed]
  | cons r rs ih =>
    intro buf
    rw [feed]
    cases hd : decode buf with
    | ok p => exact (h.ok_append hd _).symm
    | error e =>
      by_cases he : e = short
      · simp only [he, if_true]
        rw [ih, List.flatten_cons, List.append_assoc]
      · simp only [he, if_false]
        exact (h.error_append hd he _).symm

/-! ### What a writer puts down -/

/-- The buffer with `bs` over the items from `off` on. -/
def splice (buf : List β) (off : ℕ) (bs : List β) : List β :=
  buf.take off ++ bs ++ buf.drop (off + bs.length)

theorem length_splice {off : ℕ} (h : off + bs.length ≤ buf.length) : (splice buf off bs).length = buf.length := by
  simp only [splice, List.length_append, List.length_take, List.length_drop]
  omega

/-- Two pieces written one after the other are their concatenation written at once. -/
theorem splice_splice {off : ℕ} (h : off + bs.length + cs.length ≤ buf.length) :
    splice (splice buf off bs) (off + bs.length) cs = splice buf off (bs ++ cs) := by
  have htake : (buf.take off).length = off := by rw [List.length_take]; omega
  have hpre : (buf.take off ++ bs).length = off + bs.length := by rw [List.length_append, htake]
  simp only [splice]
  rw [List.take_append_of_le_length (by omega), List.take_of_length_le (by omega),
    List.drop_append, List.drop_eq_nil_of_le (by omega), hpre]
  simp only [List.nil_append, List.drop_drop, List.length_append, List.append_assoc]
  congr 4
  omega

/-- The writer puts exactly `bs` at the cursor, when they fit, and gives `a` of the new offset. -/
def Emits (w : Cursored β ε α) (bs : List β) (a : ℕ → α) : Prop :=
  ∀ buf off, off + bs.length ≤ buf.length →
    w ⟨buf, off⟩ = .ok (a (off + bs.length), ⟨splice buf off bs, off + bs.length⟩)

theorem Emits.bind {w : Cursored β ε Unit} {f : Unit → Cursored β ε γ}
    (hw : Emits w bs (fun _ => ())) (hf : Emits (f ()) cs b) : Emits (w >>= f) (bs ++ cs) b := by
  intro buf off hlen
  simp only [List.length_append] at hlen ⊢
  have h₁ := hw buf off (by omega)
  have h₂ := hf (splice buf off bs) (off + bs.length) (by rw [length_splice (by omega)]; omega)
  rw [splice_splice (by omega), Nat.add_assoc] at h₂
  exact bind_ok.mpr ⟨(), _, h₁, h₂⟩

theorem Emits.offset : Emits (β := β) (ε := ε) offset [] id := by
  intro buf off _
  simp [Library.offset, splice]

/-- The writer fails on every buffer. -/
def Rejects (w : Cursored β ε α) : Prop := ∀ c, ∃ e, w c = .error e

theorem Rejects.throw (e : ε) : Rejects (β := β) (α := α) (throw e : Cursored β ε α) := fun _ => ⟨e, rfl⟩

variable {w : Cursored β ε α}

theorem Rejects.bind_left (h : Rejects w) (f : α → Cursored β ε γ) : Rejects (w >>= f) := by
  intro c
  obtain ⟨e, he⟩ := h c
  exact ⟨e, bind_error.mpr (.inl he)⟩

theorem Rejects.bind_right (w : Cursored β ε α) (h : ∀ a, Rejects (f a)) : Rejects (w >>= f) := by
  intro c
  cases hw : w c with
  | error e => exact ⟨e, bind_error.mpr (.inl hw)⟩
  | ok p =>
    obtain ⟨a, c'⟩ := p
    obtain ⟨e, he⟩ := h a c'
    exact ⟨e, bind_error.mpr (.inr ⟨a, c', hw, he⟩)⟩

/-- **What a writer that checks its value does**: when `P` holds it puts down `bs`, and
otherwise it fails. -/
structure Writes (w : Cursored β ε α) (bs : List β) (P : Prop) (a : ℕ → α) : Prop where
  /-- When `P` holds it puts down `bs`. -/
  emits : P → Emits w bs a
  /-- Otherwise it fails. -/
  rejects : ¬ P → Rejects w

theorem Writes.of_emits {a : ℕ → α} (h : Emits w bs a) : Writes w bs True a :=
  ⟨fun _ => h, fun h' => absurd trivial h'⟩

/-- Pieces written one after the other: all their conditions must hold. -/
theorem Writes.bind {w : Cursored β ε Unit} {f : Unit → Cursored β ε γ} {P Q : Prop}
    (hw : Writes w bs P (fun _ => ())) (hf : Writes (f ()) cs Q b) : Writes (w >>= f) (bs ++ cs) (P ∧ Q) b where
  emits := fun ⟨hP, hQ⟩ => (hw.emits hP).bind (hf.emits hQ)
  rejects := by
    intro h
    by_cases hP : P
    · exact .bind_right _ fun _ => hf.rejects fun hQ => h ⟨hP, hQ⟩
    · exact (hw.rejects hP).bind_left f

theorem Writes.of_iff {P Q : Prop} {a : ℕ → α} (h : Writes w bs P a) (hPQ : P ↔ Q) : Writes w bs Q a :=
  propext hPQ ▸ h

theorem take_splice_zero (out bs : List β) : (splice out 0 bs).take bs.length = bs := by
  simp only [splice, List.take_zero, List.nil_append]
  rw [List.take_append_of_le_length le_rfl, List.take_length]

/-! ### Formats -/

/-- **A format**: a writer and a reader of the same values. A value that is `Ok` is
written as `bytes`, at most `bound` of them, and read back; any other value is
rejected; and what is read is `Ok` and was at least as long as its own `bytes`. -/
structure Format {φ ε' : Type} (writer : φ → Cursored β ε' ℕ) (reader : Cursored β ε (φ × ℕ))
    (bytes : φ → List β) (Ok : φ → Prop) (bound : ℕ) : Prop where
  /-- A value that is `Ok` is written as its `bytes`, and their number reported; any other is rejected. -/
  writes : ∀ f, Writes (writer f) (bytes f) (Ok f) id
  /-- The `bytes` of a value are read as the value. -/
  reads : ∀ {f}, Ok f → Reads reader (bytes f) (fun k => (f, k))
  /-- There are at most `bound` of them. -/
  bounded : ∀ {f}, Ok f → (bytes f).length ≤ bound
  /-- What is read is `Ok`, and was no shorter than its own `bytes`. -/
  sound : ∀ {p f n c}, reader ⟨p, 0⟩ = .ok ((f, n), c) → Ok f ∧ (bytes f).length ≤ n

namespace Format

variable {φ ε' : Type} {writer : φ → Cursored β ε' ℕ} {reader : Cursored β ε (φ × ℕ)}
  {bytes : φ → List β} {Ok : φ → Prop} {bound : ℕ}

variable {f : φ} {out : List β}

/-- What is written into a buffer that holds the `bytes` of a value. -/
theorem encodeWith_eq (F : Format writer reader bytes Ok bound) (hf : Ok f)
    (hout : (bytes f).length ≤ out.length) :
    encodeWith (writer f) out = .ok ((bytes f).length, splice out 0 (bytes f)) := by
  have := (F.writes f).emits hf out 0 (by omega)
  simp only [encodeWith, this, id_eq, Nat.zero_add]

/-- In a buffer of at least `bound` items, exactly the values that are `Ok` are written. -/
theorem encodes_iff (F : Format writer reader bytes Ok bound) (f : φ)
    (hout : bound ≤ out.length) : (∃ n buf, encodeWith (writer f) out = .ok (n, buf)) ↔ Ok f := by
  constructor
  · rintro ⟨n, buf, h⟩
    by_contra hf
    obtain ⟨e, he⟩ := (F.writes f).rejects hf ⟨out, 0⟩
    simp only [encodeWith, he] at h
    cases h
  · intro hf
    exact ⟨_, _, F.encodeWith_eq hf ((F.bounded hf).trans hout)⟩

/-- What was written is read back, whatever follows it. -/
theorem decode_encode (F : Format writer reader bytes Ok bound) {n : ℕ} {buf : List β}
    (hout : bound ≤ out.length) (h : encodeWith (writer f) out = .ok (n, buf)) (tail : List β) :
    decodeWith reader (buf.take n ++ tail) = .ok (f, n) := by
  have hf : Ok f := (F.encodes_iff f hout).mp ⟨n, buf, h⟩
  rw [F.encodeWith_eq hf ((F.bounded hf).trans hout)] at h
  simp only [Except.ok.injEq, Prod.mk.injEq] at h
  obtain ⟨rfl, rfl⟩ := h
  rw [take_splice_zero]
  have := F.reads hf [] tail
  simp only [List.nil_append, List.length_nil, Nat.zero_add] at this
  exact decodeWith_ok.mpr ⟨_, this⟩

/-- What was read can be written again, in at most as many items, and is read back. -/
theorem encode_decode (F : Format writer reader bytes Ok bound) {p : List β} {n : ℕ}
    (h : decodeWith reader p = .ok (f, n)) (hout : bound ≤ out.length) :
    ∃ m buf, encodeWith (writer f) out = .ok (m, buf) ∧ m ≤ n ∧ decodeWith reader (buf.take m) = .ok (f, m) := by
  obtain ⟨c, hc⟩ := decodeWith_ok.mp h
  obtain ⟨hf, hlen⟩ := F.sound hc
  have henc := F.encodeWith_eq hf ((F.bounded hf).trans hout)
  refine ⟨_, _, henc, hlen, ?_⟩
  have := F.decode_encode hout henc []
  rwa [List.append_nil] at this

end Format

end MqProxy.Library
