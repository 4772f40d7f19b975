import MqProxy.Wire.Frames

/-!
# Frames on a growing stream

A frame arrives in pieces, and its decoder is run on what has arrived so far. Each
primitive of the read cursor is `Incremental`, hence each of the six decoders is,
and `frames_decode_stable` says what that means: whether a stream is a frame, is
malformed or needs more bytes depends on its bytes alone, not on how they were cut
into reads.
-/

namespace MqProxy.Wire

open MqProxy.Library

/-! ### The primitives -/

namespace Cursor

theorem bytes_ok {n : ℕ} {c c' : Library.Cursor UInt8} {b : List UInt8} :
    bytes n c = .ok (b, c') ↔
      n ≤ (c.buf.drop c.off).length ∧ b = (c.buf.drop c.off).take n ∧ c' = ⟨c.buf, c.off + n⟩ := by
  simp only [bytes]
  split
  · next h => simp only [reduceCtorEq, false_iff]; omega
  · next h =>
    simp only [Except.ok.injEq, Prod.mk.injEq]
    constructor
    · rintro ⟨rfl, rfl⟩
      exact ⟨Nat.le_of_not_lt h, rfl, rfl⟩
    · rintro ⟨-, rfl, rfl⟩
      exact ⟨rfl, rfl⟩

theorem varint_ok {c c' : Library.Cursor UInt8} {v : UInt64} :
    varint c = .ok (v, c') ↔ ∃ n, Varint.decode (c.buf.drop c.off) = .ok (v, n) ∧ c' = ⟨c.buf, c.off + n⟩ := by
  simp only [varint]
  cases Varint.decode (c.buf.drop c.off) with
  | error e => simp
  | ok p =>
    obtain ⟨v', n⟩ := p
    simp only [Except.ok.injEq, Prod.mk.injEq]
    constructor
    · rintro ⟨rfl, rfl⟩
      exact ⟨n, ⟨rfl, rfl⟩, rfl⟩
    · rintro ⟨n', ⟨rfl, rfl⟩, rfl⟩
      exact ⟨rfl, rfl⟩

/-- What stands behind the cursor is the same in any buffer that begins alike. -/
theorem drop_take_of_isPrefix {buf buf' : List UInt8} {off n : ℕ} (h : buf.take (off + n) <+: buf') :
    (buf.drop off).take n <+: buf'.drop off := by
  have hdrop := h.drop off
  rwa [List.drop_take, Nat.add_sub_cancel_left] at hdrop

theorem bytes_incremental (n : ℕ) : Incremental .short (bytes n) where
  ok := by
    intro buf off b c' hoff h
    obtain ⟨hn, rfl, rfl⟩ := bytes_ok.mp h
    simp only [List.length_drop] at hn
    refine ⟨rfl, Nat.le_add_right off n, by simp only; omega, fun buf' hp => bytes_ok.mpr ?_⟩
    have hp' := drop_take_of_isPrefix hp
    have hlen : ((buf.drop off).take n).length = n := by
      rw [List.length_take, List.length_drop]
      omega
    refine ⟨hlen ▸ hp'.length_le, ?_, rfl⟩
    rw [List.prefix_iff_eq_take.mp hp', hlen]
  err := by
    intro buf off e _ h hne
    simp only [bytes] at h
    split at h
    · simp only [Except.error.injEq] at h
      exact absurd h.symm hne
    · cases h

theorem varint_incremental : Incremental .short varint where
  ok := by
    intro buf off v c' hoff h
    obtain ⟨n, hd, rfl⟩ := varint_ok.mp h
    have hn := (Varint.decode_le hd).2.2.2
    simp only [List.length_drop] at hn
    refine ⟨rfl, Nat.le_add_right off n, by simp only; omega, fun buf' hp => varint_ok.mpr ⟨n, ?_, rfl⟩⟩
    exact Varint.decode_take hd (drop_take_of_isPrefix hp)
  err := by
    intro buf off e _ h hne
    simp only [varint] at h
    split at h
    · cases h
    · simp only [Except.error.injEq] at h
      exact absurd h.symm hne

theorem u8_incremental : Incremental .short u8 :=
  .bind (bytes_incremental 1) fun _ => .pure _ _

theorem u16_incremental : Incremental .short u16 :=
  .bind (bytes_incremental 2) fun _ => .pure _ _

theorem string_incremental (cap : ℕ) : Incremental .short (string cap) :=
  .bind varint_incremental fun _ => .ite (.throw _ _) (bytes_incremental _)

theorem finish_incremental : Incremental .short finish :=
  .bind varint_incremental fun _ => .bind (Incremental.orThrow _ _ _) fun _ =>
    .bind (bytes_incremental _) fun _ => .offset _

/-- The last step of every decoder reports where the frame ends. -/
theorem finish_reports {φ : Type} (f : φ) : Reports (finish >>= fun n => pure (f, n)) := by
  intro c r c' h
  simp only [finish, bind_ok, pure_apply, offset] at h
  obtain ⟨n, c₁, ⟨_, _, -, _, _, -, _, _, -, h₁⟩, h₂⟩ := h
  simp only [Except.ok.injEq, Prod.mk.injEq] at h₁ h₂
  obtain ⟨rfl, rfl⟩ := h₂
  obtain ⟨rfl, rfl⟩ := h₁
  rfl

end Cursor

/-! ### The decoders -/

open Cursor

theorem AuthReq.decode_coherent : Coherent .short AuthReq.decode := by
  refine Incremental.coherent (m := AuthReq.reader) ?_ ?_
  · exact .bind varint_incremental fun _ => .bind (string_incremental _) fun _ => .bind (string_incremental _) fun _ =>
      .bind varint_incremental fun _ => .bind finish_incremental fun _ => .pure _ _
  · exact .bind _ fun _ => .bind _ fun _ => .bind _ fun _ => .bind _ fun _ => finish_reports _

theorem AuthResp.decode_coherent : Coherent .short AuthResp.decode := by
  refine Incremental.coherent (m := AuthResp.reader) ?_ ?_
  · exact .bind u8_incremental fun _ => .bind varint_incremental fun _ => .bind (string_incremental _) fun _ =>
      .bind varint_incremental fun _ => .bind finish_incremental fun _ => .pure _ _
  · exact .bind _ fun _ => .bind _ fun _ => .bind _ fun _ => .bind _ fun _ => finish_reports _

theorem ConnectTcpReq.decode_coherent : Coherent .short ConnectTcpReq.decode := by
  refine Incremental.coherent (m := ConnectTcpReq.reader) ?_ ?_
  · exact .bind varint_incremental fun _ => .bind u8_incremental fun _ => .bind (Incremental.orThrow _ _ _) fun _ =>
      .bind (string_incremental _) fun _ => .bind u16_incremental fun _ => .bind finish_incremental fun _ => .pure _ _
  · exact .bind _ fun _ => .bind _ fun _ => .bind _ fun _ => .bind _ fun _ => .bind _ fun _ => finish_reports _

theorem ConnectTcpResp.decode_coherent : Coherent .short ConnectTcpResp.decode := by
  refine Incremental.coherent (m := ConnectTcpResp.reader) ?_ ?_
  · exact .bind u8_incremental fun _ => .bind varint_incremental fun _ => .bind (string_incremental _) fun _ =>
      .bind finish_incremental fun _ => .pure _ _
  · exact .bind _ fun _ => .bind _ fun _ => .bind _ fun _ => finish_reports _

theorem UdpSessionOpen.decode_coherent : Coherent .short UdpSessionOpen.decode := by
  refine Incremental.coherent (m := UdpSessionOpen.reader) ?_ ?_
  · exact .bind varint_incremental fun _ => .bind (Incremental.orThrow _ _ _) fun _ => .bind varint_incremental fun _ =>
      .bind u8_incremental fun _ => .bind (Incremental.orThrow _ _ _) fun _ => .bind (string_incremental _) fun _ =>
      .bind u16_incremental fun _ => .bind varint_incremental fun _ => .bind finish_incremental fun _ => .pure _ _
  · exact .bind _ fun _ => .bind _ fun _ => .bind _ fun _ => .bind _ fun _ => .bind _ fun _ => .bind _ fun _ =>
      .bind _ fun _ => .bind _ fun _ => finish_reports _

theorem UdpSessionResp.decode_coherent : Coherent .short UdpSessionResp.decode := by
  refine Incremental.coherent (m := UdpSessionResp.reader) ?_ ?_
  · exact .bind u8_incremental fun _ => .bind varint_incremental fun _ => .ite (.throw _ _) <|
      .bind (string_incremental _) fun _ => .bind varint_incremental fun _ => .bind finish_incremental fun _ => .pure _ _
  · exact .bind _ fun _ => .bind _ fun _ => .ite (.throw _) <| .bind _ fun _ => .bind _ fun _ => finish_reports _

/-- A decoder whose decision on a stream depends on its bytes alone: it is coherent,
and run after every read it ends with what it gives on the whole stream. -/
def StableOnStreams {φ : Type} (decode : List UInt8 → Except DecodeError (φ × ℕ)) : Prop :=
  Coherent .short decode ∧ ∀ reads : List (List UInt8), feed .short decode [] reads = decode reads.flatten

theorem stableOnStreams_of_coherent {φ : Type} {decode : List UInt8 → Except DecodeError (φ × ℕ)}
    (h : Coherent .short decode) : StableOnStreams decode :=
  ⟨h, fun reads => by rw [h.feed_eq reads [], List.nil_append]⟩

/-- **Incremental decoding is coherent**, for each of the six frames. -/
theorem frames_decode_stable :
    StableOnStreams AuthReq.decode ∧ StableOnStreams AuthResp.decode ∧ StableOnStreams ConnectTcpReq.decode ∧
      StableOnStreams ConnectTcpResp.decode ∧ StableOnStreams UdpSessionOpen.decode ∧
      StableOnStreams UdpSessionResp.decode :=
  ⟨stableOnStreams_of_coherent AuthReq.decode_coherent, stableOnStreams_of_coherent AuthResp.decode_coherent,
    stableOnStreams_of_coherent ConnectTcpReq.decode_coherent,
    stableOnStreams_of_coherent ConnectTcpResp.decode_coherent,
    stableOnStreams_of_coherent UdpSessionOpen.decode_coherent,
    stableOnStreams_of_coherent UdpSessionResp.decode_coherent⟩

end MqProxy.Wire
