import Mathlib.Data.List.Basic
import Mathlib.Data.Nat.Bitwise
import Mathlib.Tactic.IntervalCases

/-!
# Variable-length integers

The QUIC variable-length integer of `mq-wire/src/varint.rs`: the two top bits of
the first byte give the length, one, two, four or eight bytes, and the rest is the
value, big-endian. A value has one shortest form, which is what `encode` writes;
`decode` takes any of the four forms the value fits in.

`value` says what the bytes of a form mean as a number, and the two halves of the
codec are stated with it: `encode` puts down `bytes v` (`encode_eq`), whose value is
`v`, and `decode` gives the value of the form it finds (`decode_eq`).
-/

namespace MqProxy.Wire.Varint

/-- The largest encodable value, `2^62 - 1`. -/
def MAX : UInt64 := 0x3FFFFFFFFFFFFFFF

/-- Why a varint could not be written or read. -/
inductive Error where
  /-- The value is over `MAX`. -/
  | tooLarge
  /-- The buffer is too short. -/
  | short
  deriving DecidableEq, Repr

/-- How many bytes the shortest form takes. -/
def len (v : UInt64) : ℕ :=
  if v ≤ 0x3F then 1 else if v ≤ 0x3FFF then 2 else if v ≤ 0x3FFFFFFF then 4 else 8

/-- `u64::to_be_bytes`. -/
def toBeBytes (v : UInt64) : List UInt8 :=
  [(v >>> 56).toUInt8, (v >>> 48).toUInt8, (v >>> 40).toUInt8, (v >>> 32).toUInt8,
    (v >>> 24).toUInt8, (v >>> 16).toUInt8, (v >>> 8).toUInt8, v.toUInt8]

/-- The two top bits of the first byte of an `n`-byte form. -/
def tag (n : ℕ) : UInt8 :=
  match n with
  | 1 => 0x00
  | 2 => 0x40
  | 4 => 0x80
  | _ => 0xC0

/-- `varint::encode`: the length written, and the buffer after it. -/
def encode (buf : List UInt8) (v : UInt64) : Except Error (ℕ × List UInt8) :=
  if v > MAX then .error .tooLarge
  else
    let n := len v
    if buf.length < n then .error .short
    else
      let buf := (toBeBytes v).drop (8 - n) ++ buf.drop n
      .ok (n, buf.modifyHead fun b => (b &&& 0x3F) ||| tag n)

/-- `varint::decode`: the value and the length of its form. -/
def decode : List UInt8 → Except Error (UInt64 × ℕ)
  | [] => .error .short
  | first :: rest =>
    let n := 1 <<< (first >>> 6).toNat
    if (first :: rest).length < n then .error .short
    else
      let v := (rest.take (n - 1)).foldl (fun (v : UInt64) (b : UInt8) => (v <<< 8) ||| b.toUInt64) (first &&& 0x3F).toUInt64
      .ok (v, n)

/-! ### The value of a form -/

/-- The number a form stands for: the low six bits of the first byte, then the other bytes. -/
def value (first : UInt8) (rest : List UInt8) : ℕ :=
  rest.foldl (fun v b => v * 256 + b.toNat) (first.toNat % 64)

theorem foldl_value_lt (bs : List UInt8) (v k : ℕ) (hv : v < 2 ^ k) :
    bs.foldl (fun v b => v * 256 + b.toNat) v < 2 ^ (k + 8 * bs.length) := by
  induction bs generalizing v k with
  | nil => simpa using hv
  | cons b bs ih =>
    have hb := b.toNat_lt
    have hstep : v * 256 + b.toNat < 2 ^ (k + 8) := by rw [Nat.pow_add]; omega
    have := ih _ _ hstep
    rwa [List.foldl_cons, List.length_cons, show k + 8 * (bs.length + 1) = k + 8 + 8 * bs.length by omega]

theorem value_lt (first : UInt8) (rest : List UInt8) : value first rest < 2 ^ (6 + 8 * rest.length) :=
  foldl_value_lt rest _ 6 (by omega)

/-- One step of the decoding loop, as arithmetic, while the value stays inside 64 bits. -/
theorem toNat_shift_or (v : UInt64) (b : UInt8) (h : v.toNat < 2 ^ 56) :
    ((v <<< 8) ||| b.toUInt64).toNat = v.toNat * 256 + b.toNat := by
  have hb := b.toNat_lt
  have hshift : v.toNat <<< 8 < 2 ^ 64 := by rw [Nat.shiftLeft_eq]; omega
  rw [UInt64.toNat_or, UInt64.toNat_shiftLeft, UInt8.toNat_toUInt64]
  simp only [UInt64.reduceToNat, Nat.reduceMod]
  rw [Nat.mod_eq_of_lt hshift, ← Nat.shiftLeft_add_eq_or_of_lt (by omega), Nat.shiftLeft_eq]

/-- The decoding loop computes the value: at most seven bytes follow, so nothing overflows. -/
theorem toNat_foldl (bs : List UInt8) (v : UInt64) (k : ℕ) (hv : v.toNat < 2 ^ k)
    (hk : k + 8 * bs.length ≤ 62) :
    (bs.foldl (fun (v : UInt64) (b : UInt8) => (v <<< 8) ||| b.toUInt64) v).toNat =
      bs.foldl (fun v b => v * 256 + b.toNat) v.toNat := by
  induction bs generalizing v k with
  | nil => rfl
  | cons b bs ih =>
    simp only [List.length_cons] at hk
    have h56 : v.toNat < 2 ^ 56 := lt_of_lt_of_le hv (Nat.pow_le_pow_right (by omega) (by omega))
    have hstep := toNat_shift_or v b h56
    have hb := b.toNat_lt
    have hlt : ((v <<< 8) ||| b.toUInt64).toNat < 2 ^ (k + 8) := by
      rw [hstep, Nat.pow_add]
      omega
    rw [List.foldl_cons, List.foldl_cons, ih _ (k + 8) hlt (by omega), hstep]

theorem toNat_and_3F (b : UInt8) : (b &&& 0x3F).toNat = b.toNat % 64 := by
  rw [UInt8.toNat_and]
  exact Nat.and_two_pow_sub_one_eq_mod b.toNat 6

theorem toNat_shr_6 (b : UInt8) : (b >>> 6).toNat = b.toNat / 64 := by
  rw [UInt8.toNat_shiftRight]
  simp [Nat.shiftRight_eq_div_pow]

/-- How long the form is that starts with `first`. -/
def formLen (first : UInt8) : ℕ := 2 ^ (first.toNat / 64)

theorem one_shl_shr_6 (first : UInt8) : 1 <<< (first >>> 6).toNat = formLen first := by
  rw [toNat_shr_6, Nat.one_shiftLeft, formLen]

theorem formLen_cases (first : UInt8) :
    formLen first = 1 ∨ formLen first = 2 ∨ formLen first = 4 ∨ formLen first = 8 := by
  have h := first.toNat_lt
  have : first.toNat / 64 < 4 := by omega
  unfold formLen
  interval_cases first.toNat / 64 <;> simp

/-- **What `decode` does**: it needs the bytes of the form, and gives its value. -/
theorem decode_cons (first : UInt8) (rest : List UInt8) :
    decode (first :: rest) =
      if rest.length + 1 < formLen first then .error .short
      else .ok (UInt64.ofNat (value first (rest.take (formLen first - 1))), formLen first) := by
  simp only [decode, one_shl_shr_6, List.length_cons]
  split
  · rfl
  · have h8 : formLen first ≤ 8 := by rcases formLen_cases first with h | h | h | h <;> omega
    have hlen : (rest.take (formLen first - 1)).length ≤ 7 := by rw [List.length_take]; omega
    have hfirst : (first &&& 0x3F).toUInt64.toNat = first.toNat % 64 := by
      rw [UInt8.toNat_toUInt64, toNat_and_3F]
    congr 2
    apply UInt64.toNat_inj.mp
    rw [toNat_foldl _ _ 6 (by omega) (by omega), hfirst, UInt64.toNat_ofNat']
    refine (Nat.mod_eq_of_lt ?_).symm
    exact lt_of_lt_of_le (value_lt _ _) (Nat.pow_le_pow_right (by omega) (by omega))

/-- A decoded value is encodable, in no more bytes than its form has. -/
theorem decode_le {buf : List UInt8} {v : UInt64} {n : ℕ} (h : decode buf = .ok (v, n)) :
    v ≤ MAX ∧ len v ≤ n ∧ 1 ≤ n ∧ n ≤ buf.length := by
  cases buf with
  | nil => cases h
  | cons first rest =>
    rw [decode_cons] at h
    split at h
    · cases h
    · next hlt =>
      simp only [Except.ok.injEq, Prod.mk.injEq] at h
      obtain ⟨hv, hn⟩ := h
      have hval := value_lt first (rest.take (formLen first - 1))
      have hlen : (rest.take (formLen first - 1)).length = formLen first - 1 := by
        rw [List.length_take]; omega
      rw [hlen] at hval
      have hvn : v.toNat < 2 ^ (8 * n - 2) := by
        rw [← hv, UInt64.toNat_ofNat']
        refine lt_of_le_of_lt (Nat.mod_le _ _) ?_
        rcases formLen_cases first with h | h | h | h <;> rw [h] at hval <;> rw [← hn, h] <;> simpa using hval
      simp only [List.length_cons]
      simp only [len, MAX, UInt64.le_iff_toNat_le, UInt64.reduceToNat]
      rcases formLen_cases first with h | h | h | h <;> rw [h] at hn hlt <;> subst hn <;>
        norm_num at hvn <;> refine ⟨by omega, ?_, by omega, by omega⟩ <;> split_ifs <;> omega

/-! ### The shortest form -/

/-- The bytes `encode` writes. -/
def bytes (v : UInt64) : List UInt8 :=
  ((toBeBytes v).drop (8 - len v)).modifyHead fun b => (b &&& 0x3F) ||| tag (len v)

theorem len_cases (v : UInt64) : len v = 1 ∨ len v = 2 ∨ len v = 4 ∨ len v = 8 := by
  unfold len
  split_ifs <;> simp

theorem length_bytes (v : UInt64) : (bytes v).length = len v := by
  simp only [bytes, List.length_modifyHead, List.length_drop, toBeBytes, List.length_cons, List.length_nil]
  rcases len_cases v with h | h | h | h <;> omega

theorem len_pos (v : UInt64) : 1 ≤ len v := by
  rcases len_cases v with h | h | h | h <;> omega

theorem len_le_eight (v : UInt64) : len v ≤ 8 := by
  rcases len_cases v with h | h | h | h <;> omega

/-- **What `encode` does**: it writes the shortest form over the start of the buffer. -/
theorem encode_eq (buf : List UInt8) (v : UInt64) :
    encode buf v = if v > MAX then .error .tooLarge
      else if buf.length < len v then .error .short
      else .ok (len v, bytes v ++ buf.drop (len v)) := by
  simp only [encode]
  split
  · rfl
  split
  · rfl
  · congr 2
    have hne : (toBeBytes v).drop (8 - len v) ≠ [] := by
      intro h
      have := congrArg List.length h
      have hpos := len_pos v
      simp only [List.length_drop, toBeBytes, List.length_cons, List.length_nil] at this
      omega
    obtain ⟨b, bs, hb⟩ := List.exists_cons_of_ne_nil hne
    simp [bytes, hb]

theorem tag_formLen (b : UInt8) (n : ℕ) (hn : n = 1 ∨ n = 2 ∨ n = 4 ∨ n = 8) :
    formLen ((b &&& 0x3F) ||| tag n) = n ∧ ((b &&& 0x3F) ||| tag n).toNat % 64 = b.toNat % 64 := by
  have hb : (b &&& 0x3F).toNat < 2 ^ 6 := by rw [toNat_and_3F]; omega
  have key : ∀ k < 4, ((b &&& 0x3F) ||| UInt8.ofNat (64 * k)).toNat = 64 * k + b.toNat % 64 := by
    intro k hk
    rw [UInt8.toNat_or, UInt8.toNat_ofNat', Nat.mod_eq_of_lt (by omega), Nat.or_comm,
      show 64 * k = 2 ^ 6 * k by omega, ← Nat.two_pow_add_eq_or_of_lt hb, toNat_and_3F]
  have h0 := key 0 (by omega)
  have h1 := key 1 (by omega)
  have h2 := key 2 (by omega)
  have h3 := key 3 (by omega)
  have hmod : b.toNat % 64 < 64 := Nat.mod_lt _ (by omega)
  unfold formLen
  rcases hn with rfl | rfl | rfl | rfl
  · change 2 ^ (((b &&& 0x3F) ||| UInt8.ofNat (64 * 0)).toNat / 64) = 1 ∧ ((b &&& 0x3F) ||| UInt8.ofNat (64 * 0)).toNat % 64 = _
    rw [h0, show (64 * 0 + b.toNat % 64) / 64 = 0 by omega]
    exact ⟨rfl, by omega⟩
  · change 2 ^ (((b &&& 0x3F) ||| UInt8.ofNat (64 * 1)).toNat / 64) = 2 ∧ ((b &&& 0x3F) ||| UInt8.ofNat (64 * 1)).toNat % 64 = _
    rw [h1, show (64 * 1 + b.toNat % 64) / 64 = 1 by omega]
    exact ⟨rfl, by omega⟩
  · change 2 ^ (((b &&& 0x3F) ||| UInt8.ofNat (64 * 2)).toNat / 64) = 4 ∧ ((b &&& 0x3F) ||| UInt8.ofNat (64 * 2)).toNat % 64 = _
    rw [h2, show (64 * 2 + b.toNat % 64) / 64 = 2 by omega]
    exact ⟨rfl, by omega⟩
  · change 2 ^ (((b &&& 0x3F) ||| UInt8.ofNat (64 * 3)).toNat / 64) = 8 ∧ ((b &&& 0x3F) ||| UInt8.ofNat (64 * 3)).toNat % 64 = _
    rw [h3, show (64 * 3 + b.toNat % 64) / 64 = 3 by omega]
    exact ⟨rfl, by omega⟩

theorem toNat_shr_toUInt8 (v : UInt64) (k : ℕ) (hk : k < 64) :
    (v >>> UInt64.ofNat k).toUInt8.toNat = v.toNat / 2 ^ k % 256 := by
  rw [UInt64.toNat_toUInt8, UInt64.toNat_shiftRight, UInt64.toNat_ofNat', Nat.mod_eq_of_lt (a := k) (by omega),
    Nat.mod_eq_of_lt hk, Nat.shiftRight_eq_div_pow]

/-- The bytes of a word, as numbers. -/
theorem map_toNat_toBeBytes (v : UInt64) :
    (toBeBytes v).map UInt8.toNat = [v.toNat / 2 ^ 56 % 256, v.toNat / 2 ^ 48 % 256, v.toNat / 2 ^ 40 % 256,
      v.toNat / 2 ^ 32 % 256, v.toNat / 2 ^ 24 % 256, v.toNat / 2 ^ 16 % 256, v.toNat / 2 ^ 8 % 256,
      v.toNat % 256] := by
  have h := toNat_shr_toUInt8 v
  simp only [toBeBytes, List.map_cons, List.map_nil, UInt64.toNat_toUInt8]
  rw [← h 56 (by omega), ← h 48 (by omega), ← h 40 (by omega), ← h 32 (by omega), ← h 24 (by omega),
    ← h 16 (by omega), ← h 8 (by omega)]
  rfl

/-- The shortest form starts with its length and stands for the value. -/
theorem exists_bytes_eq (v : UInt64) (hv : v ≤ MAX) :
    ∃ first rest, bytes v = first :: rest ∧ formLen first = len v ∧ value first rest = v.toNat := by
  have hmap := map_toNat_toBeBytes v
  generalize hbs : toBeBytes v = bs at hmap
  obtain ⟨b₀, b₁, b₂, b₃, b₄, b₅, b₆, b₇, rfl⟩ : ∃ b₀ b₁ b₂ b₃ b₄ b₅ b₆ b₇, bs = [b₀, b₁, b₂, b₃, b₄, b₅, b₆, b₇] :=
    ⟨_, _, _, _, _, _, _, _, hbs.symm⟩
  simp only [List.map_cons, List.map_nil, List.cons.injEq, and_true] at hmap
  obtain ⟨e₀, e₁, e₂, e₃, e₄, e₅, e₆, e₇⟩ := hmap
  simp only [MAX, UInt64.le_iff_toNat_le, UInt64.reduceToNat] at hv
  have hlen := len_cases v
  simp only [bytes, hbs]
  have hbound : v.toNat < 2 ^ (8 * len v - 2) := by
    simp only [len, UInt64.le_iff_toNat_le, UInt64.reduceToNat]
    split_ifs <;> omega
  have htag := fun b => tag_formLen b (len v) hlen
  rcases hlen with h | h | h | h <;> rw [h] at hbound htag ⊢ <;>
    simp only [Nat.reduceSub, Nat.reduceMul, List.drop_succ_cons, List.drop_zero, List.modifyHead_cons] at hbound ⊢ <;>
    refine ⟨_, _, rfl, (htag _).1, ?_⟩ <;>
    simp only [value, (htag _).2, List.foldl_cons, List.foldl_nil] <;> omega

/-- **`decode` gives back what `encode` wrote**, and takes nothing more. -/
theorem decode_bytes_append (v : UInt64) (hv : v ≤ MAX) (tail : List UInt8) :
    decode (bytes v ++ tail) = .ok (v, len v) := by
  obtain ⟨first, rest, hb, hform, hval⟩ := exists_bytes_eq v hv
  have hlen : rest.length + 1 = len v := by rw [← length_bytes, hb, List.length_cons]
  rw [hb, List.cons_append, decode_cons, if_neg (by rw [List.length_append, hform]; omega), hform,
    List.take_append_of_le_length (by omega), List.take_of_length_le (by omega), hval, UInt64.ofNat_toNat]

/-- `decode` looks at the bytes of the form only. -/
theorem decode_take {buf : List UInt8} {v : UInt64} {n : ℕ} (h : decode buf = .ok (v, n)) {buf' : List UInt8}
    (hp : buf.take n <+: buf') : decode buf' = .ok (v, n) := by
  have hn := (decode_le h).2.2
  cases buf with
  | nil => cases h
  | cons first rest =>
    obtain ⟨tail, rfl⟩ := hp
    rw [decode_cons] at h
    split at h
    · cases h
    · next hlt =>
      simp only [Except.ok.injEq, Prod.mk.injEq] at h
      obtain ⟨hv, rfl⟩ := h
      obtain ⟨m, hm⟩ : ∃ m, formLen first = m + 1 := ⟨formLen first - 1, by omega⟩
      rw [hm, List.take_succ_cons, List.cons_append, decode_cons, hm, Nat.add_sub_cancel]
      have hmlen : (rest.take m).length = m := by rw [List.length_take]; omega
      rw [if_neg (by rw [List.length_append]; omega), List.take_append_of_le_length (by omega),
        List.take_of_length_le (by omega)]
      rw [hm, Nat.add_sub_cancel] at hv
      rw [hv]

/-- Decoding fails on fewer than eight bytes only. -/
theorem length_lt_of_decode_error {buf : List UInt8} {e : Error} (h : decode buf = .error e) : buf.length < 8 := by
  cases buf with
  | nil => simp
  | cons first rest =>
    rw [decode_cons] at h
    split at h
    · rw [List.length_cons]
      rcases formLen_cases first with h | h | h | h <;> omega
    · cases h

end MqProxy.Wire.Varint
