import MqProxy.Wire.FrameReaders

/-!
# Frames written and read back

Each frame is a `Format`: its writer puts down `bytes`, the concatenation of its
fields in their shortest form, exactly when the frame is `Encodable`; its reader
gives the frame back from those bytes; and a frame that was read from any bytes at
all — long varints and padding included — is `Encodable` and was no shorter than
its own `bytes`. `frames_round_trip` states what follows for the six codecs.
-/

namespace MqProxy.Wire

open MqProxy.Library

/-! ### The primitives -/

/-- A string on the wire: its length and its bytes. -/
def stringBytes (s : List UInt8) : List UInt8 := Varint.bytes (UInt64.ofNat s.length) ++ s

variable {s : List UInt8} {cap : ℕ}

theorem toNat_ofNat_length (h : s.length ≤ cap) (hcap : cap ≤ 255) : (UInt64.ofNat s.length).toNat = s.length := by
  rw [UInt64.toNat_ofNat']
  omega

theorem ofNat_length_le_max (h : s.length ≤ cap) (hcap : cap ≤ 255) : UInt64.ofNat s.length ≤ Varint.MAX := by
  rw [UInt64.le_iff_toNat_le, toNat_ofNat_length h hcap]
  simp only [Varint.MAX, UInt64.reduceToNat]
  omega

theorem length_stringBytes_le (h : s.length ≤ cap) : (stringBytes s).length ≤ 8 + cap := by
  have := Varint.len_le_eight (UInt64.ofNat s.length)
  rw [stringBytes, List.length_append, Varint.length_bytes]
  omega

theorem u16FromBeBytes_u16ToBeBytes (v : UInt16) :
    u16FromBeBytes ((u16ToBeBytes v).getD 0 0) ((u16ToBeBytes v).getD 1 0) = v := by
  have hv := v.toNat_lt
  have hhi : ((v >>> 8).toUInt8).toNat = v.toNat / 256 := by
    rw [UInt16.toNat_toUInt8, UInt16.toNat_shiftRight]
    simp only [UInt16.reduceToNat, Nat.reduceMod, Nat.shiftRight_eq_div_pow, Nat.reducePow]
    omega
  have hshift : (v.toNat / 256) <<< 8 < 2 ^ 16 := by rw [Nat.shiftLeft_eq]; omega
  apply UInt16.toNat_inj.mp
  simp only [u16FromBeBytes, u16ToBeBytes, List.getD_cons_zero, List.getD_cons_succ, UInt16.toNat_or,
    UInt16.toNat_shiftLeft, UInt8.toNat_toUInt16, hhi, UInt16.toNat_toUInt8, UInt16.reduceToNat, Nat.reduceMod]
  rw [Nat.mod_eq_of_lt hshift, ← Nat.shiftLeft_add_eq_or_of_lt (by omega), Nat.shiftLeft_eq]
  omega

namespace Cursor

theorem bytes_reads (b : List UInt8) : Reads (bytes b.length) b (fun _ => b) := by
  intro pre tail
  refine bytes_ok.mpr ⟨?_, ?_, rfl⟩ <;> simp only [List.append_assoc, List.drop_left]
  · simp
  · simp

theorem varint_reads {v : UInt64} (hv : v ≤ Varint.MAX) : Reads varint (Varint.bytes v) (fun _ => v) := by
  intro pre tail
  refine varint_ok.mpr ⟨Varint.len v, ?_, by rw [Varint.length_bytes]⟩
  simp only [List.append_assoc, List.drop_left]
  exact Varint.decode_bytes_append v hv tail

theorem u8_reads (b : UInt8) : Reads u8 [b] (fun _ => b) :=
  (bytes_reads [b]).map fun b => b.getD 0 0

theorem u16_reads (v : UInt16) : Reads u16 (u16ToBeBytes v) (fun _ => v) := by
  have := (bytes_reads (u16ToBeBytes v)).map fun b => u16FromBeBytes (b.getD 0 0) (b.getD 1 0)
  simp only [u16FromBeBytes_u16ToBeBytes] at this
  exact this

theorem string_reads {s : List UInt8} {cap : ℕ} (h : s.length ≤ cap) (hcap : cap ≤ 255) :
    Reads (string cap) (stringBytes s) (fun _ => s) := by
  have hnat := toNat_ofNat_length h hcap
  refine (varint_reads (ofNat_length_le_max h hcap)).bind ?_
  rw [if_neg (by rw [hnat]; omega), hnat]
  exact bytes_reads s

theorem finish_reads : Reads finish (Varint.bytes 0) id := by
  have h0 : Reads (bytes 0) [] (fun _ => []) := bytes_reads []
  have : Reads finish (Varint.bytes 0 ++ ([] ++ ([] ++ []))) id :=
    (varint_reads (v := 0) (by decide)).bind <| (Reads.orThrow rfl).bind <| h0.bind Reads.offset
  rwa [List.append_nil, List.append_nil, List.append_nil] at this

variable {c c' : Library.Cursor UInt8}

/-- What reading a varint gives: an encodable value, read from at least its shortest form. -/
theorem varint_sound {v : UInt64} (h : varint c = .ok (v, c')) :
    v ≤ Varint.MAX ∧ c.off + (Varint.bytes v).length ≤ c'.off := by
  obtain ⟨n, hd, rfl⟩ := varint_ok.mp h
  have := Varint.decode_le hd
  rw [Varint.length_bytes]
  exact ⟨this.1, by simp only; omega⟩

theorem u8_sound {b : UInt8} (h : u8 c = .ok (b, c')) : c'.off = c.off + 1 := by
  obtain ⟨_, _, h₁, h₂⟩ := bind_ok.mp h
  obtain ⟨-, -, rfl⟩ := bytes_ok.mp h₁
  cases h₂
  rfl

theorem u16_sound {v : UInt16} (h : u16 c = .ok (v, c')) : c'.off = c.off + 2 := by
  obtain ⟨_, _, h₁, h₂⟩ := bind_ok.mp h
  obtain ⟨-, -, rfl⟩ := bytes_ok.mp h₁
  cases h₂
  rfl

/-- What reading a string gives: a string within the cap, read from at least its `stringBytes`. -/
theorem string_sound {cap : ℕ} {s : List UInt8}
    (h : string cap c = .ok (s, c')) : s.length ≤ cap ∧ c.off + (stringBytes s).length ≤ c'.off := by
  obtain ⟨len, c₁, h₁, h₂⟩ := bind_ok.mp h
  have hv := (varint_sound h₁).2
  split at h₂
  · cases h₂
  · next hcap =>
    obtain ⟨hn, rfl, rfl⟩ := bytes_ok.mp h₂
    have hlen : ((c₁.buf.drop c₁.off).take len.toNat).length = len.toNat := by
      rw [List.length_take]
      omega
    refine ⟨by omega, ?_⟩
    rw [stringBytes, hlen, UInt64.ofNat_toNat, List.length_append, hlen]
    simp only
    omega

theorem orThrow_ok {α : Type} {e : DecodeError} {o : Option α} {a : α}
    (h : orThrow e o c = .ok (a, c')) : o = some a ∧ c' = c := by
  cases o with
  | none => cases h
  | some b =>
    cases h
    exact ⟨rfl, rfl⟩

theorem finish_sound {n : ℕ} (h : finish c = .ok (n, c')) : c.off + 1 ≤ n := by
  obtain ⟨pad, c₁, h₁, h₂⟩ := bind_ok.mp h
  obtain ⟨p, c₂, h₂, h⟩ := bind_ok.mp h₂
  obtain ⟨_, c₃, h₃, h₄⟩ := bind_ok.mp h
  have hv := (varint_sound h₁).2
  have hpos := Varint.len_pos pad
  rw [Varint.length_bytes] at hv
  obtain ⟨-, rfl⟩ := orThrow_ok h₂
  obtain ⟨-, -, rfl⟩ := bytes_ok.mp h₃
  cases h₄
  simp only
  omega

end Cursor

namespace CursorMut

theorem bytes_emits (b : List UInt8) : Emits (bytes b) b (fun _ => ()) := by
  intro buf off h
  simp only [bytes, List.length_drop]
  rw [if_neg (by omega)]

theorem varint_writes (v : UInt64) : Writes (varint v) (Varint.bytes v) (v ≤ Varint.MAX) (fun _ => ()) where
  emits := by
    intro hv buf off h
    rw [Varint.length_bytes] at h
    simp only [varint, Varint.encode_eq, List.length_drop, gt_iff_lt]
    rw [if_neg (by simpa using hv), if_neg (by omega)]
    simp only [splice, Varint.length_bytes, List.drop_drop, List.append_assoc]
  rejects := by
    intro hv c
    simp only [varint, Varint.encode_eq, gt_iff_lt]
    rw [if_pos (by simpa using hv)]
    exact ⟨_, rfl⟩

theorem string_writes (s : List UInt8) {cap : ℕ} (hcap : cap ≤ 255) :
    Writes (string s cap) (stringBytes s) (s.length ≤ cap) (fun _ => ()) where
  emits := by
    intro h
    rw [string, if_neg (by omega)]
    exact ((varint_writes _).emits (ofNat_length_le_max h hcap)).bind (bytes_emits s)
  rejects := by
    intro h
    rw [string, if_pos (by omega)]
    exact Rejects.throw _

theorem finish_emits : Emits finish (Varint.bytes 0) id := by
  have := ((varint_writes 0).emits (by decide)).bind (f := fun _ => offset) Emits.offset
  simp only [List.append_nil] at this
  exact this

end CursorMut

theorem len_zero : Varint.len 0 = 1 := rfl

/-! ### The six formats -/

open Cursor CursorMut

namespace AuthReq

/-- The frame can be written. -/
def Encodable (f : AuthReq) : Prop :=
  f.version ≤ Varint.MAX ∧ f.clientId.length ≤ MAX_CLIENT_ID ∧ f.authToken.length ≤ MAX_AUTH_TOKEN ∧
    f.features ≤ Varint.MAX

def bytes (f : AuthReq) : List UInt8 :=
  Varint.bytes f.version ++ (stringBytes f.clientId ++ (stringBytes f.authToken ++
    (Varint.bytes f.features ++ Varint.bytes 0)))

theorem format : Format writer reader bytes Encodable MAX_FRAME where
  writes := by
    intro f
    refine ((varint_writes _).bind <| (string_writes _ (by decide)).bind <| (string_writes _ (by decide)).bind <|
      (varint_writes _).bind (.of_emits finish_emits)).of_iff ?_
    simp only [and_true, Encodable]
  reads := by
    rintro f ⟨h₁, h₂, h₃, h₄⟩
    exact (varint_reads h₁).bind <| (string_reads h₂ (by decide)).bind <| (string_reads h₃ (by decide)).bind <|
      (varint_reads h₄).bind <| finish_reads.map fun n => (f, n)
  bounded := by
    rintro f ⟨-, h₂, h₃, -⟩
    have hv := Varint.len_le_eight f.version
    have hf := Varint.len_le_eight f.features
    have hc := length_stringBytes_le h₂
    have ht := length_stringBytes_le h₃
    simp only [bytes, List.length_append, Varint.length_bytes, len_zero, MAX_FRAME, MAX_CLIENT_ID,
      MAX_AUTH_TOKEN] at *
    omega
  sound := by
    intro p f n c h
    obtain ⟨version, c₁, h₁, h⟩ := bind_ok.mp h
    obtain ⟨clientId, c₂, h₂, h⟩ := bind_ok.mp h
    obtain ⟨authToken, c₃, h₃, h⟩ := bind_ok.mp h
    obtain ⟨features, c₄, h₄, h⟩ := bind_ok.mp h
    obtain ⟨n', c₅, h₅, h⟩ := bind_ok.mp h
    cases h
    have v₁ := varint_sound h₁
    have v₂ := string_sound h₂
    have v₃ := string_sound h₃
    have v₄ := varint_sound h₄
    have v₅ := finish_sound h₅
    refine ⟨⟨v₁.1, v₂.1, v₃.1, v₄.1⟩, ?_⟩
    simp only [bytes, List.length_append, Varint.length_bytes, len_zero] at *
    omega

end AuthReq

namespace AuthResp

/-- The frame can be written. -/
def Encodable (f : AuthResp) : Prop :=
  f.errorCode ≤ Varint.MAX ∧ f.serverId.length ≤ MAX_SERVER_ID ∧ f.features ≤ Varint.MAX

def bytes (f : AuthResp) : List UInt8 :=
  [f.status] ++ (Varint.bytes f.errorCode ++ (stringBytes f.serverId ++ (Varint.bytes f.features ++ Varint.bytes 0)))

theorem format : Format writer reader bytes Encodable MAX_FRAME where
  writes := by
    intro f
    refine ((Writes.of_emits (bytes_emits _)).bind <| (varint_writes _).bind <| (string_writes _ (by decide)).bind <|
      (varint_writes _).bind (.of_emits finish_emits)).of_iff ?_
    simp only [true_and, and_true, Encodable]
  reads := by
    rintro f ⟨h₁, h₂, h₃⟩
    exact (u8_reads _).bind <| (varint_reads h₁).bind <| (string_reads h₂ (by decide)).bind <|
      (varint_reads h₃).bind <| finish_reads.map fun n => (f, n)
  bounded := by
    rintro f ⟨-, h₂, -⟩
    have he := Varint.len_le_eight f.errorCode
    have hf := Varint.len_le_eight f.features
    have hs := length_stringBytes_le h₂
    simp only [bytes, List.length_append, List.length_singleton, Varint.length_bytes, len_zero, MAX_FRAME,
      MAX_SERVER_ID] at *
    omega
  sound := by
    intro p f n c h
    obtain ⟨status, c₁, h₁, h⟩ := bind_ok.mp h
    obtain ⟨errorCode, c₂, h₂, h⟩ := bind_ok.mp h
    obtain ⟨serverId, c₃, h₃, h⟩ := bind_ok.mp h
    obtain ⟨features, c₄, h₄, h⟩ := bind_ok.mp h
    obtain ⟨n', c₅, h₅, h⟩ := bind_ok.mp h
    cases h
    have v₁ := u8_sound h₁
    have v₂ := varint_sound h₂
    have v₃ := string_sound h₃
    have v₄ := varint_sound h₄
    have v₅ := finish_sound h₅
    refine ⟨⟨v₂.1, v₃.1, v₄.1⟩, ?_⟩
    simp only [bytes, List.length_append, List.length_singleton, Varint.length_bytes, len_zero] at *
    omega

end AuthResp

namespace ConnectTcpReq

/-- The frame can be written. -/
def Encodable (f : ConnectTcpReq) : Prop := f.flags ≤ Varint.MAX ∧ f.host.length ≤ MAX_HOST

def bytes (f : ConnectTcpReq) : List UInt8 :=
  Varint.bytes f.flags ++ ([f.addressType.toRaw] ++ (stringBytes f.host ++ (u16ToBeBytes f.port ++ Varint.bytes 0)))

theorem format : Format writer reader bytes Encodable MAX_FRAME where
  writes := by
    intro f
    refine ((varint_writes _).bind <| (Writes.of_emits (bytes_emits _)).bind <| (string_writes _ (by decide)).bind <|
      (Writes.of_emits (bytes_emits _)).bind (.of_emits finish_emits)).of_iff ?_
    simp only [true_and, and_true, Encodable]
  reads := by
    rintro f ⟨h₁, h₂⟩
    -- the address type takes one byte and nothing more
    exact (varint_reads h₁).bind <| (u8_reads _).bind <| (Reads.orThrow (AddrType.fromRaw_toRaw _)).bind <|
      (string_reads h₂ (by decide)).bind <| (u16_reads _).bind <| finish_reads.map fun n => (f, n)
  bounded := by
    rintro f ⟨-, h₂⟩
    have hf := Varint.len_le_eight f.flags
    have hh := length_stringBytes_le h₂
    simp only [bytes, u16ToBeBytes, List.length_append, List.length_cons, List.length_nil, Varint.length_bytes,
      len_zero, MAX_FRAME, MAX_HOST] at *
    omega
  sound := by
    intro p f n c h
    obtain ⟨flags, c₁, h₁, h⟩ := bind_ok.mp h
    obtain ⟨raw, c₂, h₂, h⟩ := bind_ok.mp h
    obtain ⟨addressType, c₃, h₃, h⟩ := bind_ok.mp h
    obtain ⟨host, c₄, h₄, h⟩ := bind_ok.mp h
    obtain ⟨port, c₅, h₅, h⟩ := bind_ok.mp h
    obtain ⟨n', c₆, h₆, h⟩ := bind_ok.mp h
    cases h
    have v₁ := varint_sound h₁
    have v₂ := u8_sound h₂
    have v₃ := (orThrow_ok h₃).2
    have v₄ := string_sound h₄
    have v₅ := u16_sound h₅
    have v₆ := finish_sound h₆
    subst v₃
    refine ⟨⟨v₁.1, v₄.1⟩, ?_⟩
    simp only [bytes, u16ToBeBytes, List.length_append, List.length_cons, List.length_nil, Varint.length_bytes,
      len_zero] at *
    omega

end ConnectTcpReq

namespace ConnectTcpResp

/-- The frame can be written. -/
def Encodable (f : ConnectTcpResp) : Prop := f.errorCode ≤ Varint.MAX ∧ f.message.length ≤ MAX_MESSAGE

def bytes (f : ConnectTcpResp) : List UInt8 :=
  [f.status] ++ (Varint.bytes f.errorCode ++ (stringBytes f.message ++ Varint.bytes 0))

theorem format : Format writer reader bytes Encodable MAX_FRAME where
  writes := by
    intro f
    refine ((Writes.of_emits (bytes_emits _)).bind <| (varint_writes _).bind <| (string_writes _ (by decide)).bind <|
      (.of_emits finish_emits)).of_iff ?_
    simp only [true_and, and_true, Encodable]
  reads := by
    rintro f ⟨h₁, h₂⟩
    exact (u8_reads _).bind <| (varint_reads h₁).bind <| (string_reads h₂ (by decide)).bind <|
      finish_reads.map fun n => (f, n)
  bounded := by
    rintro f ⟨-, h₂⟩
    have he := Varint.len_le_eight f.errorCode
    have hm := length_stringBytes_le h₂
    simp only [bytes, List.length_append, List.length_singleton, Varint.length_bytes, len_zero, MAX_FRAME,
      MAX_MESSAGE] at *
    omega
  sound := by
    intro p f n c h
    obtain ⟨status, c₁, h₁, h⟩ := bind_ok.mp h
    obtain ⟨errorCode, c₂, h₂, h⟩ := bind_ok.mp h
    obtain ⟨message, c₃, h₃, h⟩ := bind_ok.mp h
    obtain ⟨n', c₄, h₄, h⟩ := bind_ok.mp h
    cases h
    have v₁ := u8_sound h₁
    have v₂ := varint_sound h₂
    have v₃ := string_sound h₃
    have v₄ := finish_sound h₄
    refine ⟨⟨v₂.1, v₃.1⟩, ?_⟩
    simp only [bytes, List.length_append, List.length_singleton, Varint.length_bytes, len_zero] at *
    omega

end ConnectTcpResp

namespace UdpSessionOpen

/-- The frame can be written. The session id always can: it has 32 bits. -/
def Encodable (f : UdpSessionOpen) : Prop :=
  f.flags ≤ Varint.MAX ∧ f.host.length ≤ MAX_HOST ∧ f.idleTimeoutMs ≤ Varint.MAX

def bytes (f : UdpSessionOpen) : List UInt8 :=
  Varint.bytes f.sessionId.toUInt64 ++ (Varint.bytes f.flags ++ ([f.addressType.toRaw] ++ (stringBytes f.host ++
    (u16ToBeBytes f.port ++ (Varint.bytes f.idleTimeoutMs ++ Varint.bytes 0)))))

theorem sessionId_le_max (sid : UInt32) : sid.toUInt64 ≤ Varint.MAX := by
  have := sid.toNat_lt
  rw [UInt64.le_iff_toNat_le, UInt32.toNat_toUInt64]
  simp only [Varint.MAX, UInt64.reduceToNat]
  omega

theorem u32TryFrom_toUInt64 (sid : UInt32) : u32TryFrom sid.toUInt64 = some sid := by
  have := sid.toNat_lt
  rw [u32TryFrom, UInt32.toNat_toUInt64, if_pos this]
  simp

theorem toUInt64_of_u32TryFrom {v : UInt64} {sid : UInt32} (h : u32TryFrom v = some sid) : sid.toUInt64 = v := by
  simp only [u32TryFrom] at h
  split at h
  · next hlt =>
    cases h
    apply UInt64.toNat_inj.mp
    rw [UInt32.toNat_toUInt64, UInt64.toNat_toUInt32]
    exact Nat.mod_eq_of_lt hlt
  · cases h

theorem format : Format writer reader bytes Encodable MAX_FRAME where
  writes := by
    intro f
    refine ((varint_writes _).bind <| (varint_writes _).bind <| (Writes.of_emits (bytes_emits _)).bind <|
      (string_writes _ (by decide)).bind <| (Writes.of_emits (bytes_emits _)).bind <|
      (varint_writes _).bind (.of_emits finish_emits)).of_iff ?_
    simp only [true_and, and_true, Encodable, sessionId_le_max]
  reads := by
    rintro f ⟨h₁, h₂, h₃⟩
    exact (varint_reads (sessionId_le_max _)).bind <| (Reads.orThrow (u32TryFrom_toUInt64 _)).bind <|
      (varint_reads h₁).bind <| (u8_reads _).bind <| (Reads.orThrow (AddrType.fromRaw_toRaw _)).bind <|
      (string_reads h₂ (by decide)).bind <| (u16_reads _).bind <| (varint_reads h₃).bind <|
      finish_reads.map fun n => (f, n)
  bounded := by
    rintro f ⟨-, h₂, -⟩
    have hs := Varint.len_le_eight f.sessionId.toUInt64
    have hf := Varint.len_le_eight f.flags
    have hi := Varint.len_le_eight f.idleTimeoutMs
    have hh := length_stringBytes_le h₂
    simp only [bytes, u16ToBeBytes, List.length_append, List.length_cons, List.length_nil, Varint.length_bytes,
      len_zero, MAX_FRAME, MAX_HOST] at *
    omega
  sound := by
    intro p f n c h
    obtain ⟨sid, c₁, h₁, h⟩ := bind_ok.mp h
    obtain ⟨sessionId, c₂, h₂, h⟩ := bind_ok.mp h
    obtain ⟨flags, c₃, h₃, h⟩ := bind_ok.mp h
    obtain ⟨raw, c₄, h₄, h⟩ := bind_ok.mp h
    obtain ⟨addressType, c₅, h₅, h⟩ := bind_ok.mp h
    obtain ⟨host, c₆, h₆, h⟩ := bind_ok.mp h
    obtain ⟨port, c₇, h₇, h⟩ := bind_ok.mp h
    obtain ⟨idleTimeoutMs, c₈, h₈, h⟩ := bind_ok.mp h
    obtain ⟨n', c₉, h₉, h⟩ := bind_ok.mp h
    cases h
    have v₁ := varint_sound h₁
    obtain ⟨hsid, rfl⟩ := orThrow_ok h₂
    have v₃ := varint_sound h₃
    have v₄ := u8_sound h₄
    obtain ⟨-, rfl⟩ := orThrow_ok h₅
    have v₆ := string_sound h₆
    have v₇ := u16_sound h₇
    have v₈ := varint_sound h₈
    have v₉ := finish_sound h₉
    refine ⟨⟨v₃.1, v₆.1, v₈.1⟩, ?_⟩
    simp only [bytes, u16ToBeBytes, List.length_append, List.length_cons, List.length_nil, Varint.length_bytes,
      len_zero, toUInt64_of_u32TryFrom hsid] at *
    omega

end UdpSessionOpen

namespace UdpSessionResp

/-- The frame can be written: its status and code are a legal pair. -/
def Encodable (f : UdpSessionResp) : Prop :=
  udpStatusCodeValid f.status f.errorCode = true ∧ f.errorCode ≤ Varint.MAX ∧ f.message.length ≤ MAX_MESSAGE ∧
    f.idleTimeoutMs ≤ Varint.MAX

def bytes (f : UdpSessionResp) : List UInt8 :=
  [f.status] ++ (Varint.bytes f.errorCode ++ (stringBytes f.message ++
    (Varint.bytes f.idleTimeoutMs ++ Varint.bytes 0)))

theorem format : Format writer reader bytes Encodable MAX_FRAME where
  writes := by
    intro f
    have hfields : Writes (do
        CursorMut.bytes [f.status]
        CursorMut.varint f.errorCode
        CursorMut.string f.message MAX_MESSAGE
        CursorMut.varint f.idleTimeoutMs
        CursorMut.finish) (bytes f) _ id :=
      (Writes.of_emits (bytes_emits _)).bind <| (varint_writes _).bind <| (string_writes _ (by decide)).bind <|
        (varint_writes _).bind (.of_emits finish_emits)
    simp only [true_and, and_true] at hfields
    constructor
    · rintro ⟨hvalid, h⟩
      rw [writer, hvalid]
      exact hfields.emits h
    · intro h
      rw [writer]
      cases hvalid : udpStatusCodeValid f.status f.errorCode with
      | false => exact Rejects.throw _
      | true => exact hfields.rejects fun h' => h ⟨hvalid, h'⟩
  reads := by
    rintro f ⟨hvalid, h₁, h₂, h₃⟩
    refine (u8_reads f.status).bind <| (varint_reads h₁).bind ?_
    rw [hvalid]
    exact (string_reads h₂ (by decide)).bind <| (varint_reads h₃).bind <| finish_reads.map fun n => (f, n)
  bounded := by
    rintro f ⟨-, -, h₂, -⟩
    have he := Varint.len_le_eight f.errorCode
    have hi := Varint.len_le_eight f.idleTimeoutMs
    have hm := length_stringBytes_le h₂
    simp only [bytes, List.length_append, List.length_singleton, Varint.length_bytes, len_zero, MAX_FRAME,
      MAX_MESSAGE] at *
    omega
  sound := by
    intro p f n c h
    obtain ⟨status, c₁, h₁, h⟩ := bind_ok.mp h
    obtain ⟨errorCode, c₂, h₂, h⟩ := bind_ok.mp h
    cases hvalid : udpStatusCodeValid status errorCode with
    | false =>
      rw [hvalid] at h
      cases h
    | true =>
      rw [hvalid] at h
      obtain ⟨message, c₃, h₃, h⟩ := bind_ok.mp h
      obtain ⟨idleTimeoutMs, c₄, h₄, h⟩ := bind_ok.mp h
      obtain ⟨n', c₅, h₅, h⟩ := bind_ok.mp h
      cases h
      have v₁ := u8_sound h₁
      have v₂ := varint_sound h₂
      have v₃ := string_sound h₃
      have v₄ := varint_sound h₄
      have v₅ := finish_sound h₅
      refine ⟨⟨hvalid, v₂.1, v₃.1, v₄.1⟩, ?_⟩
      simp only [bytes, List.length_append, List.length_singleton, Varint.length_bytes, len_zero] at *
      omega

end UdpSessionResp

/-! ### Round trips -/

/-- What a codec must satisfy: into a buffer of at least `MAX_FRAME` bytes exactly the
`Encodable` frames are written; what was written is read back, whatever follows; and
what was read from any bytes is written again in at most as many, and read back. -/
def RoundTrips {φ : Type} (encode : φ → List UInt8 → Except EncodeError (ℕ × List UInt8))
    (decode : List UInt8 → Except DecodeError (φ × ℕ)) (Encodable : φ → Prop) : Prop :=
  (∀ f out, MAX_FRAME ≤ out.length → ((∃ n buf, encode f out = .ok (n, buf)) ↔ Encodable f)) ∧
  (∀ f out n buf, MAX_FRAME ≤ out.length → encode f out = .ok (n, buf) →
    ∀ tail, decode (buf.take n ++ tail) = .ok (f, n)) ∧
  ∀ bs f n, decode bs = .ok (f, n) → ∀ out, MAX_FRAME ≤ out.length →
    ∃ m buf, encode f out = .ok (m, buf) ∧ m ≤ n ∧ decode (buf.take m) = .ok (f, m)

theorem roundTrips_of_format {φ : Type} {writer : φ → Encoder ℕ} {reader : Decoder (φ × ℕ)}
    {bytes : φ → List UInt8} {Encodable : φ → Prop} (F : Format writer reader bytes Encodable MAX_FRAME) :
    RoundTrips (fun f => encodeWith (writer f)) (decodeWith reader) Encodable :=
  ⟨fun f _ hout => F.encodes_iff f hout, fun _ _ _ _ hout h tail => F.decode_encode hout h tail,
    fun _ _ _ h _ hout => F.encode_decode h hout⟩

/-- **The control-frame codec**: each of the six frames round-trips in both directions. -/
theorem frames_round_trip :
    RoundTrips AuthReq.encode AuthReq.decode AuthReq.Encodable ∧
      RoundTrips AuthResp.encode AuthResp.decode AuthResp.Encodable ∧
      RoundTrips ConnectTcpReq.encode ConnectTcpReq.decode ConnectTcpReq.Encodable ∧
      RoundTrips ConnectTcpResp.encode ConnectTcpResp.decode ConnectTcpResp.Encodable ∧
      RoundTrips UdpSessionOpen.encode UdpSessionOpen.decode UdpSessionOpen.Encodable ∧
      RoundTrips UdpSessionResp.encode UdpSessionResp.decode UdpSessionResp.Encodable :=
  ⟨roundTrips_of_format AuthReq.format, roundTrips_of_format AuthResp.format,
    roundTrips_of_format ConnectTcpReq.format, roundTrips_of_format ConnectTcpResp.format,
    roundTrips_of_format UdpSessionOpen.format, roundTrips_of_format UdpSessionResp.format⟩

end MqProxy.Wire
