import MqProxy.Client.Tokens
import MqProxy.Library.Labels
import Mathlib.Data.Finset.Insert

/-!
# Which connections are intercepted

`mq-proxy/src/client/mitm/policy.rs`: a captured TLS flow is intercepted or goes to the opaque
relay, by the name it asks for. Names are compared as texts, with suffixes that are stripped and
substrings that are looked up; **`routing_policy`** says what this comes to for the labels of the
names. An entry without a leading dot is for the one name, and an entry with a leading dot for the
names that have its labels at their end, and more of them.

An `Sni` carries that it is canonical: it is what the canonicaliser makes of itself.
-/

namespace MqProxy.Client

open MqProxy.Http MqProxy.Library
open MqProxy.Runtime (fromUtf8)
open MqProxy.Ingress.HttpConnect (ascii)

/-! ### Texts in ASCII -/

theorem ascii_of_label {c : UInt8}
    (h : toAsciiLowercase c = 0x2E ∨ isAsciiAlphanumeric (toAsciiLowercase c) = true ∨ toAsciiLowercase c = 0x2D) :
    c < 0x80 := by
  simp only [toAsciiLowercase, isAsciiAlphanumeric, isAsciiDigit] at h
  grind

theorem utf8EncodeChar_ofUInt8 {c : UInt8} (h : c < 0x80) : String.utf8EncodeChar (Char.ofUInt8 c) = [c] := by
  have hc : (Char.ofUInt8 c).val ≤ 127 := by
    show c.toUInt32 ≤ 127
    rw [UInt32.le_iff_toNat_le, UInt8.toNat_toUInt32]
    exact Nat.le_of_lt_succ (UInt8.lt_iff_toNat_lt.mp h)
  rw [String.utf8EncodeChar_eq_singleton (Char.utf8Size_eq_one_iff.mpr hc)]
  show [c.toUInt32.toUInt8] = [c]
  rw [UInt8.toUInt8_toUInt32]

/-- ASCII text is UTF-8. -/
theorem isSome_fromUtf8_of_ascii {b : List UInt8} (h : ∀ c ∈ b, c < 0x80) : (fromUtf8 b).isSome = true := by
  have hencode : (b.map Char.ofUInt8).flatMap String.utf8EncodeChar = b := by
    induction b with
    | nil => rfl
    | cons c b ih =>
      rw [List.map_cons, List.flatMap_cons, ih fun x hx => h x (List.mem_cons_of_mem _ hx),
        utf8EncodeChar_ofUInt8 (h c List.mem_cons_self)]
      rfl
  have hvalid : ByteArray.IsValidUTF8 ⟨b.toArray⟩ := by
    refine ⟨b.map Char.ofUInt8, ByteArray.ext ?_⟩
    rw [List.utf8Encode, hencode, List.data_toByteArray]
  rw [fromUtf8, String.fromUTF8?, dif_pos hvalid]
  rfl

/-! ### Canonical names -/

/-- What the canonicaliser accepts, and what it gives. -/
theorem canonical_eq_some {b s : List UInt8} :
    canonical b = some s ↔
      (stripDot b ≠ [] ∧ (stripDot b).length ≤ 253 ∧ (fromUtf8 (stripDot b)).isSome = true) ∧
        (s = (stripDot b).map toAsciiLowercase ∧ (∀ l ∈ s.splitOn 0x2E, labelOk l = true) ∧ parseIpAddr s = none) := by
  simp only [canonical]
  constructor
  · intro h
    split at h
    · cases h
    · next hlength =>
      rw [not_or, Nat.not_lt] at hlength
      obtain ⟨text, htext, h⟩ := Option.bind_eq_some_iff.mp h
      split at h
      · cases h
      · next hok =>
        rw [not_or, Bool.not_eq_true', Bool.not_eq_false, List.all_eq_true, Bool.not_eq_true, Option.isSome_eq_false_iff,
          Option.isNone_iff_eq_none] at hok
        cases h
        exact ⟨⟨hlength.1, hlength.2, by rw [htext]; rfl⟩, rfl, hok.1, hok.2⟩
  · rintro ⟨⟨hne, hlength, htext⟩, rfl, hlabels, hip⟩
    obtain ⟨text, htext⟩ := Option.isSome_iff_exists.mp htext
    rw [if_neg (by rw [not_or, Nat.not_lt]; exact ⟨hne, hlength⟩), htext, Option.bind_some, if_neg]
    rw [not_or, Bool.not_eq_true', Bool.not_eq_false, List.all_eq_true, hip]
    exact ⟨hlabels, by simp⟩

/-- Names that are the same but for ASCII case and for one trailing dot. -/
def SameName (b b' : List UInt8) : Prop :=
  (stripDot b').map toAsciiLowercase = (stripDot b).map toAsciiLowercase

/-- **Case and one trailing dot do not matter.** -/
theorem canonical_of_sameName {b b' s : List UInt8} (h : canonical b = some s) (hsame : SameName b b') :
    canonical b' = some s := by
  have hascii : ∀ c ∈ stripDot b', c < 0x80 := by
    intro c hc
    have hmem : toAsciiLowercase c ∈ (stripDot b).map toAsciiLowercase := hsame ▸ List.mem_map_of_mem hc
    obtain ⟨d, hd, hdc⟩ := List.mem_map.mp hmem
    exact ascii_of_label (hdc ▸ canonical_bytes h hd)
  rw [canonical_eq_some] at h ⊢
  obtain ⟨⟨hne, hlength, -⟩, rfl, hlabels⟩ := h
  have hlen : (stripDot b').length = (stripDot b).length := by
    simpa using congrArg List.length hsame
  refine ⟨⟨?_, hlen ▸ hlength, isSome_fromUtf8_of_ascii hascii⟩, hsame.symm, hlabels⟩
  rw [← List.length_pos_iff, hlen]
  exact List.length_pos_iff.mpr hne

/-- The last label is not empty: there is no trailing dot. -/
theorem stripDot_of_labels {s : List UInt8} (h : ∀ l ∈ s.splitOn 0x2E, labelOk l = true) : stripDot s = s := by
  rw [stripDot, if_neg]
  intro hlast
  obtain ⟨l, rfl⟩ := List.getLast?_eq_some_iff.mp hlast
  rw [List.splitOn_append_cons_self] at h
  have := h [] (List.mem_append_right _ (by simp))
  cases this

/-- **The canonicaliser is idempotent.** -/
theorem canonical_idem {b s : List UInt8} (h : canonical b = some s) : canonical s = some s := by
  refine canonical_of_sameName h ?_
  obtain ⟨-, hs, hlabels, -⟩ := canonical_eq_some.mp h
  rw [SameName, stripDot_of_labels hlabels, hs, List.map_map]
  exact List.map_congr_left fun c _ => toAsciiLowercase_idem c

/-- `Sni`: a canonical name. -/
structure Sni where
  text : List UInt8
  canon : canonical text = some text
  deriving DecidableEq

namespace Sni

/-- `Sni::canonical`. -/
def canonical (b : List UInt8) : Option Sni :=
  (Client.canonical b).pmap (fun s hs => ⟨s, hs⟩) fun _ hs => canonical_idem hs

/-- The labels of a name. -/
def labels (s : Sni) : List (List UInt8) := s.text.splitOn 0x2E

theorem labels_inj {s t : Sni} : s.labels = t.labels ↔ s = t := by
  rw [labels, labels, splitOn_inj]
  constructor
  · obtain ⟨s, _⟩ := s
    obtain ⟨t, _⟩ := t
    rintro rfl
    rfl
  · rintro rfl
    rfl

/-- A name with the labels of `base` at its end, and more of them. -/
def StrictlyUnder (s base : Sni) : Prop := base.labels <:+ s.labels ∧ base.labels ≠ s.labels

/-- `Sni::is_under`. -/
def isUnder (s base : Sni) : Bool := (s.text.dropSuffix? base.text).any fun p => p.getLast? = some 0x2E

/-- `Sni::is_under_or_eq`. -/
def isUnderOrEq (s base : Sni) : Bool := s = base || s.isUnder base

/-- **Under, by labels.** -/
theorem isUnder_iff {s base : Sni} : s.isUnder base = true ↔ s.StrictlyUnder base := by
  rw [StrictlyUnder, labels, labels, ← below_iff_labels, isUnder, Option.any_eq_true]
  constructor
  · rintro ⟨p, hp, hdot⟩
    obtain ⟨t, hs, ht⟩ := List.dropSuffix?_eq_some_iff.mp hp
    obtain ⟨pre, rfl⟩ := List.getLast?_eq_some_iff.mp (of_decide_eq_true hdot)
    refine ⟨pre, ?_⟩
    rw [hs, eq_of_beq ht, List.append_assoc]
    rfl
  · rintro ⟨pre, hs⟩
    refine ⟨pre ++ [0x2E], List.dropSuffix?_eq_some_iff.mpr ⟨base.text, ?_, beq_self_eq_true _⟩, ?_⟩
    · rw [hs, List.append_assoc]
      rfl
    · rw [List.getLast?_concat]
      exact decide_eq_true rfl

/-- **Under or equal, by labels.** -/
theorem isUnderOrEq_iff {s base : Sni} : s.isUnderOrEq base = true ↔ base.labels <:+ s.labels := by
  rw [isUnderOrEq, Bool.or_eq_true, isUnder_iff, decide_eq_true_eq, StrictlyUnder, ← labels_inj]
  constructor
  · rintro (h | h)
    · rw [h]
    · exact h.1
  · intro h
    by_cases heq : base.labels = s.labels
    · exact .inl heq.symm
    · exact .inr ⟨h, heq⟩

end Sni

/-! ### Hosts that are left alone -/

/-- `IgnoreHosts`. -/
structure IgnoreHosts where
  exact : Finset Sni
  suffix : Finset Sni

/-- One turn of the loop of `parse`; the error names the entry. -/
def IgnoreHosts.add (h : IgnoreHosts) (e : List UInt8) : Except (List UInt8) IgnoreHosts :=
  let (dot, host) := if e.head? = some 0x2E then (true, e.tail) else (false, e)
  match Sni.canonical host with
  | none => .error e
  | some sni => .ok (if dot then { h with suffix := insert sni h.suffix } else { h with exact := insert sni h.exact })

/-- `IgnoreHosts::parse`. -/
def IgnoreHosts.parse (entries : List (List UInt8)) : Except (List UInt8) IgnoreHosts := entries.foldlM add ⟨∅, ∅⟩

/-- `HashSet::contains`, of a text. -/
def containsName (names : Finset Sni) (n : List UInt8) : Bool := decide (∃ x ∈ names, x.text = n)

/-- `n.match_indices('.')`. -/
def dots (n : List UInt8) : List ℕ := (List.range n.length).filter fun i => n[i]? = some 0x2E

/-- `IgnoreHosts::matches`. -/
def IgnoreHosts.matches (h : IgnoreHosts) (s : Sni) : Bool :=
  containsName h.exact s.text || (dots s.text).any fun i => containsName h.suffix (s.text.drop (i + 1))

/-- What an entry is for: without a leading dot the one name, with a leading dot those under it. -/
def IsFor (e : List UInt8) (s : Sni) : Prop :=
  if e.head? = some 0x2E then ∃ x, Sni.canonical e.tail = some x ∧ s.StrictlyUnder x
  else ∃ x, Sni.canonical e = some x ∧ x.labels = s.labels

theorem containsName_iff {names : Finset Sni} {s : Sni} : containsName names s.text = true ↔ s ∈ names := by
  rw [containsName, decide_eq_true_eq]
  constructor
  · rintro ⟨x, hx, htext⟩
    rwa [← Sni.labels_inj.mp (show x.labels = s.labels by rw [Sni.labels, Sni.labels, htext])]
  · exact fun hs => ⟨s, hs, rfl⟩

/-- What stands behind a dot of a text. -/
theorem exists_dots_iff {n m : List UInt8} : (∃ i ∈ dots n, n.drop (i + 1) = m) ↔ Below 0x2E m n := by
  simp only [dots, List.mem_filter, List.mem_range, decide_eq_true_eq]
  constructor
  · rintro ⟨i, ⟨hi, hdot⟩, rfl⟩
    obtain ⟨_, hget⟩ := List.getElem?_eq_some_iff.mp hdot
    exact ⟨n.take i, by rw [← hget, List.getElem_cons_drop, List.take_append_drop]⟩
  · rintro ⟨pre, rfl⟩
    exact ⟨pre.length, by simp, by simp⟩

/-- The names that a set of exact and one of leading-dot names are for. -/
theorem matches_iff {h : IgnoreHosts} {s : Sni} :
    h.matches s = true ↔ s ∈ h.exact ∨ ∃ x ∈ h.suffix, s.StrictlyUnder x := by
  rw [IgnoreHosts.matches, Bool.or_eq_true, containsName_iff, List.any_eq_true]
  refine or_congr_right ?_
  simp only [containsName, decide_eq_true_eq]
  constructor
  · rintro ⟨i, hi, x, hx, htext⟩
    exact ⟨x, hx, below_iff_labels.mp (exists_dots_iff.mp ⟨i, hi, htext.symm⟩)⟩
  · rintro ⟨x, hx, hunder⟩
    obtain ⟨i, hi, htext⟩ := exists_dots_iff.mpr (below_iff_labels.mpr hunder)
    exact ⟨i, hi, x, hx, htext.symm⟩

/-- An entry that is added. -/
theorem matches_add {h h' : IgnoreHosts} {e : List UInt8} (hadd : h.add e = .ok h') (s : Sni) :
    h'.matches s = true ↔ h.matches s = true ∨ IsFor e s := by
  rw [matches_iff, matches_iff, IsFor]
  unfold IgnoreHosts.add at hadd
  by_cases hdot : e.head? = some 0x2E
  · rw [if_pos hdot] at hadd ⊢
    dsimp only at hadd
    split at hadd
    · cases hadd
    · next sni hsni =>
      cases hadd
      simp only [hsni, Option.some.injEq, exists_eq_left', if_true, Finset.exists_mem_insert]
      rw [or_assoc, or_comm (a := s.StrictlyUnder sni)]
  · rw [if_neg hdot] at hadd ⊢
    dsimp only at hadd
    split at hadd
    · cases hadd
    · next sni hsni =>
      cases hadd
      simp only [hsni, Option.some.injEq, exists_eq_left', Sni.labels_inj, Bool.false_eq_true, if_false,
        Finset.mem_insert]
      rw [or_assoc, or_comm, eq_comm]

/-- **What is ignored**: the names that some entry is for. -/
theorem matches_parse {entries : List (List UInt8)} {h : IgnoreHosts} (hparse : IgnoreHosts.parse entries = .ok h)
    (s : Sni) : h.matches s = true ↔ ∃ e ∈ entries, IsFor e s := by
  have hloop : ∀ h₀ : IgnoreHosts, entries.foldlM IgnoreHosts.add h₀ = .ok h →
      (h.matches s = true ↔ h₀.matches s = true ∨ ∃ e ∈ entries, IsFor e s) := by
    clear hparse
    induction entries with
    | nil =>
      intro h₀ hrun
      cases hrun
      simp
    | cons e es ih =>
      intro h₀ hrun
      rw [List.foldlM_cons] at hrun
      cases hadd : h₀.add e with
      | error e' =>
        rw [hadd] at hrun
        cases hrun
      | ok h₁ =>
        rw [hadd] at hrun
        rw [ih h₁ hrun, matches_add hadd s, List.exists_mem_cons_iff, or_assoc]
  rw [hloop _ hparse, matches_iff]
  simp

/-! ### What a CA may sign -/

/-- `DnsSubtree`. -/
inductive DnsSubtree where
  /-- The empty constraint. -/
  | all
  /-- Equal, or under it. -/
  | domain (c : Sni)
  /-- Leading dot: strict subdomains. -/
  | under (c : Sni)

/-- `DnsSubtree::matches`. -/
def DnsSubtree.matches (t : DnsSubtree) (s : Sni) : Bool :=
  match t with
  | .all => true
  | .domain c => s.isUnderOrEq c
  | .under c => s.isUnder c

/-- The names of a subtree, by labels. -/
def DnsSubtree.Has (t : DnsSubtree) (s : Sni) : Prop :=
  match t with
  | .all => True
  | .domain c => c.labels <:+ s.labels
  | .under c => s.StrictlyUnder c

theorem DnsSubtree.matches_iff {t : DnsSubtree} {s : Sni} : t.matches s = true ↔ t.Has s := by
  cases t with
  | all => exact iff_of_true rfl trivial
  | domain c => exact Sni.isUnderOrEq_iff
  | under c => exact Sni.isUnder_iff

/-- `CaScope`. -/
structure CaScope where
  permitted : List DnsSubtree
  excluded : List DnsSubtree

/-- `CaScope::covers`. -/
def CaScope.covers (scope : CaScope) (s : Sni) : Bool :=
  (scope.permitted.isEmpty || scope.permitted.any (·.matches s)) && !scope.excluded.any (·.matches s)

/-- **What a CA may sign.** -/
theorem CaScope.covers_iff {scope : CaScope} {s : Sni} :
    scope.covers s = true ↔
      (scope.permitted = [] ∨ ∃ t ∈ scope.permitted, t.Has s) ∧ ¬∃ t ∈ scope.excluded, t.Has s := by
  simp only [covers, Bool.and_eq_true, Bool.or_eq_true, List.isEmpty_iff, List.any_eq_true, Bool.not_eq_true',
    ← Bool.not_eq_true, DnsSubtree.matches_iff]

/-! ### The route of a flow -/

/-- `Why`. -/
inductive Why where
  | notTls
  | noSni
  | badSni
  | noH2
  | ignored
  | outOfCaScope
  | tlsIncompatible
  | timeout
  | tooLarge
  | eof
  | atCapacity
  deriving DecidableEq

/-- `Route`. -/
inductive Route where
  | mitm (s : Sni)
  /-- `Opaque`. -/
  | relay (why : Why)
  deriving DecidableEq

/-- `MitmPolicy`. -/
structure MitmPolicy where
  ignore : IgnoreHosts
  scope : CaScope

/-- `MitmPolicy::route`. -/
def MitmPolicy.route (p : MitmPolicy) (sni : Option (List UInt8)) (offersH2 : Bool) : Route :=
  match sni with
  | none => .relay .noSni
  | some raw =>
    match Sni.canonical raw with
    | none => .relay .badSni
    | some sni =>
      if !offersH2 then .relay .noH2
      else if p.ignore.matches sni then .relay .ignored
      else if !p.scope.covers sni then .relay .outOfCaScope
      else .mitm sni

/-- **When a flow is intercepted.** -/
theorem route_eq_mitm_iff {p : MitmPolicy} {sni : Option (List UInt8)} {offersH2 : Bool} {s : Sni} :
    p.route sni offersH2 = .mitm s ↔
      (∃ raw, sni = some raw ∧ Sni.canonical raw = some s) ∧ offersH2 = true ∧ p.ignore.matches s = false ∧
        p.scope.covers s = true := by
  constructor
  · intro h
    unfold MitmPolicy.route at h
    split at h
    · cases h
    · next raw =>
      split at h
      · cases h
      · next sni hsni =>
        split_ifs at h with hh2 hignored hscope
        cases h
        exact ⟨⟨raw, rfl, hsni⟩, by simpa using hh2, by simpa using hignored, by simpa using hscope⟩
  · rintro ⟨⟨raw, rfl, hs⟩, rfl, hignored, hscope⟩
    simp [MitmPolicy.route, hs, hignored, hscope]

/-- **The routing policy, by labels.** The canonicaliser is idempotent and does not look at case
or at one trailing dot; hosts are ignored, and names are covered by a CA, label by label; and a
flow is intercepted if it names a host that is neither ignored nor out of the CA's scope, and
offers h2. -/
theorem routing_policy :
    (∀ {b s : List UInt8}, canonical b = some s →
      canonical s = some s ∧ ∀ b' : List UInt8, SameName b b' → canonical b' = some s) ∧
    (∀ {entries : List (List UInt8)} {hosts : IgnoreHosts}, IgnoreHosts.parse entries = .ok hosts →
      ∀ s : Sni, hosts.matches s = true ↔ ∃ e ∈ entries, IsFor e s) ∧
    (∀ (scope : CaScope) (s : Sni), scope.covers s = true ↔
      (scope.permitted = [] ∨ ∃ t ∈ scope.permitted, t.Has s) ∧ ¬∃ t ∈ scope.excluded, t.Has s) ∧
    ∀ (p : MitmPolicy) (sni : Option (List UInt8)) (offersH2 : Bool) (s : Sni),
      p.route sni offersH2 = .mitm s ↔
        (∃ raw, sni = some raw ∧ Sni.canonical raw = some s) ∧ offersH2 = true ∧ p.ignore.matches s = false ∧
          p.scope.covers s = true :=
  ⟨fun h => ⟨canonical_idem h, fun _ hsame => canonical_of_sameName h hsame⟩, fun h s => matches_parse h s,
    fun _ _ => CaScope.covers_iff, fun _ _ _ _ => route_eq_mitm_iff⟩

/-- At a list of two entries, the second of them for all names under `b`. -/
theorem routing_policy_under :
    ∃ hosts, IgnoreHosts.parse [ascii "a.c", ascii ".B."] = .ok hosts ∧
      (∀ s : Sni, hosts.matches s = true ↔ ∃ e ∈ [ascii "a.c", ascii ".B."], IsFor e s) ∧
      canonical (ascii "X.b.") = some (ascii "x.b") ∧ canonical (ascii "x.B") = some (ascii "x.b") := by
  have hparse : (IgnoreHosts.parse [ascii "a.c", ascii ".B."]).toOption.isSome = true := by decide +kernel
  have hcanon : canonical (ascii "X.b.") = some (ascii "x.b") := by decide +kernel
  have hsame : SameName (ascii "X.b.") (ascii "x.B") := by
    rw [SameName]
    decide +kernel
  cases h : IgnoreHosts.parse [ascii "a.c", ascii ".B."] with
  | error e =>
    rw [h] at hparse
    cases hparse
  | ok hosts =>
    exact ⟨hosts, rfl, routing_policy.2.1 h, hcanon, (routing_policy.1 hcanon).2 _ hsame⟩

end MqProxy.Client
