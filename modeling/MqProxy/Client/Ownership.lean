import MqProxy.Client.FetchApart
import MqProxy.Client.MitmOwners
import MqProxy.Client.Tokens
import MqProxy.Library.Runs

/-!
# Who owns an exchange

The table of the exchanges, the requests of the fetch front and the streams of the MITM front
each hold one side of a relation. **`exchanges_owned`**: between any two callbacks, whatever
happened before, it is one to one. An exchange of a fetch is the one in the entry of its
socket, an exchange of a stream is the one that exactly one stream of a live connection holds,
and what an entry or a stream holds is in the table.
-/

namespace MqProxy.Client

open MqProxy.Library
open MqProxy.Ingress.HttpConnect (ascii)

/-! ### The client -/

/-- The two fronts; the exchanges are in `fetch`. -/
structure Fronts where
  fetch : Fetch
  conns : AList fun _ : ℕ => Phase

/-- What the parser, the transport, the sockets, TLS and h2 answer in a callback. -/
structure Answers where
  /-- `pick_conn`. -/
  tunnel : Option ℕ
  parsed : Fetch.Parsed
  opened : Option ℕ
  sent : Bool
  rx : List UInt8
  turns : List Turn
  dl : Fetch.DlTurn
  ok : Bool
  oks : List Bool
  got : Mitm.Peeked
  passes : List PassTurn
  /-- The passes over each connection at shutdown. -/
  last : ℕ → List PassTurn

/-- The callbacks of `App` that reach a front. -/
inductive Callback where
  | event (ev : XEvent)
  | acceptedFetch (tcp timer : ℕ)
  | acceptedMitm (tcp : ℕ)
  | tcpData (tcp : ℕ)
  | tcpEnd (tcp : ℕ) (error : Bool) (buffered : UInt64)
  | tcpWritable (tcp : ℕ)
  | fetchTimer (timer : ℕ)
  | mitmTimer (tcp : ℕ) (due : Mitm.Due)
  | shutdown

namespace Fronts

/-- Before the first callback. -/
def start : Fronts := ⟨⟨∅, ∅, ∅, []⟩, ∅⟩

/-- The MITM front. -/
def mitm (w : Fronts) : Mitm := ⟨w.fetch.ex, w.conns⟩

/-- The fetch front goes on. -/
def ofFetch (w : Fronts) (r : Option Fetch) : Option Fronts := r.map fun f => ⟨f, w.conns⟩

/-- The MITM front goes on. -/
def ofMitm (w : Fronts) (r : Option Mitm) : Option Fronts := r.map fun m => ⟨{ w.fetch with ex := m.ex }, m.conns⟩

/-- A callback: an event goes to the owner of the exchange, a socket to the front that has it. -/
def next (cfg : MitmCfg) (w : Fronts) (a : Callback × Answers) : Option Fronts :=
  let ans := a.2
  match a.1 with
  | .event ev =>
    let r := w.fetch.ex.onEvent ev
    let w := { w with fetch := { w.fetch with ex := r.1 } }
    match r.2 with
    | none => some w
    | some (.fetch tcp, _, ready) => w.ofFetch (w.fetch.onReady tcp ready ans.rx ans.turns ans.dl)
    | some (.mitm tcp stream, _, ready) =>
      w.ofMitm (Mitm.onReady cfg w.mitm ans.tunnel tcp stream ready ans.passes)
  | .acceptedFetch tcp timer => w.ofFetch (some (w.fetch.onAccepted tcp timer))
  | .acceptedMitm tcp => w.ofMitm (some (Mitm.onAccepted cfg w.mitm tcp))
  | .tcpData tcp =>
    if (w.fetch.reqs.lookup tcp).isSome then
      w.ofFetch (w.fetch.onTcpData tcp ans.parsed ans.tunnel ans.opened ans.sent ans.rx ans.turns ans.dl)
    else w.ofMitm (Mitm.onTcpData cfg w.mitm ans.tunnel tcp ans.got ans.passes)
  | .tcpEnd tcp error buffered =>
    if (w.fetch.reqs.lookup tcp).isSome then w.ofFetch (some (w.fetch.onTcpEnd tcp error buffered))
    else w.ofMitm (Mitm.onTcpEnd cfg w.mitm ans.tunnel tcp error ans.passes)
  | .tcpWritable tcp =>
    if (w.fetch.reqs.lookup tcp).isSome then w.ofFetch (w.fetch.onTcpWritable tcp ans.ok ans.oks ans.dl)
    else w.ofMitm (Mitm.pump cfg ans.tunnel tcp w.mitm ans.passes)
  | .fetchTimer timer => w.ofFetch (w.fetch.onTimer timer)
  | .mitmTimer tcp due => w.ofMitm (Mitm.onTimer cfg w.mitm ans.tunnel tcp due ans.passes)
  | .shutdown =>
    let w := { w with fetch := w.fetch.onShutdown }
    w.ofMitm (Mitm.onShutdown cfg w.mitm ans.last)

/-- A socket that is accepted is not one that a front has, and `set_timer` gives a new timer. -/
def Fair (w : Fronts) (a : Callback × Answers) : Prop :=
  match a.1 with
  | .acceptedFetch tcp timer => w.fetch.reqs.lookup tcp = none ∧ w.fetch.timers.lookup timer = none
  | .acceptedMitm tcp => w.conns.lookup tcp = none
  | _ => True

/-- The relation between the fronts and the table. -/
structure Owned (w : Fronts) : Prop where
  fetch : w.fetch.Fed none
  mitm : w.mitm.Owned

variable {w w' : Fronts}

theorem Owned.ofFetch {r : Option Fetch} (h : w.Owned) (hr : ∀ f, r = some f → Fetch.Feeds none none w.fetch f)
    (hnext : w.ofFetch r = some w') : w'.Owned := by
  obtain ⟨f, hf, rfl⟩ := Option.map_eq_some_iff.mp hnext
  obtain ⟨hfed, hmitm⟩ := hr f hf h.fetch
  refine ⟨hfed, fun c => ⟨fun id k => ?_, (h.mitm c).nodup⟩⟩
  exact (hmitm id c k).trans ((h.mitm c).owned id k)

theorem Owned.ofMitm {r : Option Mitm} (h : w.Owned) (hr : ∀ m, r = some m → Mitm.Keeps w.mitm m)
    (hnext : w.ofMitm r = some w') : w'.Owned := by
  obtain ⟨m, hm, rfl⟩ := Option.map_eq_some_iff.mp hnext
  obtain ⟨howned, hfetch⟩ := hr m hm h.mitm
  refine ⟨⟨fun id tcp hid => h.fetch.sound id tcp ((hfetch.owner id tcp).mp hid), fun tcp id hid => ?_, h.fetch.timer⟩,
    howned⟩
  exact (h.fetch.whole tcp id hid).imp (hfetch.owner id tcp).mpr fun hx => (nomatch hx.1)

/-- An event changes no owner. -/
theorem Owned.onEvent (h : w.Owned) (ev : XEvent) :
    Owned { w with fetch := { w.fetch with ex := (w.fetch.ex.onEvent ev).1 } } := by
  refine h.ofFetch (r := some { w.fetch with ex := (w.fetch.ex.onEvent ev).1 }) (fun f hf => ?_) rfl
  cases hf
  exact Fetch.feeds_congr (Exchanges.owner_onEvent _ ev) (fun _ => rfl) (fun _ => rfl) rfl

/-- **A callback keeps the relation.** -/
theorem Owned.next {cfg : MitmCfg} {a : Callback × Answers} (h : w.Owned) (hfair : Fair w a)
    (hnext : next cfg w a = some w') : w'.Owned := by
  obtain ⟨callback, ans⟩ := a
  cases callback with
  | event ev =>
    have h' := h.onEvent ev
    simp only [Fronts.next] at hnext
    split at hnext
    · cases hnext
      exact h'
    · exact h'.ofFetch (fun f hf => (Fetch.does_onReady hf).1) hnext
    · exact h'.ofMitm (fun m hm => Mitm.keeps_onReady hm) hnext
  | acceptedFetch tcp timer =>
    refine h.ofFetch (fun f hf => ?_) hnext
    cases hf
    exact Fetch.feeds_onAccepted hfair.1 hfair.2
  | acceptedMitm tcp =>
    refine h.ofMitm (fun m hm => ?_) hnext
    cases hm
    exact Mitm.keeps_onAccepted cfg hfair
  | tcpData tcp =>
    simp only [Fronts.next] at hnext
    split at hnext
    · exact h.ofFetch (fun f hf => (Fetch.does_onTcpData hf).1) hnext
    · exact h.ofMitm (fun m hm => Mitm.keeps_onTcpData hm) hnext
  | tcpEnd tcp error buffered =>
    simp only [Fronts.next] at hnext
    split at hnext
    · refine h.ofFetch (fun f hf => ?_) hnext
      cases hf
      exact (Fetch.does_onTcpEnd _ tcp error buffered).1
    · exact h.ofMitm (fun m hm => Mitm.keeps_onTcpEnd hm) hnext
  | tcpWritable tcp =>
    simp only [Fronts.next] at hnext
    split at hnext
    · exact h.ofFetch (fun f hf => (Fetch.does_onTcpWritable hf).1) hnext
    · exact h.ofMitm (fun m hm => Mitm.keeps_pump hm) hnext
  | fetchTimer timer => exact h.ofFetch (fun f hf => Fetch.feeds_onTimer hf) hnext
  | mitmTimer tcp due => exact h.ofMitm (fun m hm => Mitm.keeps_onTimer hm) hnext
  | shutdown =>
    have h' : Owned { w with fetch := w.fetch.onShutdown } := by
      refine h.ofFetch (r := some w.fetch.onShutdown) (fun f hf => ?_) rfl
      cases hf
      exact Fetch.feeds_onShutdown _
    exact h'.ofMitm (fun m hm => Mitm.keeps_onShutdown hm) hnext

theorem owned_start : start.Owned where
  fetch := ⟨nofun, nofun, fun _ _ => ⟨nofun, nofun⟩⟩
  mitm _ := ⟨fun _ _ => ⟨nofun, fun ⟨_, hs, _⟩ => (nomatch hs)⟩, List.nodup_nil⟩

/-- The streams that hold an exchange of their connection are one. -/
theorem filter_of_bound {ex : Exchanges Owner} {c id k : ℕ} {ss : List MStream} (h : Bound ex c ss)
    (hid : ex.owner id = some (.mitm c k)) : ∃ s, s.id = k ∧ ss.filter (·.ex = some id) = [s] := by
  obtain ⟨s, hs, hk, hex⟩ := (h.owned id k).mp hid
  refine ⟨s, hk, ?_⟩
  have hall : ∀ t ∈ ss.filter (·.ex = some id), t = s := by
    intro t ht
    obtain ⟨ht, htex⟩ := List.mem_filter.mp ht
    have howner := (h.owned id t.id).mpr ⟨t, ht, rfl, of_decide_eq_true htex⟩
    have hids : t.id = s.id := by
      cases hid.symm.trans howner
      exact hk.symm
    exact List.inj_on_of_nodup_map h.nodup ht hs hids
  have hnodup : (ss.filter (·.ex = some id)).Nodup := h.nodup.of_map.filter _
  have hmem : s ∈ ss.filter (·.ex = some id) := List.mem_filter.mpr ⟨hs, decide_eq_true hex⟩
  refine List.perm_singleton.mp ((List.perm_ext_iff_of_nodup hnodup (List.nodup_singleton s)).mpr fun t => ?_)
  rw [List.mem_singleton]
  exact ⟨hall t, fun ht => ht ▸ hmem⟩

/-- **Exchanges and owners are one to one**, between any two callbacks. An exchange of a fetch is the
one that the open entry of its socket holds; an exchange of a stream is held by exactly one
stream of the live connection, the one it is of; and a stream of a live connection that holds
an exchange holds one of its own that is in the table. -/
theorem exchanges_owned {cfg : MitmCfg} {w : Fronts} {as : List (Callback × Answers)}
    (hrun : Run (next cfg) Fair start as w) :
    (∀ id tcp, w.fetch.ex.owner id = some (.fetch tcp) ↔ w.fetch.Opened tcp id) ∧
    (∀ id c k, w.fetch.ex.owner id = some (.mitm c k) ↔ ∃ sni ss s, w.conns.lookup c = some (.live sni ss) ∧
      s.id = k ∧ ss.filter (·.ex = some id) = [s]) ∧
    (∀ c sni ss s id, w.conns.lookup c = some (.live sni ss) → s ∈ ss → s.ex = some id →
      w.fetch.ex.owner id = some (.mitm c s.id)) := by
  have h : w.Owned := hrun.invariant (fun _ _ _ hinv hfair hnext => hinv.next hfair hnext) owned_start
  have hstream : ∀ c sni ss s id, w.conns.lookup c = some (.live sni ss) → s ∈ ss → s.ex = some id →
      w.fetch.ex.owner id = some (.mitm c s.id) := by
    intro c sni ss s id hlive hs hid
    have hbound := h.mitm c
    rw [Mitm.streams_of_lookup (m := w.mitm) hlive] at hbound
    exact (hbound.owned id s.id).mpr ⟨s, hs, rfl, hid⟩
  refine ⟨fun id tcp => ?_, fun id c k => ⟨fun hid => ?_, ?_⟩, hstream⟩
  · constructor
    · intro hid
      exact Fetch.opened_of_h3 (h.fetch.sound id tcp hid)
    · intro hopened
      exact (h.fetch.whole tcp id hopened.h3).resolve_right fun hx => (nomatch hx.1)
  · have hbound := h.mitm c
    obtain ⟨s, hs, -⟩ := (hbound.owned id k).mp hid
    cases hlookup : w.conns.lookup c with
    | none =>
      rw [Mitm.streams, mitm, hlookup] at hs
      cases hs
    | some phase =>
      rw [Mitm.streams_of_lookup (m := w.mitm) hlookup] at hbound hs
      cases phase with
      | peek => cases hs
      | closing => cases hs
      | live sni ss =>
        obtain ⟨t, hk, hfilter⟩ := filter_of_bound hbound hid
        exact ⟨sni, ss, t, rfl, hk, hfilter⟩
  · rintro ⟨sni, ss, s, hlive, hk, hfilter⟩
    have hs : s ∈ ss.filter (·.ex = some id) := hfilter ▸ List.mem_singleton_self s
    obtain ⟨hs, hid⟩ := List.mem_filter.mp hs
    rw [← hk]
    exact hstream c sni ss s id hlive hs (of_decide_eq_true hid)

/-- A fetch of `https://a.b/`, for which the transport opens request 7. -/
def fetchAnswers : Answers where
  tunnel := some 1
  parsed := .fetch (.ok (rootHead (ascii "Bearer t")))
  opened := some 7
  sent := true
  rx := []
  turns := []
  dl := ⟨[], .error .blocked, true, []⟩
  ok := true
  oks := []
  got := .wait
  passes := []
  last _ := []

/-- A browser connection that is intercepted, with a request for which the transport opens request 8. -/
def mitmAnswers : Answers :=
  { fetchAnswers with
    got := .mitm (ascii "a.b")
    passes := [⟨true, .accepts [⟨5, rootRequest, true, some 8, true⟩] none, true,
      [([⟨⟨.ok (), fun d _ => .ok d.length⟩, .pending⟩],
        ⟨false, [], .error .blocked, true, false, fun _ => .error .blocked, 0, [], fun _ => .error .blocked, true⟩)],
      false⟩] }

/-- A fetch and a stream, each with its exchange. -/
theorem exchanges_owned_two :
    ∃ w : Fronts, Run (next ⟨⟨fun _ => true, fun _ => true, fun _ => true⟩, ascii "Bearer t", 10, 10⟩) Fair start
        [(.acceptedFetch 2 0, fetchAnswers), (.tcpData 2, fetchAnswers), (.acceptedMitm 3, mitmAnswers),
          (.tcpData 3, mitmAnswers)] w ∧
      w.fetch.ex.owner 7 = some (.fetch 2) ∧ w.fetch.Opened 2 7 ∧ w.fetch.ex.owner 8 = some (.mitm 3 5) ∧
      ∃ sni ss s, w.conns.lookup 3 = some (.live sni ss) ∧ s.id = 5 ∧ ss.filter (·.ex = some 8) = [s] := by
  refine Run.exists_and (.cons ⟨rfl, rfl⟩ rfl <| .cons trivial rfl <| .cons rfl rfl <| .cons trivial rfl <| .nil _)
    fun hrun => ?_
  obtain ⟨hfetch, hmitm, -⟩ := exchanges_owned hrun
  exact ⟨rfl, (hfetch 7 2).mp rfl, rfl, (hmitm 8 3 5).mp rfl⟩

end Fronts

end MqProxy.Client
