import Mathlib.Data.Finset.Basic
import Mathlib.Data.List.Count

/-!
# Reservations

A server keeps a table of numbers that stand for reserved places. Each is reserved under a
new number, and leaves the table when it is settled. Some numbers are refused instead: they are
settled without ever having been in the table. `Accounts` relates the table to the history of what
happened (`reserve` and `settle` say which number an event reserves or settles): a reserved
place is settled exactly once when it has left the table, and not before (`Accounts.count`).
-/

namespace MqProxy.Library

variable {ε : Type} {reserve settle : ε → Option ℕ} {table : Finset ℕ} {refused : List ℕ} {next : ℕ} {h : List ε}

/-- How often a number was settled. -/
def settledIn (settle : ε → Option ℕ) (op : ℕ) (h : List ε) : ℕ := h.countP fun e => settle e = some op

@[simp] theorem settledIn_append (op : ℕ) (h h' : List ε) :
    settledIn settle op (h ++ h') = settledIn settle op h + settledIn settle op h' :=
  List.countP_append

theorem settledIn_none (hh : ∀ e ∈ h, settle e = none) (op : ℕ) : settledIn settle op h = 0 := by
  rw [settledIn, List.countP_eq_zero]
  intro e he
  simp [hh e he]

theorem settledIn_singleton {op : ℕ} {e : ε} (he : settle e = some op) (x : ℕ) :
    settledIn settle x [e] = if x = op then 1 else 0 := by
  simp [settledIn, he, List.countP_singleton, eq_comm]

/-- **The table and the history agree**; `refused` has the numbers that were refused and are still to be
settled, and `next` is the next number. What is reserved is counted as what is settled. -/
structure Accounts (reserve settle : ε → Option ℕ) (table : Finset ℕ) (refused : List ℕ) (next : ℕ) (h : List ε) :
    Prop where
  held : ∀ op ∈ table, 0 < settledIn reserve op h ∧ settledIn settle op h = 0
  left : ∀ op ∉ table, 0 < settledIn reserve op h → settledIn settle op h = 1
  fresh : ∀ op, next ≤ op → settledIn reserve op h = 0 ∧ settledIn settle op h = 0
  refusals : ∀ op ∈ refused, op < next ∧ settledIn reserve op h = 0

namespace Accounts

theorem nil (reserve settle : ε → Option ℕ) (next : ℕ) : Accounts reserve settle ∅ [] next [] where
  held := by simp
  left := by simp [settledIn]
  fresh := by simp [settledIn]
  refusals := by simp

variable (ha : Accounts reserve settle table refused next h)
include ha

/-- **Each reserved place is settled exactly once**, when it has left the table. -/
theorem count {op : ℕ} (hop : ∃ e ∈ h, reserve e = some op) :
    settledIn settle op h = if op ∈ table then 0 else 1 := by
  have hpos : 0 < settledIn reserve op h := List.countP_pos_iff.mpr (by simpa using hop)
  split
  · next hmem => exact (ha.held op hmem).2
  · next hmem => exact ha.left op hmem hpos

theorem lt_of_mem {op : ℕ} (hop : op ∈ table) : op < next := by
  by_contra hle
  exact absurd (ha.fresh op (Nat.le_of_not_lt hle)).1 (ha.held op hop).1.ne'

/-- What happens besides; numbers may be used up, and some that were refused be settled elsewhere. -/
theorem grow {refused' : List ℕ} {next' : ℕ} {es : List ε}
    (hnext : next ≤ next') (hrefused : ∀ op ∈ refused', op ∈ refused)
    (hes : ∀ e ∈ es, reserve e = none ∧ settle e = none) : Accounts reserve settle table refused' next' (h ++ es) := by
  have hr := settledIn_none fun e he => (hes e he).1
  have hs := settledIn_none fun e he => (hes e he).2
  refine ⟨fun op hop => ?_, fun op hop => ?_, fun op hop => ?_, fun op hop => ?_⟩ <;>
    simp only [settledIn_append, hr, hs, Nat.add_zero]
  · exact ha.held op hop
  · exact ha.left op hop
  · exact ha.fresh op (hnext.trans hop)
  · exact ⟨(ha.refusals op (hrefused op hop)).1.trans_le hnext, (ha.refusals op (hrefused op hop)).2⟩

/-- The order of the refused numbers does not matter. -/
theorem reorder {refused' : List ℕ}
    (hrefused : ∀ op ∈ refused', op ∈ refused) : Accounts reserve settle table refused' next h :=
  ⟨ha.held, ha.left, ha.fresh, fun op hop => ha.refusals op (hrefused op hop)⟩

/-- A place is reserved under the next number. -/
theorem reserve_next {e : ε} (hres : reserve e = some next)
    (hsettle : settle e = none) : Accounts reserve settle (insert next table) refused (next + 1) (h ++ [e]) := by
  have hr := settledIn_singleton hres
  have hs := settledIn_none (h := [e]) (by simpa using hsettle)
  obtain ⟨hheld, hleft, hfresh, hrefusals⟩ := ha
  constructor <;> grind [settledIn_append]

/-- The next number is refused. -/
theorem refuse_next :
    Accounts reserve settle table (refused ++ [next]) (next + 1) h := by
  obtain ⟨hheld, hleft, hfresh, hrefusals⟩ := ha
  exact ⟨hheld, hleft, by grind, by grind⟩

/-- A reserved place is settled, and leaves the table. -/
theorem settle_one {op next' : ℕ} {e : ε} (hop : op ∈ table)
    (hnext : next ≤ next') (hres : reserve e = none) (hsettle : settle e = some op) :
    Accounts reserve settle (table.erase op) refused next' (h ++ [e]) := by
  have hr := settledIn_none (h := [e]) (by simpa using hres)
  have hs := settledIn_singleton hsettle
  have hlt := ha.lt_of_mem hop
  obtain ⟨hheld, hleft, hfresh, hrefusals⟩ := ha
  constructor <;> grind [settledIn_append]

omit ha

/-- A refused number is settled. -/
theorem settle_refused {op : ℕ} {e : ε} (ha : Accounts reserve settle table (op :: refused) next h)
    (hres : reserve e = none) (hsettle : settle e = some op) :
    Accounts reserve settle table refused next (h ++ [e]) := by
  have hr := settledIn_none (h := [e]) (by simpa using hres)
  have hs := settledIn_singleton hsettle
  obtain ⟨hheld, hleft, hfresh, hrefusals⟩ := ha
  constructor <;> grind [settledIn_append]

end Accounts

end MqProxy.Library
