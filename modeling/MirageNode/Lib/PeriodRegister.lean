import MirageNode.Lib.OrderedMap
import Mathlib.Logic.Function.Basic
import Mathlib.Data.Set.Insert

/-!
# Registers with periods

Items are filed under the period that is current, and a reservation remembers for
each item where it was filed. An item can be withdrawn while its period is current.
Files of past periods may be dropped later; the reservations stay.

`Consistent dropped r` is the invariant: a filed item's reservation names its period
and value, so that no item is filed twice, and the count of every period that was not
dropped is right. Each operation keeps it (`Consistent.advance`, `Consistent.file`,
`Consistent.withdraw`, `Consistent.drop`).
-/

namespace PeriodRegister

open OrderedStore OrderedMap Function

variable {κ ν : Type*} [LinearOrder κ]

/-- Items by period, the reservations, and a counter for each period. -/
@[ext] structure Register (κ ν : Type*) [LinearOrder κ] where
  period : ℤ
  filed : ℤ → OrderedMap κ ν
  reserved : κ → Option (ℤ × ν)
  count : ℤ → ℕ

namespace Register

/-- Files an item under the current period. -/
def file (r : Register κ ν) (k : κ) (v : ν) : Register κ ν :=
  { r with
    filed := update r.filed r.period ((r.filed r.period).set k v)
    reserved := update r.reserved k (some (r.period, v))
    count := update r.count r.period (r.count r.period + 1) }

/-- Takes an item of the current period back. -/
def withdraw (r : Register κ ν) (k : κ) : Register κ ν :=
  { r with
    filed := update r.filed r.period ((r.filed r.period).erase k)
    reserved := update r.reserved k none
    count := update r.count r.period (r.count r.period - 1) }

end Register

/-- Every filed item is reserved where it is filed, a reservation for the current
period is filed, and the counters are right except where files were dropped. -/
structure Consistent (dropped : Set ℤ) (r : Register κ ν) : Prop where
  names : ∀ p k v, (r.filed p).get k = some v → r.reserved k = some (p, v)
  past : ∀ k p v, r.reserved k = some (p, v) → p ≤ r.period
  present : ∀ k v, r.reserved k = some (r.period, v) → (r.filed r.period).get k = some v
  counted : ∀ p, p ∉ dropped → r.count p = (r.filed p).size
  behind : ∀ p ∈ dropped, p < r.period

namespace Consistent

variable {dropped : Set ℤ} {r : Register κ ν}

variable (h : Consistent dropped r)

include h

/-- No item is filed under two periods. -/
theorem unique {p p' : ℤ} {k : κ} {v v' : ν}
    (hp : (r.filed p).get k = some v) (hp' : (r.filed p').get k = some v') : p = p' := by
  have heq := (h.names p k v hp).symm.trans (h.names p' k v' hp')
  exact congrArg Prod.fst (Option.some.inj heq)

theorem advance {p : ℤ} (hle : r.period ≤ p) : Consistent dropped { r with period := p } where
  names := h.names
  past := fun k q v hq => (h.past k q v hq).trans hle
  present := fun k v hres => by
    -- a reservation for the new period can only be one for the old
    have heq : p = r.period := le_antisymm (h.past k p v hres) hle
    subst heq
    exact h.present k v hres
  counted := h.counted
  behind := fun q hq => (h.behind q hq).trans_le hle

theorem current_kept : r.period ∉ dropped :=
  fun hin => lt_irrefl _ (h.behind _ hin)

theorem not_filed {k : κ} (hfree : r.reserved k = none) (p : ℤ) : (r.filed p).get k = none := by
  cases hget : (r.filed p).get k with
  | none => rfl
  | some v =>
    rw [h.names p k v hget] at hfree
    cases hfree

/-- A write about one item to the file of the current period, its reservation and its count. -/
theorem replace {k : κ} {m : OrderedMap κ ν}
    (hothers : ∀ k' ≠ k, m.get k' = (r.filed r.period).get k')
    (helsewhere : ∀ p ≠ r.period, (r.filed p).get k = none) :
    Consistent dropped { r with
      filed := update r.filed r.period m
      reserved := update r.reserved k ((m.get k).map fun v => (r.period, v))
      count := update r.count r.period m.size } where
  names := fun p k' v' hget => by
    dsimp only at hget ⊢
    rcases eq_or_ne p r.period with rfl | hp
    · rw [update_self] at hget
      rcases eq_or_ne k' k with rfl | hne
      · rw [update_self, hget]
        rfl
      · rw [update_of_ne hne]
        exact h.names _ k' v' (hothers k' hne ▸ hget)
    · rw [update_of_ne hp] at hget
      have hne : k' ≠ k := by
        rintro rfl
        rw [helsewhere p hp] at hget
        cases hget
      rw [update_of_ne hne]
      exact h.names p k' v' hget
  past := fun k' p v' hres => by
    dsimp only at hres
    rcases eq_or_ne k' k with rfl | hne
    · rw [update_self, Option.map_eq_some_iff] at hres
      obtain ⟨v, -, hv⟩ := hres
      exact (congrArg Prod.fst hv).ge
    · rw [update_of_ne hne] at hres
      exact h.past k' p v' hres
  present := fun k' v' hres => by
    dsimp only at hres ⊢
    rw [update_self]
    rcases eq_or_ne k' k with rfl | hne
    · rw [update_self, Option.map_eq_some_iff] at hres
      obtain ⟨v, hv, heq⟩ := hres
      exact hv.trans (congrArg (some ∘ Prod.snd) heq)
    · rw [update_of_ne hne] at hres
      rw [hothers k' hne]
      exact h.present k' v' hres
  counted := fun p hp => by
    dsimp only
    rcases eq_or_ne p r.period with rfl | hne
    · rw [update_self, update_self]
    · rw [update_of_ne hne, update_of_ne hne, h.counted p hp]
  behind := h.behind

theorem file {k : κ} (v : ν) (hfree : r.reserved k = none) : Consistent dropped (r.file k v) := by
  have hfiled := h.replace (fun k' hne => get_set_of_ne v hne) fun p _ => h.not_filed hfree p
  rw [get_set_self, size_set_of_none v (h.not_filed hfree _),
    ← h.counted _ h.current_kept] at hfiled
  exact hfiled

theorem withdraw {k : κ} {v : ν} (hres : r.reserved k = some (r.period, v)) :
    Consistent dropped (r.withdraw k) := by
  have hfiled := h.present k v hres
  have helsewhere : ∀ p ≠ r.period, (r.filed p).get k = none := fun p hp =>
    Option.eq_none_iff_forall_ne_some.mpr fun v' hv' => hp (h.unique hv' hfiled)
  have hwithdrawn := h.replace (fun k' hne => get_erase_of_ne hne) helsewhere
  have hcount : r.count r.period - 1 = ((r.filed r.period).erase k).size := by
    rw [h.counted _ h.current_kept, size_of_get hfiled, Nat.add_sub_cancel]
  rw [get_erase_self, ← hcount] at hwithdrawn
  exact hwithdrawn

/-- There is something to withdraw. -/
theorem count_pos {k : κ} {v : ν}
    (hres : r.reserved k = some (r.period, v)) : 0 < r.count r.period := by
  rw [h.counted _ h.current_kept, size_of_get (h.present k v hres)]
  exact Nat.succ_pos _

/-- Files of past periods are dropped. -/
theorem drop {filed : ℤ → OrderedMap κ ν}
    (hsub : ∀ p k v, (filed p).get k = some v → (r.filed p).get k = some v)
    (hpast : ∀ p, filed p ≠ r.filed p → p < r.period) :
    Consistent (dropped ∪ {p | filed p ≠ r.filed p}) { r with filed := filed } where
  names := fun p k v hget => h.names p k v (hsub p k v hget)
  past := h.past
  present := fun k v hres => by
    have hsame : filed r.period = r.filed r.period := by
      by_contra hne
      exact lt_irrefl _ (hpast _ hne)
    show (filed r.period).get k = some v
    rw [hsame]
    exact h.present k v hres
  counted := fun p hp => by
    rw [Set.mem_union, not_or, Set.mem_ofPred_eq, not_not] at hp
    show r.count p = (filed p).size
    rw [hp.2]
    exact h.counted p hp.1
  behind := fun p hp => hp.elim (h.behind p) (hpast p)

end Consistent

end PeriodRegister
