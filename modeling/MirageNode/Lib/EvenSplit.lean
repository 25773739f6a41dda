import Mathlib.Algebra.Order.BigOperators.Group.Finset
import Mathlib.Data.Finset.Card
import Mathlib.Tactic.Linarith

/-!
# Splitting a pool evenly, twice

A pool is split over the parties that have a record, and each party's slice over
the records of that party. Both divisions round down. Nothing is overspent: the
records of one party get at most the slice (`sum_unitValue_recordsOf_le`), all of
them at most the pool (`sum_unitValue_le`), also if only some have been paid.
-/

namespace EvenSplit

open Finset

variable {ι α : Type*} [DecidableEq α] {R P : Finset ι} {party : ι → α} {slice pool : ℤ}

/-- The records of one party. -/
def recordsOf (R : Finset ι) (party : ι → α) (a : α) : Finset ι := {i ∈ R | party i = a}

/-- What one record is worth: the slice of its party split over the party's
records. -/
def unitValue (R : Finset ι) (party : ι → α) (slice : ℤ) (i : ι) : ℤ :=
  slice / #(recordsOf R party (party i))

theorem unitValue_nonneg (hslice : 0 ≤ slice) (i : ι) : 0 ≤ unitValue R party slice i :=
  Int.ediv_nonneg hslice (Int.natCast_nonneg _)

theorem sum_unitValue_recordsOf_le (hslice : 0 ≤ slice) (a : α) :
    ∑ i ∈ recordsOf R party a, unitValue R party slice i ≤ slice := by
  have hconst : ∀ i ∈ recordsOf R party a,
      unitValue R party slice i = slice / #(recordsOf R party a) := by
    intro i hi
    rw [unitValue, (mem_filter.mp hi).2]
  rw [sum_congr rfl hconst, sum_const, nsmul_eq_mul]
  rcases Nat.eq_zero_or_pos (#(recordsOf R party a)) with hzero | hpos
  · simpa [hzero] using hslice
  · exact Int.mul_ediv_self_le (by omega)

theorem sum_unitValue_le (hpool : 0 ≤ pool) (hPR : P ⊆ R) :
    ∑ i ∈ P, unitValue R party (pool / #(R.image party)) i ≤ pool := by
  have hslice : 0 ≤ pool / (#(R.image party) : ℤ) :=
    Int.ediv_nonneg hpool (Int.natCast_nonneg _)
  calc ∑ i ∈ P, unitValue R party (pool / #(R.image party)) i
      ≤ ∑ i ∈ R, unitValue R party (pool / #(R.image party)) i :=
        sum_le_sum_of_subset_of_nonneg hPR fun i _ _ => unitValue_nonneg hslice i
    _ = ∑ a ∈ R.image party, ∑ i ∈ recordsOf R party a,
          unitValue R party (pool / #(R.image party)) i :=
        (sum_fiberwise_of_maps_to (fun i hi => mem_image_of_mem party hi) _).symm
    _ ≤ ∑ _a ∈ R.image party, pool / #(R.image party) :=
        sum_le_sum fun a _ => sum_unitValue_recordsOf_le hslice a
    _ ≤ pool := by
        rw [sum_const, nsmul_eq_mul]
        rcases Nat.eq_zero_or_pos (#(R.image party)) with hzero | hpos
        · simpa [hzero] using hpool
        · exact Int.mul_ediv_self_le (by omega)

theorem mem_recordsOf {i : ι} {a : α} : i ∈ recordsOf R party a ↔ i ∈ R ∧ party i = a := mem_filter

/-- The parties that have a record are those whose record set is not empty. -/
theorem mem_image_iff_card_pos {a : α} : a ∈ R.image party ↔ 0 < #(recordsOf R party a) := by
  rw [card_pos, mem_image]
  exact ⟨fun ⟨i, hi, ha⟩ => ⟨i, mem_recordsOf.mpr ⟨hi, ha⟩⟩,
    fun ⟨i, hi⟩ => ⟨i, mem_recordsOf.mp hi⟩⟩

/-- Leaving one party out of the count, and counting it if it has a record. -/
theorem card_image_eq_erase (a : α) :
    #(R.image party) = #((R.image party).erase a) +
      if #(recordsOf R party a) > 0 then 1 else 0 := by
  split
  · next hpos => rw [card_erase_add_one (mem_image_iff_card_pos.mpr hpos)]
  · next hzero => rw [erase_eq_of_notMem fun hmem =>
      hzero (mem_image_iff_card_pos.mp hmem), add_zero]

section Insert

variable [DecidableEq ι] {i : ι}

/-- A new record counts for its party. -/
theorem card_recordsOf_insert_self (hi : i ∉ R) :
    #(recordsOf (insert i R) party (party i)) = #(recordsOf R party (party i)) + 1 := by
  unfold recordsOf
  rw [filter_insert, if_pos rfl, card_insert_of_notMem fun h => hi (mem_filter.mp h).1]

/-- A new record counts for nobody else. -/
theorem recordsOf_insert_of_ne {a : α} (h : party i ≠ a) :
    recordsOf (insert i R) party a = recordsOf R party a := by
  unfold recordsOf
  rw [filter_insert, if_neg h]

theorem erase_image_insert (i : ι) (R : Finset ι) :
    ((insert i R).image party).erase (party i) = (R.image party).erase (party i) := by
  rw [image_insert, erase_insert_eq_erase]

end Insert

end EvenSplit
