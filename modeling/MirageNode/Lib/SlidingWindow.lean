import MirageNode.Lib.OrderedMap
import Mathlib.Algebra.BigOperators.Intervals
import Mathlib.Algebra.Order.Group.Int
import Mathlib.Data.Int.ConditionallyCompleteOrder
import Mathlib.Data.Int.Interval

/-!
# Sliding windows over counters by height

Amounts are booked under the height they occur at, the table is wiped now and then,
and a count adds up the last heights. `windowed` says from the history what such a
count should be: the amounts of the last `w` periods since the last wipe. A table
that `Tracks` the history gives that count (`Tracks.sum_eq`), and keeps tracking
when a period is added (`Tracks.advance`) and when the window is wiped
(`Tracks.wipe`).
-/

namespace SlidingWindow

open OrderedStore

variable {α : Type*} (amount : α → ℕ) (wiped : α → Bool)

/-- The amounts of the last `w` periods since the last wipe, newest period first. A
wipe takes the amount of its own period with it. -/
def windowed (w : ℕ) (past : List α) : ℕ :=
  (((past.take w).takeWhile fun a => !wiped a).map amount).sum

/-- What is left of the amount of `i` periods ago. -/
def kept : List α → ℕ → ℕ
  | [], _ => 0
  | a :: past, i =>
    if wiped a then 0
    else match i with
      | 0 => amount a
      | i + 1 => kept past i

theorem sum_kept (w : ℕ) (past : List α) :
    ∑ i ∈ Finset.range w, kept amount wiped past i = windowed amount wiped w past := by
  induction past generalizing w with
  | nil => simp [kept, windowed]
  | cons a past ih =>
    cases w with
    | zero => simp [windowed]
    | succ w =>
      have hstep := ih w
      rw [windowed] at hstep ⊢
      cases ha : wiped a with
      | true => simp [kept, ha]
      | false =>
        rw [Finset.sum_range_succ']
        simp only [kept, ha, Bool.false_eq_true, if_false, List.take_succ_cons,
          List.takeWhile_cons, Bool.not_false, if_true, List.map_cons, List.sum_cons, hstep]
        exact add_comm _ _

/-- The count stored under a height. -/
def countAt (table : OrderedMap ℤ ℕ) (h : ℤ) : ℕ := (table.get h).getD 0

theorem countAt_set (table : OrderedMap ℤ ℕ) (h h' : ℤ) (n : ℕ) :
    countAt (table.set h n) h' = if h' = h then n else countAt table h' := by
  rw [countAt, OrderedMap.get_set]
  split <;> rfl

/-- The heights from `start` to `stop`. -/
def heightsFrom (start stop : ℤ) : List ℤ :=
  (List.range (stop + 1 - start).toNat).map fun i : ℕ => start + i

theorem mem_heightsFrom {start stop h : ℤ} : h ∈ heightsFrom start stop ↔ start ≤ h ∧ h ≤ stop := by
  simp only [heightsFrom, List.mem_map, List.mem_range]
  constructor
  · rintro ⟨i, hi, rfl⟩
    omega
  · intro hh
    exact ⟨(h - start).toNat, by omega, by omega⟩

theorem countAt_eraseAll (hs : List ℤ) (table : OrderedMap ℤ ℕ) (h : ℤ) :
    countAt (hs.foldl OrderedMap.erase table) h = if h ∈ hs then 0 else countAt table h := by
  rw [countAt, OrderedMap.get_foldl_erase]
  split <;> rfl

theorem countAt_eraseAll_le {hs : List ℤ} {table : OrderedMap ℤ ℕ} {h : ℤ} {n : ℕ}
    (hle : countAt table h ≤ n) : countAt (hs.foldl OrderedMap.erase table) h ≤ n := by
  rw [countAt_eraseAll]
  split
  · exact Nat.zero_le n
  · exact hle

theorem sum_heightsFrom (f : ℤ → ℕ) (start stop : ℤ) :
    ((heightsFrom start stop).map f).sum = ∑ h ∈ Finset.Icc start stop, f h := by
  have hnodup : (heightsFrom start stop).Nodup :=
    List.nodup_range.map fun i j hij => by simpa using hij
  have hset : (heightsFrom start stop).toFinset = Finset.Icc start stop := by
    ext h
    rw [List.mem_toFinset, mem_heightsFrom, Finset.mem_Icc]
  rw [← hset, List.sum_toFinset _ hnodup]

/-- The table holds the last `w` heights of the history up to `top`, and nothing
above `top` or below height 1. -/
structure Tracks (w : ℕ) (past : List α) (top : ℤ) (table : OrderedMap ℤ ℕ) : Prop where
  recent : ∀ i < w, countAt table (top - i) = kept amount wiped past i
  above : ∀ h, top < h → countAt table h = 0
  below : ∀ h, h < 1 → countAt table h = 0

variable {amount wiped} {w : ℕ} {past : List α} {top : ℤ} {table : OrderedMap ℤ ℕ}

theorem Tracks.empty (top : ℤ) : Tracks amount wiped w [] top OrderedMap.empty :=
  ⟨fun _ _ => rfl, fun _ _ => rfl, fun _ _ => rfl⟩

/-- Adding up the stored heights of the window gives the count of the history. -/
theorem Tracks.sum_eq (h : Tracks amount wiped w past top table) {start : ℤ}
    (hstart : start = max 1 (top - w + 1)) :
    ((heightsFrom start top).map (countAt table)).sum = windowed amount wiped w past := by
  have hrange : ∑ i ∈ Finset.range w, countAt table (top - i) =
      ∑ h ∈ Finset.Icc (top - w + 1) top, countAt table h := by
    refine Finset.sum_bij (fun i _ => top - i) ?_ ?_ ?_ fun _ _ => rfl
    · intro i hi
      rw [Finset.mem_range] at hi
      rw [Finset.mem_Icc]
      omega
    · intro i _ j _ hij
      omega
    · intro h hh
      rw [Finset.mem_Icc] at hh
      exact ⟨(top - h).toNat, Finset.mem_range.mpr (by omega), by omega⟩
  have hwindow : ∑ h ∈ Finset.Icc start top, countAt table h =
      ∑ h ∈ Finset.Icc (top - w + 1) top, countAt table h := by
    refine Finset.sum_subset (Finset.Icc_subset_Icc_left (by omega)) fun h' hin hout => ?_
    rw [Finset.mem_Icc] at hin hout
    exact h.below h' (by omega)
  rw [sum_heightsFrom, hwindow, ← hrange, ← sum_kept]
  exact Finset.sum_congr rfl fun i hi => h.recent i (Finset.mem_range.mp hi)

/-- A period with its amount under the next height. -/
theorem Tracks.advance (h : Tracks amount wiped w past top table) {a : α} (ha : wiped a = false)
    (htop : 0 ≤ top) {table' : OrderedMap ℤ ℕ} (hnew : countAt table' (top + 1) = amount a)
    (hold : ∀ h, h ≠ top + 1 → countAt table' h = countAt table h) :
    Tracks amount wiped w (a :: past) (top + 1) table' := by
  refine ⟨fun i hi => ?_, fun h' hh' => ?_, fun h' hh' => ?_⟩
  · cases i with
    | zero => simpa [kept, ha] using hnew
    | succ i =>
      have hshift : top + 1 - ((i + 1 : ℕ) : ℤ) = top - i := by omega
      rw [hshift, hold _ (by omega), h.recent i (by omega)]
      simp [kept, ha]
  · rw [hold _ (by omega), h.above _ (by omega)]
  · rw [hold _ (by omega), h.below _ hh']

/-- Dropping heights that no window from `top` on reaches. -/
theorem Tracks.drop (h : Tracks amount wiped w past top table) {hs : List ℤ}
    (hold : ∀ h ∈ hs, h ≤ top - w) :
    Tracks amount wiped w past top (hs.foldl OrderedMap.erase table) := by
  refine ⟨fun i hi => ?_, fun h' hh' => ?_, fun h' hh' => ?_⟩
  · rw [countAt_eraseAll, if_neg, h.recent i hi]
    intro hmem
    have := hold _ hmem
    omega
  · rw [countAt_eraseAll, h.above h' hh', ite_self]
  · rw [countAt_eraseAll, h.below h' hh', ite_self]

/-- Wiping the window forgets the history. -/
theorem Tracks.wipe {a a' : α} (h : Tracks amount wiped w (a :: past) top table)
    (ha : wiped a' = true) {start : ℤ} (hstart : start = max 1 (top - w + 1)) :
    Tracks amount wiped w (a' :: past) top
      ((heightsFrom start top).foldl OrderedMap.erase table) := by
  refine ⟨fun i hi => ?_, fun h' hh' => ?_, fun h' hh' => ?_⟩
  · have hforgot : kept amount wiped (a' :: past) i = 0 := by simp [kept, ha]
    rw [countAt_eraseAll, hforgot]
    split
    · rfl
    next hout =>
      rw [mem_heightsFrom] at hout
      exact h.below _ (by omega)
  · rw [countAt_eraseAll, h.above h' hh', ite_self]
  · rw [countAt_eraseAll, h.below h' hh', ite_self]

end SlidingWindow
