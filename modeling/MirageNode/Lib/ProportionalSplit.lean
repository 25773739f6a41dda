import Mathlib.Algebra.Order.BigOperators.Group.List
import Mathlib.Algebra.BigOperators.Ring.List
import Mathlib.Data.List.Forall2
import Mathlib.Tactic.Linarith
import Mathlib.Tactic.Ring

/-!
# Splitting a pool by weight

Every party gets the floor of its proportional part, and one party gets what the
floors leave over. The floors never overspend the pool (`sum_floors_le`), so the
left-over is not negative; handing it out makes the parts add up to the pool
(`sum_topUp`) and takes nothing from anybody (`forall₂_topUp`).
-/

namespace ProportionalSplit

/-- The floor of each party's proportional part of `pool`. -/
def floors (pool total : ℤ) (weights : List ℤ) : List ℤ := weights.map fun w => w * pool / total

/-- The parts with what they miss of `pool` added at position `i`. -/
def topUp (pool : ℤ) (i : ℕ) (parts : List ℤ) : List ℤ :=
  parts.set i (parts.getD i 0 + (pool - parts.sum))

variable {pool total : ℤ} {weights parts : List ℤ} {i : ℕ}

theorem floors_nonneg (hpool : 0 ≤ pool) (htotal : 0 ≤ total) (hweights : ∀ w ∈ weights, 0 ≤ w) :
    ∀ x ∈ floors pool total weights, 0 ≤ x := by
  intro x hx
  obtain ⟨w, hw, rfl⟩ := List.mem_map.mp hx
  exact Int.ediv_nonneg (mul_nonneg (hweights w hw) hpool) htotal

theorem mul_sum_floors_le (htotal : 0 < total) :
    total * (floors pool total weights).sum ≤ weights.sum * pool := by
  induction weights with
  | nil => simp [floors]
  | cons w ws ih =>
    have hhead : total * (w * pool / total) ≤ w * pool := Int.mul_ediv_self_le htotal.ne'
    simp only [floors, List.map_cons, List.sum_cons] at ih ⊢
    linarith [mul_add total (w * pool / total) (ws.map fun w => w * pool / total).sum,
      add_mul w ws.sum pool]

theorem sum_floors_le (htotal : 0 < total) (hsum : weights.sum = total) :
    (floors pool total weights).sum ≤ pool := by
  have hle : total * (floors pool total weights).sum ≤ total * pool :=
    hsum ▸ mul_sum_floors_le (hsum ▸ htotal)
  exact le_of_mul_le_mul_left hle htotal

theorem sum_set (h : i < parts.length) (x : ℤ) :
    (parts.set i x).sum = parts.sum - parts.getD i 0 + x := by
  induction parts generalizing i with
  | nil => exact absurd h (Nat.not_lt_zero i)
  | cons y ys ih =>
    cases i with
    | zero => simp; ring
    | succ i =>
      have hys := ih (Nat.lt_of_succ_lt_succ h)
      simp only [List.set_cons_succ, List.sum_cons, List.getD_cons_succ, hys]
      ring

theorem sum_topUp (h : i < parts.length) : (topUp pool i parts).sum = pool := by
  rw [topUp, sum_set h]
  ring

theorem forall₂_set {α : Type*} {R : α → ℤ → Prop} {as : List α} (h : List.Forall₂ R as parts)
    {x : ℤ} (hx : ∀ a, as[i]? = some a → R a (parts.getD i 0) → R a x) :
    List.Forall₂ R as (parts.set i x) := by
  induction h generalizing i with
  | nil => exact .nil
  | cons hhead htail ih =>
    cases i with
    | zero => exact .cons (hx _ rfl hhead) htail
    | succ i => exact .cons hhead (ih hx)

/-- Topping up keeps a relation that allows the party at `i` to get more. -/
theorem forall₂_topUp {α : Type*} {R : α → ℤ → Prop} {as : List α} (h : List.Forall₂ R as parts)
    (hsum : parts.sum ≤ pool) (hmore : ∀ a, as[i]? = some a → ∀ x y, R a x → x ≤ y → R a y) :
    List.Forall₂ R as (topUp pool i parts) :=
  forall₂_set h fun a ha hold => hmore a ha _ _ hold (by linarith)

end ProportionalSplit
