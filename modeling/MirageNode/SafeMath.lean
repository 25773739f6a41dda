import MirageNode.Errors
import MirageNode.Lib.Fallible
import Mathlib.Tactic.Linarith

/-!
# Checked arithmetic

`types/safe_math.go`: machine integers are unbounded here, and the checks that
keep them in range are explicit. Each operation either returns the exact
result or an error, so a success pins the value and its range
(`checkedAddInt64_eq_ok` and its siblings). An `sdkmath.Int` panics above 256
bits; `checkedInt` is that check, with the panic as an error.
-/

namespace MirageNode

open Fallible

def maxInt64 : ℤ := 2 ^ 63 - 1

def maxUint64 : ℕ := 2 ^ 64 - 1

def checkedUint64ToInt64 (v : ℕ) : Except CoreError ℤ := do
  failIf ((v : ℤ) > maxInt64) (.valueOverflowsInt64 v)
  return v

def checkedMulUint64 (a b : ℕ) : Except CoreError ℕ :=
  if a = 0 ∨ b = 0 then .ok 0
  else do
    failIf (a > maxUint64 / b) (.mulOverflowsUint64 a b)
    return a * b

def checkedAddUint64 (a b : ℕ) : Except CoreError ℕ := do
  failIf (a > maxUint64 - b) (.addOverflowsUint64 a b)
  return a + b

def checkedMulInt64 (a b : ℤ) : Except CoreError ℤ := do
  failIf (a < 0 ∨ b < 0) (.mulNegativeOperands a b)
  if a = 0 ∨ b = 0 then .ok 0
  else do
    failIf (a > maxInt64 / b) (.mulOverflowsInt64 a b)
    return a * b

def checkedAddInt64 (a b : ℤ) : Except CoreError ℤ := do
  failIf (a < 0 ∨ b < 0) (.addNegativeOperands a b)
  failIf (a > maxInt64 - b) (.addOverflowsInt64 a b)
  return a + b

/-- The result of an `sdkmath.Int` operation. -/
def checkedInt (x : ℤ) : Except CoreError ℤ := do
  failIf (x.natAbs ≥ 2 ^ 256) .intOverflow
  return x

theorem checkedInt_eq_ok {x r : ℤ} : checkedInt x = .ok r ↔ x.natAbs < 2 ^ 256 ∧ x = r := by
  simp only [checkedInt, bind_eq_ok, failIf_eq_ok, pure_eq_ok, exists_const, ge_iff_le, not_le]

/-- A result that is not negative fails only when it is too large. -/
theorem ensures_checkedInt_bind {α : Type} {x : ℤ} {f : ℤ → Except CoreError α} {post : α → Prop}
    {large : Prop} (hx : 0 ≤ x) (hlarge : 2 ^ 256 ≤ x → large)
    (hf : Ensures (f x) post fun _ => large) :
    Ensures (checkedInt x >>= f) post fun _ => large := by
  rw [checkedInt]
  refine Ensures.bind (.failIf_bind (fun h => hlarge ?_) fun _ => rfl) fun y hy => ?_
  · omega
  · subst hy
    exact hf

theorem checkedUint64ToInt64_eq_ok {v : ℕ} {r : ℤ} :
    checkedUint64ToInt64 v = .ok r ↔ (v : ℤ) ≤ maxInt64 ∧ r = v := by
  simp only [checkedUint64ToInt64, bind_eq_ok, failIf_eq_ok, pure_eq_ok, exists_const, gt_iff_lt,
    not_lt, @eq_comm _ r]

theorem checkedAddUint64_eq_ok {a b r : ℕ} :
    checkedAddUint64 a b = .ok r ↔ a ≤ maxUint64 - b ∧ r = a + b := by
  simp only [checkedAddUint64, bind_eq_ok, failIf_eq_ok, pure_eq_ok, exists_const,
    gt_iff_lt, not_lt, @eq_comm _ r]

theorem checkedMulUint64_ok {a b r : ℕ} (h : checkedMulUint64 a b = .ok r) : r = a * b := by
  unfold checkedMulUint64 at h
  split at h
  next hzero =>
    obtain rfl := Except.ok.inj h
    rcases hzero with rfl | rfl <;> simp
  next =>
    simp only [bind_eq_ok, failIf_eq_ok, pure_eq_ok, exists_const] at h
    exact h.2.symm

theorem checkedAddInt64_eq_ok {a b r : ℤ} :
    checkedAddInt64 a b = .ok r ↔ 0 ≤ a ∧ 0 ≤ b ∧ a + b ≤ maxInt64 ∧ r = a + b := by
  simp only [checkedAddInt64, bind_eq_ok, failIf_eq_ok, pure_eq_ok, not_or, not_lt,
    exists_const, gt_iff_lt]
  constructor
  · rintro ⟨⟨ha, hb⟩, hle, rfl⟩
    exact ⟨ha, hb, by omega, rfl⟩
  · rintro ⟨ha, hb, hle, rfl⟩
    exact ⟨⟨ha, hb⟩, by omega, rfl⟩

theorem checkedMulInt64_eq_ok {a b r : ℤ} :
    checkedMulInt64 a b = .ok r ↔ 0 ≤ a ∧ 0 ≤ b ∧ a * b ≤ maxInt64 ∧ r = a * b := by
  simp only [checkedMulInt64, bind_eq_ok, failIf_eq_ok, not_or, not_lt, exists_const, and_assoc]
  refine and_congr_right fun ha => and_congr_right fun hb => ?_
  by_cases hzero : a = 0 ∨ b = 0
  · have hprod : a * b = 0 := mul_eq_zero.mpr hzero
    rw [if_pos hzero, hprod]
    simp [maxInt64, eq_comm]
  · have hbpos : 0 < b := lt_of_le_of_ne hb fun h => hzero (.inr h.symm)
    rw [if_neg hzero]
    simp only [bind_eq_ok, failIf_eq_ok, pure_eq_ok, exists_const, gt_iff_lt, not_lt,
      Int.le_ediv_iff_mul_le hbpos, @eq_comm _ r]

end MirageNode
