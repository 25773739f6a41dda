import MirageNode.SafeMath
import Mathlib.Tactic.Ring

/-!
# The epoch grid

`types/creator_epoch.go`. A schedule numbers consecutive intervals of
`epochSeconds` seconds, starting with `originEpoch` at `originUnix`. Epoch ids
and instants are `int64` in the source; the conversions check every range and
return an error outside it.

`gridStart` and `gridEpoch` are the two maps without the range checks. They
form a Galois connection (`gridStart_le_iff`), which is what the clock's
arguments use; `epochAt_eq_ok` and `epochStart_eq_ok` say that a successful
checked conversion is the unchecked one.
-/

namespace MirageNode

open Fallible

structure CreatorSchedule where
  originEpoch : ℤ
  originUnix : ℤ
  epochSeconds : ℕ
deriving DecidableEq, Repr

def secondsPerUTCDay : ℕ := 86400

namespace CreatorSchedule

def epochAt (s : CreatorSchedule) (unix : ℤ) : Except CoreError ℤ := do
  failIf (unix < 0) .epochTimeNegative
  failIf (s.originUnix < 0 ∨ s.originEpoch < 0) .scheduleOriginNegative
  failIf (unix < s.originUnix) .epochTimeBeforeOrigin
  failIf (s.epochSeconds = 0 ∨ (s.epochSeconds : ℤ) > maxInt64)
    (.epochSecondsOutOfRange s.epochSeconds)
  let steps := (unix - s.originUnix).tdiv s.epochSeconds
  checkedAddInt64 s.originEpoch steps

def epochStart (s : CreatorSchedule) (epoch : ℤ) : Except CoreError ℤ := do
  failIf (epoch < 0) .epochNegative
  failIf (s.originUnix < 0 ∨ s.originEpoch < 0) .scheduleOriginNegative
  failIf (epoch < s.originEpoch) .epochBeforeOrigin
  failIf (s.epochSeconds = 0 ∨ (s.epochSeconds : ℤ) > maxInt64)
    (.epochSecondsOutOfRange s.epochSeconds)
  let offset := epoch - s.originEpoch
  let delta ← checkedMulInt64 offset s.epochSeconds
  checkedAddInt64 s.originUnix delta

def epochEnd (s : CreatorSchedule) (epoch : ℤ) : Except CoreError ℤ := do
  failIf (epoch = maxInt64) .epochEndOverflow
  s.epochStart (epoch + 1)

end CreatorSchedule

def creatorEpochFromUnix (unix : ℤ) (epochSeconds : ℕ) : Except CoreError ℤ :=
  (CreatorSchedule.mk 0 0 epochSeconds).epochAt unix

def creatorClaimDeadline (settledUnix : ℤ) (claimWindowDays : ℕ) : Except CoreError ℤ := do
  let window ← checkedMulUint64 claimWindowDays secondsPerUTCDay
  failIf ((window : ℤ) > maxInt64) .claimWindowOverflow
  checkedAddInt64 settledUnix window

variable {s : CreatorSchedule} {epoch unix : ℤ}

namespace CreatorSchedule

/-- Where an epoch starts on the grid, without range checks. -/
def gridStart (s : CreatorSchedule) (epoch : ℤ) : ℤ :=
  s.originUnix + (epoch - s.originEpoch) * s.epochSeconds

/-- The epoch an instant falls into, without range checks. -/
def gridEpoch (s : CreatorSchedule) (unix : ℤ) : ℤ :=
  s.originEpoch + (unix - s.originUnix) / s.epochSeconds

/-- A usable grid: a non-negative origin and an interval that fits `int64`. -/
structure Valid (s : CreatorSchedule) : Prop where
  originEpoch_nonneg : 0 ≤ s.originEpoch
  originUnix_nonneg : 0 ≤ s.originUnix
  seconds_pos : 0 < s.epochSeconds
  seconds_le : (s.epochSeconds : ℤ) ≤ maxInt64

theorem Valid.seconds_cast_pos (h : s.Valid) : (0 : ℤ) < s.epochSeconds := by
  exact_mod_cast h.seconds_pos

/-- An epoch has started exactly when the instant's own epoch is not before it. -/
theorem gridStart_le_iff (h : s.Valid) : s.gridStart epoch ≤ unix ↔ epoch ≤ s.gridEpoch unix := by
  rw [gridStart, gridEpoch, ← sub_le_iff_le_add', Int.le_ediv_iff_mul_le h.seconds_cast_pos,
    ← le_sub_iff_add_le']

theorem lt_gridStart_iff (h : s.Valid) : unix < s.gridStart epoch ↔ s.gridEpoch unix < epoch := by
  rw [← not_le, ← not_le, gridStart_le_iff h]

theorem gridStart_lt (hs : s.Valid) {e e' : ℤ} (h : e < e') : s.gridStart e < s.gridStart e' := by
  have := mul_lt_mul_of_pos_right (sub_lt_sub_right h s.originEpoch) hs.seconds_cast_pos
  rw [gridStart, gridStart]
  linarith

/-- The start of an epoch falls into that epoch. -/
theorem gridEpoch_gridStart (h : s.Valid) (epoch : ℤ) :
    s.gridEpoch (s.gridStart epoch) = epoch := by
  refine le_antisymm (Int.le_of_lt_add_one ?_) ((gridStart_le_iff h).mp le_rfl)
  exact (lt_gridStart_iff h).mp (gridStart_lt h (lt_add_one epoch))

theorem originUnix_le_gridStart (s : CreatorSchedule) (h : s.originEpoch ≤ epoch) :
    s.originUnix ≤ s.gridStart epoch :=
  le_add_of_nonneg_right (mul_nonneg (sub_nonneg.mpr h) (Int.natCast_nonneg _))

theorem originEpoch_le_gridEpoch (s : CreatorSchedule) (h : s.originUnix ≤ unix) :
    s.originEpoch ≤ s.gridEpoch unix :=
  le_add_of_nonneg_right (Int.ediv_nonneg (sub_nonneg.mpr h) (Int.natCast_nonneg _))

theorem epochAt_eq_ok {e : ℤ} :
    s.epochAt unix = .ok e ↔ s.Valid ∧ s.originUnix ≤ unix ∧ s.gridEpoch unix ≤ maxInt64 ∧
      e = s.gridEpoch unix := by
  simp only [epochAt, bind_eq_ok, failIf_eq_ok, exists_const, checkedAddInt64_eq_ok, not_or, not_lt,
    gt_iff_lt]
  constructor
  · rintro ⟨-, ⟨hou, hoe⟩, hle, ⟨hsec, hmax⟩, -, -, hbound, rfl⟩
    rw [Int.tdiv_eq_ediv_of_nonneg (sub_nonneg.mpr hle)] at hbound ⊢
    exact ⟨⟨hoe, hou, Nat.pos_of_ne_zero hsec, hmax⟩, hle, hbound, rfl⟩
  · rintro ⟨hs, hle, hbound, rfl⟩
    rw [Int.tdiv_eq_ediv_of_nonneg (sub_nonneg.mpr hle)]
    exact ⟨hs.originUnix_nonneg.trans hle, ⟨hs.originUnix_nonneg, hs.originEpoch_nonneg⟩, hle,
      ⟨hs.seconds_pos.ne', hs.seconds_le⟩, hs.originEpoch_nonneg,
      Int.ediv_nonneg (sub_nonneg.mpr hle) hs.seconds_cast_pos.le, hbound, rfl⟩

theorem epochStart_eq_ok {t : ℤ} :
    s.epochStart epoch = .ok t ↔ s.Valid ∧ s.originEpoch ≤ epoch ∧ s.gridStart epoch ≤ maxInt64 ∧
      t = s.gridStart epoch := by
  simp only [epochStart, bind_eq_ok, failIf_eq_ok, exists_const, checkedAddInt64_eq_ok,
    checkedMulInt64_eq_ok, not_or, not_lt, gt_iff_lt]
  constructor
  · rintro ⟨-, ⟨hou, hoe⟩, hle, ⟨hsec, hmax⟩, _, ⟨-, -, -, rfl⟩, -, -, hbound, rfl⟩
    exact ⟨⟨hoe, hou, Nat.pos_of_ne_zero hsec, hmax⟩, hle, hbound, rfl⟩
  · rintro ⟨hs, hle, hbound, rfl⟩
    have hoff : 0 ≤ epoch - s.originEpoch := sub_nonneg.mpr hle
    have hdelta := mul_nonneg hoff hs.seconds_cast_pos.le
    have hsmall : (epoch - s.originEpoch) * s.epochSeconds ≤ maxInt64 := by
      have := hs.originUnix_nonneg
      rw [gridStart] at hbound
      linarith
    exact ⟨hs.originEpoch_nonneg.trans hle, ⟨hs.originUnix_nonneg, hs.originEpoch_nonneg⟩, hle,
      ⟨hs.seconds_pos.ne', hs.seconds_le⟩, _,
      ⟨hoff, hs.seconds_cast_pos.le, hsmall, rfl⟩, hs.originUnix_nonneg, hdelta, hbound, rfl⟩

theorem epochEnd_eq_ok {t : ℤ} :
    s.epochEnd epoch = .ok t ↔ epoch ≠ maxInt64 ∧ s.Valid ∧ s.originEpoch ≤ epoch + 1 ∧
      s.gridStart (epoch + 1) ≤ maxInt64 ∧ t = s.gridStart (epoch + 1) := by
  simp only [epochEnd, bind_eq_ok, failIf_eq_ok, exists_const, epochStart_eq_ok, ne_eq]

end CreatorSchedule

end MirageNode
