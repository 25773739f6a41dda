import MirageNode.CreatorSchedule

/-!
# The epoch grid on machine words

`types/creator_epoch.go` and the parts of `types/safe_math.go` it calls, on the `int64` and
`uint64` words that the source computes with. `CreatorSchedule` takes these for unbounded
integers, so an operation that wraps would go unnoticed there. Here every `+`, `-`, `*`, `/`
and conversion is the wrapping one.

Read back as integers, each function is the one of `CreatorSchedule` (`epochAt_toInt`,
`epochStart_toInt`, `epochEnd_toInt`): the checks stand where they must, and no operation
wraps. What is known of the grid then holds of the words, and a failure inside the grid says
that the exact result has no word.
-/

namespace MirageNode

open Fallible Int64

/-! ## 1. Words and the integers they stand for -/

section Words

variable {a b : Int64} {x : ℤ}

/-- A signed 64-bit word can hold `x`. -/
def FitsInt64 (x : ℤ) : Prop := -2 ^ 63 ≤ x ∧ x ≤ maxInt64

theorem toInt_le_maxInt64 (a : Int64) : a.toInt ≤ maxInt64 :=
  Int.le_sub_one_of_lt a.toInt_lt

theorem toInt_maxValue_eq : Int64.maxValue.toInt = maxInt64 := toInt_maxValue

theorem neg_iff_toInt_neg : a < 0 ↔ a.toInt < 0 := by
  rw [lt_iff_toInt_lt, toInt_zero]

theorem eq_zero_iff_toInt : a = 0 ↔ a.toInt = 0 := by
  rw [← toInt_inj, toInt_zero]

/-- An integer from zero to `math.MaxInt64` is not changed by wrapping. -/
theorem bmod_of_fits (h₀ : 0 ≤ x) (hx : x ≤ maxInt64) : x.bmod (2 ^ 64) = x := by
  unfold maxInt64 at hx
  exact Int.bmod_eq_of_le (by omega) (by omega)

/-- Every integer from zero to `math.MaxInt64` has a word. -/
theorem exists_toInt_eq (h₀ : 0 ≤ x) (hx : x ≤ maxInt64) : ∃ a : Int64, a.toInt = x := by
  refine ⟨Int64.ofInt x, toInt_ofInt_of_le (by omega) ?_⟩
  unfold maxInt64 at hx
  omega

/-- Taking a non-negative word from one that is not smaller. -/
theorem toInt_sub_of_le (hb : 0 ≤ b.toInt) (h : b.toInt ≤ a.toInt) :
    (a - b).toInt = a.toInt - b.toInt := by
  have := toInt_le_maxInt64 a
  rw [toInt_sub]
  exact bmod_of_fits (by omega) (by omega)

/-- Dividing a non-negative word. -/
theorem toInt_div_of_nonneg (ha : 0 ≤ a.toInt) (hb : 0 ≤ b.toInt) :
    (a / b).toInt = a.toInt.tdiv b.toInt := by
  have hle : a.toInt / b.toInt ≤ a.toInt := Int.ediv_le_self _ ha
  rw [toInt_div, Int.tdiv_eq_ediv_of_nonneg ha]
  exact bmod_of_fits (Int.ediv_nonneg ha hb) (hle.trans (toInt_le_maxInt64 a))

/-- `int64(v)` of a `uint64` that is not above `math.MaxInt64`. -/
theorem toInt_toInt64_of_le {v : UInt64} (h : (v.toNat : ℤ) ≤ maxInt64) :
    v.toInt64.toInt = v.toNat := by
  have hbits : v.toInt64.toInt = (v.toNat : ℤ).bmod (2 ^ 64) :=
    BitVec.toInt_eq_toNat_bmod v.toBitVec
  rw [hbits]
  exact bmod_of_fits (Int.natCast_nonneg _) h

end Words

/-! ## 2. The functions -/

namespace Word

def checkedMulInt64 (a b : Int64) : Except CoreError Int64 := do
  failIf (a < 0 ∨ b < 0) (.mulNegativeOperands a.toInt b.toInt)
  if a = 0 ∨ b = 0 then .ok 0
  else do
    failIf (a > Int64.maxValue / b) (.mulOverflowsInt64 a.toInt b.toInt)
    return a * b

def checkedAddInt64 (a b : Int64) : Except CoreError Int64 := do
  failIf (a < 0 ∨ b < 0) (.addNegativeOperands a.toInt b.toInt)
  failIf (a > Int64.maxValue - b) (.addOverflowsInt64 a.toInt b.toInt)
  return a + b

structure CreatorSchedule where
  originEpoch : Int64
  originUnix : Int64
  epochSeconds : UInt64
deriving DecidableEq

namespace CreatorSchedule

def epochAt (s : CreatorSchedule) (unix : Int64) : Except CoreError Int64 := do
  failIf (unix < 0) .epochTimeNegative
  failIf (s.originUnix < 0 ∨ s.originEpoch < 0) .scheduleOriginNegative
  failIf (unix < s.originUnix) .epochTimeBeforeOrigin
  failIf (s.epochSeconds = 0 ∨ s.epochSeconds > Int64.maxValue.toUInt64)
    (.epochSecondsOutOfRange s.epochSeconds.toNat)
  let steps := (unix - s.originUnix) / s.epochSeconds.toInt64
  checkedAddInt64 s.originEpoch steps

def epochStart (s : CreatorSchedule) (epoch : Int64) : Except CoreError Int64 := do
  failIf (epoch < 0) .epochNegative
  failIf (s.originUnix < 0 ∨ s.originEpoch < 0) .scheduleOriginNegative
  failIf (epoch < s.originEpoch) .epochBeforeOrigin
  failIf (s.epochSeconds = 0 ∨ s.epochSeconds > Int64.maxValue.toUInt64)
    (.epochSecondsOutOfRange s.epochSeconds.toNat)
  let offset := epoch - s.originEpoch
  let delta ← checkedMulInt64 offset s.epochSeconds.toInt64
  checkedAddInt64 s.originUnix delta

def epochEnd (s : CreatorSchedule) (epoch : Int64) : Except CoreError Int64 := do
  failIf (epoch = Int64.maxValue) .epochEndOverflow
  s.epochStart (epoch + 1)

/-- The schedule that the words stand for. -/
def toSchedule (s : CreatorSchedule) : MirageNode.CreatorSchedule :=
  ⟨s.originEpoch.toInt, s.originUnix.toInt, s.epochSeconds.toNat⟩

end CreatorSchedule

/-! ## 3. No operation wraps -/

theorem checkedMulInt64_toInt (a b : Int64) :
    (checkedMulInt64 a b).map Int64.toInt = MirageNode.checkedMulInt64 a.toInt b.toInt := by
  refine map_failIf_bind (or_congr neg_iff_toInt_neg neg_iff_toInt_neg) fun hneg => ?_
  obtain ⟨ha, hb⟩ := not_or.mp hneg
  rw [neg_iff_toInt_neg, not_lt] at ha hb
  by_cases hzero : a = 0 ∨ b = 0
  · rw [if_pos hzero, if_pos (hzero.imp eq_zero_iff_toInt.mp eq_zero_iff_toInt.mp)]
    rfl
  · have hbpos : 0 < b.toInt :=
      lt_of_le_of_ne hb fun h => hzero (.inr (eq_zero_iff_toInt.mpr h.symm))
    have hquot : (Int64.maxValue / b).toInt = maxInt64 / b.toInt := by
      rw [toInt_div_of_nonneg (by decide) hb, toInt_maxValue_eq,
        Int.tdiv_eq_ediv_of_nonneg (by decide)]
    rw [if_neg hzero, if_neg (mt (Or.imp eq_zero_iff_toInt.mpr eq_zero_iff_toInt.mpr) hzero)]
    refine map_failIf_bind ?_ fun hle => ?_
    · rw [gt_iff_lt, lt_iff_toInt_lt, hquot]
    · rw [gt_iff_lt, lt_iff_toInt_lt, hquot, not_lt, Int.le_ediv_iff_mul_le hbpos] at hle
      refine congrArg Except.ok ?_
      rw [toInt_mul]
      exact bmod_of_fits (mul_nonneg ha hb) hle

theorem checkedAddInt64_toInt (a b : Int64) :
    (checkedAddInt64 a b).map Int64.toInt = MirageNode.checkedAddInt64 a.toInt b.toInt := by
  refine map_failIf_bind (or_congr neg_iff_toInt_neg neg_iff_toInt_neg) fun hneg => ?_
  obtain ⟨ha, hb⟩ := not_or.mp hneg
  rw [neg_iff_toInt_neg, not_lt] at ha hb
  have hroom : (Int64.maxValue - b).toInt = maxInt64 - b.toInt := by
    rw [toInt_sub_of_le hb (toInt_maxValue_eq ▸ toInt_le_maxInt64 b), toInt_maxValue_eq]
  refine map_failIf_bind ?_ fun hle => ?_
  · rw [gt_iff_lt, lt_iff_toInt_lt, hroom]
  · rw [gt_iff_lt, lt_iff_toInt_lt, hroom, not_lt] at hle
    refine congrArg Except.ok ?_
    rw [toInt_add]
    exact bmod_of_fits (add_nonneg ha hb) (by omega)

namespace CreatorSchedule

variable (s : CreatorSchedule)

/-- The check on the interval, on the word and on the integer. -/
theorem seconds_out_of_range_iff :
    (s.epochSeconds = 0 ∨ s.epochSeconds > Int64.maxValue.toUInt64) ↔
      s.toSchedule.epochSeconds = 0 ∨ (s.toSchedule.epochSeconds : ℤ) > maxInt64 := by
  refine or_congr (by rw [toSchedule, ← UInt64.toNat_inj]; rfl) ?_
  have hmax : Int64.maxValue.toUInt64.toNat = 2 ^ 63 - 1 := by decide
  rw [gt_iff_lt, gt_iff_lt, UInt64.lt_iff_toNat_lt, hmax, maxInt64]
  have hseconds : s.toSchedule.epochSeconds = s.epochSeconds.toNat := rfl
  omega

theorem epochAt_toInt (unix : Int64) :
    (s.epochAt unix).map Int64.toInt = s.toSchedule.epochAt unix.toInt := by
  refine map_failIf_bind neg_iff_toInt_neg fun _ => ?_
  refine map_failIf_bind (or_congr neg_iff_toInt_neg neg_iff_toInt_neg) fun horigin => ?_
  refine map_failIf_bind lt_iff_toInt_lt fun hbefore => ?_
  refine map_failIf_bind s.seconds_out_of_range_iff fun hrange => ?_
  have hunix : 0 ≤ s.originUnix.toInt := not_lt.mp (mt neg_iff_toInt_neg.mpr (not_or.mp horigin).1)
  have hle : s.originUnix.toInt ≤ unix.toInt := not_lt.mp (mt lt_iff_toInt_lt.mpr hbefore)
  have hsub : (unix - s.originUnix).toInt = unix.toInt - s.originUnix.toInt :=
    toInt_sub_of_le hunix hle
  have hseconds : s.epochSeconds.toInt64.toInt = s.epochSeconds.toNat :=
    toInt_toInt64_of_le (not_lt.mp (not_or.mp (mt s.seconds_out_of_range_iff.mpr hrange)).2)
  rw [checkedAddInt64_toInt, toInt_div_of_nonneg (by omega) (by omega), hsub, hseconds]
  rfl

theorem epochStart_toInt (epoch : Int64) :
    (s.epochStart epoch).map Int64.toInt = s.toSchedule.epochStart epoch.toInt := by
  refine map_failIf_bind neg_iff_toInt_neg fun _ => ?_
  refine map_failIf_bind (or_congr neg_iff_toInt_neg neg_iff_toInt_neg) fun horigin => ?_
  refine map_failIf_bind lt_iff_toInt_lt fun hbefore => ?_
  refine map_failIf_bind s.seconds_out_of_range_iff fun hrange => ?_
  have hepoch : 0 ≤ s.originEpoch.toInt :=
    not_lt.mp (mt neg_iff_toInt_neg.mpr (not_or.mp horigin).2)
  have hle : s.originEpoch.toInt ≤ epoch.toInt := not_lt.mp (mt lt_iff_toInt_lt.mpr hbefore)
  have hsub : (epoch - s.originEpoch).toInt = epoch.toInt - s.originEpoch.toInt :=
    toInt_sub_of_le hepoch hle
  have hseconds : s.epochSeconds.toInt64.toInt = s.epochSeconds.toNat :=
    toInt_toInt64_of_le (not_lt.mp (not_or.mp (mt s.seconds_out_of_range_iff.mpr hrange)).2)
  have hmul := checkedMulInt64_toInt (epoch - s.originEpoch) s.epochSeconds.toInt64
  rw [hsub, hseconds] at hmul
  exact map_bind_of_map hmul fun delta => checkedAddInt64_toInt s.originUnix delta

theorem epochEnd_toInt (epoch : Int64) :
    (s.epochEnd epoch).map Int64.toInt = s.toSchedule.epochEnd epoch.toInt := by
  have hmax : epoch = Int64.maxValue ↔ epoch.toInt = maxInt64 := by
    rw [← toInt_inj, toInt_maxValue_eq]
  refine map_failIf_bind hmax fun hne => ?_
  have hlt : epoch.toInt < maxInt64 := lt_of_le_of_ne (toInt_le_maxInt64 epoch) (mt hmax.mpr hne)
  have hsucc : (epoch + 1).toInt = epoch.toInt + 1 := by
    have := epoch.le_toInt
    unfold maxInt64 at hlt
    rw [toInt_add]
    exact Int.bmod_eq_of_le (by simp; omega) (by simp; omega)
  rw [epochStart_toInt, hsucc]

/-! ## 4. The grid -/

open MirageNode.CreatorSchedule (gridStart_le_iff lt_gridStart_iff gridStart_lt
  gridEpoch_gridStart originUnix_le_gridStart originEpoch_le_gridEpoch)

variable {s : CreatorSchedule} {e t unix : Int64}

theorem toInt_injective : Function.Injective Int64.toInt := fun _ _ => toInt_inj.mp

theorem epochAt_eq_ok : s.epochAt unix = .ok e ↔ s.toSchedule.Valid ∧
    s.originUnix.toInt ≤ unix.toInt ∧ s.toSchedule.gridEpoch unix.toInt ≤ maxInt64 ∧
      e.toInt = s.toSchedule.gridEpoch unix.toInt := by
  rw [← map_eq_ok_iff toInt_injective, epochAt_toInt, MirageNode.CreatorSchedule.epochAt_eq_ok]
  rfl

theorem epochStart_eq_ok : s.epochStart e = .ok t ↔ s.toSchedule.Valid ∧
    s.originEpoch.toInt ≤ e.toInt ∧ s.toSchedule.gridStart e.toInt ≤ maxInt64 ∧
      t.toInt = s.toSchedule.gridStart e.toInt := by
  rw [← map_eq_ok_iff toInt_injective, epochStart_toInt,
    MirageNode.CreatorSchedule.epochStart_eq_ok]
  rfl

theorem epochEnd_eq_ok : s.epochEnd e = .ok t ↔ e.toInt ≠ maxInt64 ∧ s.toSchedule.Valid ∧
    s.originEpoch.toInt ≤ e.toInt + 1 ∧ s.toSchedule.gridStart (e.toInt + 1) ≤ maxInt64 ∧
      t.toInt = s.toSchedule.gridStart (e.toInt + 1) := by
  rw [← map_eq_ok_iff toInt_injective, epochEnd_toInt, MirageNode.CreatorSchedule.epochEnd_eq_ok]
  rfl

/-- A time is in the epoch that `EpochAt` gives for it. -/
theorem epoch_contains (hat : s.epochAt unix = .ok e) (hend : s.epochEnd e = .ok t) :
    ∃ t₀, s.epochStart e = .ok t₀ ∧ t₀ ≤ unix ∧ unix < t := by
  obtain ⟨hvalid, horigin, -, he⟩ := epochAt_eq_ok.mp hat
  obtain ⟨-, -, -, -, ht⟩ := epochEnd_eq_ok.mp hend
  have hle : s.toSchedule.gridStart e.toInt ≤ unix.toInt :=
    (gridStart_le_iff hvalid).mpr he.le
  have hlt : unix.toInt < t.toInt := by
    rw [ht, lt_gridStart_iff hvalid, he]
    exact lt_add_one _
  have hfirst : s.originEpoch.toInt ≤ e.toInt := by
    rw [he]
    exact originEpoch_le_gridEpoch s.toSchedule horigin
  have hstart : 0 ≤ s.toSchedule.gridStart e.toInt :=
    hvalid.originUnix_nonneg.trans (originUnix_le_gridStart s.toSchedule hfirst)
  obtain ⟨t₀, ht₀⟩ := exists_toInt_eq hstart (hle.trans (toInt_le_maxInt64 unix))
  refine ⟨t₀, epochStart_eq_ok.mpr ⟨hvalid, hfirst, hle.trans (toInt_le_maxInt64 unix), ht₀⟩, ?_,
    lt_iff_toInt_lt.mpr hlt⟩
  rw [le_iff_toInt_le, ht₀]
  exact hle

/-- An epoch's start is in that epoch. -/
theorem epochAt_of_epochStart (hstart : s.epochStart e = .ok t) : s.epochAt t = .ok e := by
  obtain ⟨hvalid, hfirst, -, ht⟩ := epochStart_eq_ok.mp hstart
  have hepoch : s.toSchedule.gridEpoch t.toInt = e.toInt := by
    rw [ht, gridEpoch_gridStart hvalid]
  refine epochAt_eq_ok.mpr ⟨hvalid, ?_, hepoch ▸ toInt_le_maxInt64 e, hepoch.symm⟩
  rw [ht]
  exact originUnix_le_gridStart s.toSchedule hfirst

theorem epochStart_strictMono {e' t' : Int64} (hstart : s.epochStart e = .ok t)
    (hstart' : s.epochStart e' = .ok t') (h : e < e') : t < t' := by
  obtain ⟨hvalid, -, -, ht⟩ := epochStart_eq_ok.mp hstart
  obtain ⟨-, -, -, ht'⟩ := epochStart_eq_ok.mp hstart'
  rw [lt_iff_toInt_lt, ht, ht']
  exact gridStart_lt hvalid (lt_iff_toInt_lt.mp h)

/-- On a usable grid, `EpochAt` fails before the origin and where the epoch has no word. -/
theorem epochAt_fails_iff (hvalid : s.toSchedule.Valid) :
    (∃ err, s.epochAt unix = .error err) ↔
      unix < s.originUnix ∨ ¬ FitsInt64 (s.toSchedule.gridEpoch unix.toInt) := by
  rw [exists_error_iff, lt_iff_toInt_lt, ← not_le, ← not_and_or, ← not_exists, not_iff_not]
  constructor
  · rintro ⟨e, he⟩
    obtain ⟨-, horigin, hfits, he⟩ := epochAt_eq_ok.mp he
    exact ⟨horigin, he ▸ e.le_toInt, hfits⟩
  · rintro ⟨horigin, -, hfits⟩
    have hnonneg := hvalid.originEpoch_nonneg.trans (originEpoch_le_gridEpoch s.toSchedule horigin)
    obtain ⟨e, he⟩ := exists_toInt_eq hnonneg hfits
    exact ⟨e, epochAt_eq_ok.mpr ⟨hvalid, horigin, hfits, he⟩⟩

/-- On a usable grid, `EpochStart` fails before the origin and where the start has no word. -/
theorem epochStart_fails_iff (hvalid : s.toSchedule.Valid) :
    (∃ err, s.epochStart e = .error err) ↔
      e < s.originEpoch ∨ ¬ FitsInt64 (s.toSchedule.gridStart e.toInt) := by
  rw [exists_error_iff, lt_iff_toInt_lt, ← not_le, ← not_and_or, ← not_exists, not_iff_not]
  constructor
  · rintro ⟨t, ht⟩
    obtain ⟨-, hfirst, hfits, ht⟩ := epochStart_eq_ok.mp ht
    exact ⟨hfirst, ht ▸ t.le_toInt, hfits⟩
  · rintro ⟨hfirst, -, hfits⟩
    have hnonneg := hvalid.originUnix_nonneg.trans (originUnix_le_gridStart s.toSchedule hfirst)
    obtain ⟨t, ht⟩ := exists_toInt_eq hnonneg hfits
    exact ⟨t, epochStart_eq_ok.mpr ⟨hvalid, hfirst, hfits, ht⟩⟩

/-- On every grid with a non-negative origin and an interval from `1` to `math.MaxInt64`, a time
is in the epoch that `EpochAt` gives for it, `EpochAt` undoes `EpochStart`, `EpochStart` is
strictly increasing, and both return the exact result or fail: before the origin, and where the
exact result has no word. -/
theorem epoch_grid_exact {s : CreatorSchedule} (hepoch : 0 ≤ s.originEpoch)
    (hunix : 0 ≤ s.originUnix) (hpos : 1 ≤ s.epochSeconds)
    (hmax : s.epochSeconds.toNat ≤ 2 ^ 63 - 1) :
    (∀ u e t, s.originUnix ≤ u → s.epochAt u = .ok e → s.epochEnd e = .ok t →
      ∃ t₀, s.epochStart e = .ok t₀ ∧ t₀ ≤ u ∧ u < t) ∧
    (∀ e t, s.originEpoch ≤ e → s.epochStart e = .ok t → s.epochAt t = .ok e) ∧
    (∀ e e' t t', s.epochStart e = .ok t → s.epochStart e' = .ok t' → e < e' → t < t') ∧
    (∀ u, (∃ err, s.epochAt u = .error err) ↔
      u < s.originUnix ∨ ¬ FitsInt64 (s.toSchedule.gridEpoch u.toInt)) ∧
    (∀ u e, s.epochAt u = .ok e → e.toInt = s.toSchedule.gridEpoch u.toInt) ∧
    (∀ e, (∃ err, s.epochStart e = .error err) ↔
      e < s.originEpoch ∨ ¬ FitsInt64 (s.toSchedule.gridStart e.toInt)) ∧
    (∀ e t, s.epochStart e = .ok t → t.toInt = s.toSchedule.gridStart e.toInt) := by
  have hvalid : s.toSchedule.Valid :=
    { originEpoch_nonneg := le_iff_toInt_le.mp hepoch
      originUnix_nonneg := le_iff_toInt_le.mp hunix
      seconds_pos := UInt64.le_iff_toNat_le.mp hpos
      seconds_le := by
        have hseconds : s.toSchedule.epochSeconds = s.epochSeconds.toNat := rfl
        rw [hseconds, maxInt64]
        omega }
  exact ⟨fun _ _ _ _ => epoch_contains, fun _ _ _ => epochAt_of_epochStart,
    fun _ _ _ _ => epochStart_strictMono, fun _ => epochAt_fails_iff hvalid,
    fun _ _ h => (epochAt_eq_ok.mp h).2.2.2, fun _ => epochStart_fails_iff hvalid,
    fun _ _ h => (epochStart_eq_ok.mp h).2.2.2⟩

/-- A grid of minutes whose epoch 5 starts at 100: the time 250 is in epoch 7, from 220 to 280. -/
theorem epoch_grid_exact_minutes :
    (CreatorSchedule.mk 5 100 60).epochAt 250 = .ok 7 ∧
    ∃ t₀, (CreatorSchedule.mk 5 100 60).epochStart 7 = .ok t₀ ∧ t₀ ≤ 250 ∧ (250 : Int64) < 280 := by
  have hat : (CreatorSchedule.mk 5 100 60).epochAt 250 = .ok 7 := by decide +kernel
  have hend : (CreatorSchedule.mk 5 100 60).epochEnd 7 = .ok 280 := by decide +kernel
  exact ⟨hat, (epoch_grid_exact (by decide) (by decide) (by decide) (by decide)).1 250 7 280
    (by decide) hat hend⟩

end CreatorSchedule

end Word

end MirageNode
