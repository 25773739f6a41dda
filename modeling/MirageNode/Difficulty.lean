import MirageNode.SafeMath
import MirageNode.PowTarget
import MirageNode.Lib.SlidingWindow

/-!
# The difficulty of the proof of work

Every message whose work was checked is counted under the height of its block.
`EndBlock` adds up a window of blocks and moves the difficulty one step up when the
window was busy, or one step down after enough calm blocks in a row; `BeginBlock`
sweeps old counters away in batches. This module models the counters, the three
stored difficulty records and the two block hooks, and runs of consecutive blocks.

`PowRun.inv` is the invariant of a run and `difficulty_state_machine` what it says
about the next block.
-/

namespace MirageNode

open Fallible OrderedStore SlidingWindow

/-! ## Parameters -/

/-- The parameters of the proof of work (`Params`). The step is the rational its
float spells. -/
structure PowParams where
  minDifficulty : ℕ
  powMessageWindow : ℕ
  powMessageLimit : ℕ
  powCalmPeriodDefinition : ℕ
  powCalmSequenceThreshold : ℕ
  powDifficultyAllowance : ℕ
  powDifficultyStep : ℚ
deriving DecidableEq, Repr

def maxPowMessageWindow : ℕ := 1000

def maxPowCalmSequenceThreshold : ℕ := 1000000

/-- `MinPowDifficultyStep`: the float `0.01`. -/
def minPowDifficultyStep : ℚ := 5764607523034235 / 2 ^ 59

inductive PowError where
  -- types/params.go
  | outOfRange (name : String) (min max : ℕ)
  | limitZero
  | calmAboveLimit
  | windowProduct (window : ℕ) (err : CoreError)
  | allowanceTooLong
  | stepOutOfRange
  -- types/safe_math.go
  | heightNegative (height : ℤ)
  | windowZero
  | windowTooLong (window : ℕ)
  -- keeper/keeper.go
  | difficultyRange (height : ℤ) (difficulty : ℕ)
  | difficultyTooHigh (difficulty : ℕ)
  | previousRange (height : ℤ) (difficulty : ℕ)
  | changeHeightRange (height : ℤ) (stored : ℕ) (err : CoreError)
  | lowUsageRange (height : ℤ) (count : ℕ)
  | lowUsageTooHigh (count : ℕ)
  | countOverflow (height : ℤ) (err : CoreError)
  | sumOverflow (height readHeight : ℤ) (err : CoreError)
  | windowParam (height : ℤ) (window : ℕ) (op : String) (err : PowError)
  | windowParamInt (height : ℤ) (window : ℕ) (op : String) (err : CoreError)
  | markerOverflow (height : ℤ) (err : CoreError)
  | markerRange (height marker : ℤ)
  -- module/module.go
  | calmOverflow (height : ℤ) (err : CoreError)
deriving DecidableEq, Repr

/-- `Validate`, the checks on the parameters used here. -/
def PowParams.validate (p : PowParams) : Except PowError Unit := do
  failIf (p.minDifficulty = 0 ∨ p.minDifficulty > 256) (.outOfRange "min_difficulty" 1 256)
  failIf (p.powMessageWindow = 0 ∨ p.powMessageWindow > maxPowMessageWindow)
    (.outOfRange "pow_message_window" 1 maxPowMessageWindow)
  failIf (p.powMessageLimit = 0) .limitZero
  failIf (p.powCalmPeriodDefinition ≥ p.powMessageLimit) .calmAboveLimit
  failIf (p.powCalmSequenceThreshold = 0 ∨ p.powCalmSequenceThreshold > maxPowCalmSequenceThreshold)
    (.outOfRange "pow_calm_sequence_threshold" 1 maxPowCalmSequenceThreshold)
  let allowanceCeiling ← (checkedMulUint64 p.powMessageWindow 2).mapError
    (.windowProduct p.powMessageWindow)
  failIf (p.powDifficultyAllowance > allowanceCeiling) .allowanceTooLong
  failIf (p.powDifficultyStep < minPowDifficultyStep ∨ p.powDifficultyStep > 1) .stepOutOfRange

/-! ## Stored records -/

/-- The records of the difficulty adjustment. -/
structure PowState where
  counts : OrderedMap ℤ ℕ
  currentDifficulty : Option ℕ
  prevDifficulty : Option ℕ
  lastDiffChangeHeight : Option ℕ
  consecutiveLowUsage : Option ℕ
  cleanupMarker : Option ℕ

/-- The store before the first block. -/
def PowState.empty : PowState := ⟨.empty, none, none, none, none, none⟩

def checkedWindowStart (currentHeight : ℤ) (window : ℕ) : Except PowError ℤ := do
  failIf (currentHeight < 0) (.heightNegative currentHeight)
  failIf (window = 0) .windowZero
  failIf (window > maxPowMessageWindow) (.windowTooLong window)
  let start := currentHeight - window + 1
  return if start < 1 then 1 else start

def recordPoWMessage (height : ℤ) (s : PowState) : Except PowError PowState := do
  let count ← (checkedAddUint64 (countAt s.counts height) 1).mapError (.countOverflow height)
  return { s with counts := s.counts.set height count }

/-- One step of the sum in `GetPoWMessageCount`. -/
def addCount (s : PowState) (height : ℤ) (total : ℕ) (h : ℤ) : Except PowError ℕ :=
  match s.counts.get h with
  | none => .ok total
  | some count => (checkedAddUint64 total count).mapError (.sumOverflow height h)

def getPoWMessageCount (p : PowParams) (height : ℤ) (s : PowState) : Except PowError ℕ := do
  let periodStart ← (checkedWindowStart height p.powMessageWindow).mapError
    (.windowParam height p.powMessageWindow "window_sum")
  (heightsFrom periodStart height).foldlM (addCount s height) 0

def clearPoWWindow (p : PowParams) (height : ℤ) (s : PowState) : Except PowError PowState := do
  let start ← (checkedWindowStart height p.powMessageWindow).mapError
    (.windowParam height p.powMessageWindow "window_clear")
  return { s with counts := (heightsFrom start height).foldl OrderedMap.erase s.counts }

def maxDeletesPerBlock : ℤ := 100

/-- The stored sweep position of `CleanupOldCounters`, height 1 if there is none. -/
def cleanupStart (height : ℤ) (s : PowState) : Except PowError ℤ :=
  match s.cleanupMarker with
  | none => .ok 1
  | some stored => do
    let marker ← (checkedUint64ToInt64 stored).mapError (.markerOverflow height)
    failIf (marker < 1 ∨ marker > height) (.markerRange height marker)
    return marker

/-- The batch of `CleanupOldCounters`: at most a hundred heights up to the cut-off,
and the marker behind them. -/
def cleanupBatch (cutoffHeight startHeight : ℤ) (s : PowState) : PowState :=
  let stop := min cutoffHeight (startHeight + maxDeletesPerBlock - 1)
  if startHeight ≤ stop then
    { s with
      counts := (heightsFrom startHeight stop).foldl OrderedMap.erase s.counts
      cleanupMarker := some (stop + 1).toNat }
  else s

def cleanupOldCounters (p : PowParams) (height : ℤ) (s : PowState) : Except PowError PowState := do
  let retention ← (checkedMulUint64 p.powMessageWindow 2).mapError
    (.windowParamInt height p.powMessageWindow "cleanup")
  let retentionHeights ← (checkedUint64ToInt64 retention).mapError
    (.windowParamInt height p.powMessageWindow "cleanup")
  let cutoffHeight := height - retentionHeights
  if cutoffHeight < 1 then return s
  else
    let startHeight ← cleanupStart height s
    return cleanupBatch cutoffHeight startHeight s

def getCurrentDifficulty (height : ℤ) (s : PowState) : Except PowError ℕ :=
  match s.currentDifficulty with
  | none => .ok 0
  | some v => do
    failIf (v > maxSafeDifficultySteps) (.difficultyRange height v)
    return v

def setCurrentDifficulty (height : ℤ) (difficulty : ℕ) (s : PowState) :
    Except PowError PowState := do
  failIf (difficulty > maxSafeDifficultySteps) (.difficultyTooHigh difficulty)
  let old ← getCurrentDifficulty height s
  return { s with
    currentDifficulty := some difficulty
    prevDifficulty := some old
    lastDiffChangeHeight := some height.toNat }

def getPreviousDifficulty (height : ℤ) (s : PowState) : Except PowError ℕ :=
  match s.prevDifficulty with
  | none => getCurrentDifficulty height s
  | some v => do
    failIf (v > maxSafeDifficultySteps) (.previousRange height v)
    return v

def getLastDifficultyChangeHeight (height : ℤ) (s : PowState) : Except PowError ℤ :=
  match s.lastDiffChangeHeight with
  | none => .ok 0
  | some v => (checkedUint64ToInt64 v).mapError (.changeHeightRange height v)

def getConsecutiveLowUsage (height : ℤ) (s : PowState) : Except PowError ℕ :=
  match s.consecutiveLowUsage with
  | none => .ok 0
  | some v => do
    failIf (v > maxPowCalmSequenceThreshold) (.lowUsageRange height v)
    return v

def setConsecutiveLowUsage (count : ℕ) (s : PowState) : Except PowError PowState := do
  failIf (count > maxPowCalmSequenceThreshold) (.lowUsageTooHigh count)
  return { s with consecutiveLowUsage := some count }

/-! ## The block hooks -/

/-- A new difficulty is stored and starts a new window; the same one does nothing. -/
def changeDifficulty (p : PowParams) (height : ℤ) (current new : ℕ) (s : PowState) :
    Except PowError PowState :=
  if new ≠ current then do
    let s ← setCurrentDifficulty height new s
    clearPoWWindow p height s
  else .ok s

/-- `EndBlock` after a busy window. -/
def busyWindow (p : PowParams) (height : ℤ) (current : ℕ) (s : PowState) :
    Except PowError PowState := do
  let new := if current + 1 > maxSafeDifficultySteps then maxSafeDifficultySteps else current + 1
  let s ← changeDifficulty p height current new s
  setConsecutiveLowUsage 0 s

/-- The end of a long enough calm sequence. -/
def calmSequence (p : PowParams) (height : ℤ) (current : ℕ) (s : PowState) :
    Except PowError PowState := do
  let new := if current > 0 then current - 1 else current
  let s ← changeDifficulty p height current new s
  setConsecutiveLowUsage 0 s

/-- `EndBlock` after a calm window. -/
def calmWindow (p : PowParams) (height : ℤ) (current calmSeq : ℕ) (s : PowState) :
    Except PowError PowState := do
  let nextCalmSeq ← (checkedAddUint64 calmSeq 1).mapError (.calmOverflow height)
  let s ← setConsecutiveLowUsage nextCalmSeq s
  if nextCalmSeq ≥ p.powCalmSequenceThreshold then calmSequence p height current s else return s

/-- The difficulty part of `EndBlock`. -/
def endBlockDifficulty (p : PowParams) (height : ℤ) (s : PowState) : Except PowError PowState := do
  let currentDifficulty ← getCurrentDifficulty height s
  let messageCount ← getPoWMessageCount p height s
  let calmSeq ← getConsecutiveLowUsage height s
  if messageCount ≥ p.powMessageLimit then busyWindow p height currentDifficulty s
  else if messageCount < p.powCalmPeriodDefinition then
    calmWindow p height currentDifficulty calmSeq s
  else if calmSeq > 0 then setConsecutiveLowUsage 0 s
  else return s

/-- `BeginBlock`: the difficulty is set once. -/
def initDifficulty (height : ℤ) (s : PowState) : Except PowError PowState :=
  if s.currentDifficulty.isNone then setCurrentDifficulty height 0 s else .ok s

/-- The difficulty part of `BeginBlock`. -/
def beginBlockDifficulty (p : PowParams) (height : ℤ) (s : PowState) :
    Except PowError PowState := do
  let s ← initDifficulty height s
  if height % 100 = 0 then cleanupOldCounters p height s else return s

/-- The messages of a block whose work was checked. -/
def recordMessages (height : ℤ) : ℕ → PowState → Except PowError PowState
  | 0, s => .ok s
  | n + 1, s => do
    let s ← recordPoWMessage height s
    recordMessages height n s

/-! ## Runs -/

/-- The difficulty in force. -/
def PowState.difficulty (s : PowState) : ℕ := s.currentDifficulty.getD 0

/-- A finished block: how many messages it recorded, the difficulty its messages were
held to, and whether it ended with a new difficulty, which clears the window. -/
structure PastBlock where
  messages : ℕ
  difficulty : ℕ
  cleared : Bool
deriving DecidableEq, Repr

/-- The messages recorded in the last `w` blocks since the last clear. -/
def recentMessages (w : ℕ) (past : List PastBlock) : ℕ :=
  windowed PastBlock.messages PastBlock.cleared w past

/-- Consecutive blocks from height `first` on, newest first, and the state after them.
Heights are `int64`. -/
inductive PowRun (p : PowParams) (first : ℤ) : List PastBlock → PowState → Prop where
  | start : PowRun p first [] .empty
  | block {past : List PastBlock} {s s₁ s₂ s₃ : PowState} {messages : ℕ} :
      PowRun p first past s → first + past.length ≤ maxInt64 →
      beginBlockDifficulty p (first + past.length) s = .ok s₁ →
      recordMessages (first + past.length) messages s₁ = .ok s₂ →
      endBlockDifficulty p (first + past.length) s₂ = .ok s₃ →
      PowRun p first (⟨messages, s₁.difficulty, s₃.difficulty ≠ s₁.difficulty⟩ :: past) s₃

/-! ## What the functions compute -/

/-- What validation says about the parameters. -/
structure PowParams.Valid (p : PowParams) : Prop where
  window_pos : 0 < p.powMessageWindow
  window_le : p.powMessageWindow ≤ maxPowMessageWindow
  threshold_pos : 0 < p.powCalmSequenceThreshold
  threshold_le : p.powCalmSequenceThreshold ≤ maxPowCalmSequenceThreshold
  step_pos : 0 < p.powDifficultyStep
  step_le : p.powDifficultyStep ≤ 1

variable {p : PowParams} {past : List PastBlock} {new : ℕ} {s : PowState}

theorem PowParams.valid_of_validate (h : p.validate = .ok ()) : p.Valid := by
  simp only [PowParams.validate, bind_eq_ok, failIf_eq_ok, mapError_eq_ok, exists_const, not_or,
    not_lt, ← Nat.pos_iff_ne_zero, gt_iff_lt] at h
  obtain ⟨-, ⟨hwindow, hwindowLe⟩, -, -, ⟨hthreshold, hthresholdLe⟩, -, -, -, hstep, hstepLe⟩ := h
  have hmin : (0 : ℚ) < minPowDifficultyStep := by norm_num [minPowDifficultyStep]
  exact ⟨hwindow, hwindowLe, hthreshold, hthresholdLe, hmin.trans_le hstep, hstepLe⟩

section

variable {p : PowParams} {height : ℤ} {s : PowState}

theorem checkedWindowStart_eq (hp : p.Valid) (hheight : 0 ≤ height) :
    checkedWindowStart height p.powMessageWindow =
      .ok (max 1 (height - p.powMessageWindow + 1)) := by
  rw [checkedWindowStart, failIf_of_not _ (not_lt.mpr hheight), ok_bind,
    failIf_of_not _ hp.window_pos.ne', ok_bind, failIf_of_not _ (not_lt.mpr hp.window_le), ok_bind]
  refine congrArg Except.ok ?_
  split <;> omega

theorem foldlM_addCount {hs : List ℤ} {total : ℕ}
    (hfits : total + (hs.map (countAt s.counts)).sum ≤ maxUint64) :
    hs.foldlM (addCount s height) total = .ok (total + (hs.map (countAt s.counts)).sum) := by
  induction hs generalizing total with
  | nil => rfl
  | cons h hs ih =>
    rw [List.map_cons, List.sum_cons, ← add_assoc] at hfits ⊢
    have hstep : addCount s height total h = .ok (total + countAt s.counts h) := by
      unfold addCount
      cases hget : s.counts.get h with
      | none => simp [countAt, hget]
      | some count =>
        have hcount : countAt s.counts h = count := by simp [countAt, hget]
        rw [hcount] at hfits ⊢
        exact mapError_eq_ok.mpr (checkedAddUint64_eq_ok.mpr ⟨by omega, rfl⟩)
    rw [List.foldlM_cons, hstep, ok_bind, ih hfits]

theorem getPoWMessageCount_eq (hp : p.Valid) (hheight : 0 ≤ height)
    (htracks : Tracks PastBlock.messages PastBlock.cleared p.powMessageWindow past height s.counts)
    (hfits : recentMessages p.powMessageWindow past ≤ maxUint64) :
    getPoWMessageCount p height s = .ok (recentMessages p.powMessageWindow past) := by
  have hsum := htracks.sum_eq rfl
  rw [getPoWMessageCount, checkedWindowStart_eq hp hheight]
  change List.foldlM (addCount s height) 0 _ = _
  rw [foldlM_addCount (by rwa [hsum, zero_add]), hsum, zero_add]
  rfl

theorem getCurrentDifficulty_eq (h : s.difficulty ≤ maxSafeDifficultySteps) :
    getCurrentDifficulty height s = .ok s.difficulty := by
  unfold getCurrentDifficulty PowState.difficulty at *
  cases hcur : s.currentDifficulty with
  | none => rfl
  | some v =>
    rw [hcur] at h
    exact (congrArg (· >>= _) (failIf_of_not _ (not_lt.mpr h))).trans rfl

/-- The state after `changeDifficulty`. -/
def PowState.moved (p : PowParams) (height : ℤ) (current new : ℕ) (s : PowState) : PowState :=
  if new ≠ current then
    { s with
      counts := (heightsFrom (max 1 (height - p.powMessageWindow + 1)) height).foldl
        OrderedMap.erase s.counts
      currentDifficulty := some new
      prevDifficulty := some current
      lastDiffChangeHeight := some height.toNat }
  else s

theorem setCurrentDifficulty_eq (hcurrent : s.difficulty ≤ maxSafeDifficultySteps)
    (hnew : new ≤ maxSafeDifficultySteps) :
    setCurrentDifficulty height new s = .ok { s with
      currentDifficulty := some new
      prevDifficulty := some s.difficulty
      lastDiffChangeHeight := some height.toNat } := by
  rw [setCurrentDifficulty, failIf_of_not _ (not_lt.mpr hnew), ok_bind,
    getCurrentDifficulty_eq hcurrent, ok_bind]
  rfl

theorem changeDifficulty_eq (hp : p.Valid) (hheight : 0 ≤ height)
    (hcurrent : s.difficulty ≤ maxSafeDifficultySteps) (hnew : new ≤ maxSafeDifficultySteps) :
    changeDifficulty p height s.difficulty new s = .ok (s.moved p height s.difficulty new) := by
  unfold changeDifficulty PowState.moved
  split
  · rw [setCurrentDifficulty_eq hcurrent hnew, ok_bind, clearPoWWindow,
      checkedWindowStart_eq hp hheight]
    rfl
  · rfl

@[simp] theorem PowState.difficulty_moved :
    (s.moved p height s.difficulty new).difficulty = new := by
  unfold PowState.moved
  split
  · rfl
  next hsame => exact (not_not.mp hsame).symm

theorem setConsecutiveLowUsage_eq {count : ℕ} (h : count ≤ maxPowCalmSequenceThreshold) :
    setConsecutiveLowUsage count s = .ok { s with consecutiveLowUsage := some count } := by
  rw [setConsecutiveLowUsage, failIf_of_not _ (not_lt.mpr h), ok_bind]
  rfl

/-- A change of the difficulty and a new calm sequence, whatever the old one was. -/
theorem changeAndReset_eq (hp : p.Valid) (hheight : 0 ≤ height)
    (hcurrent : s.difficulty ≤ maxSafeDifficultySteps)
    (hnew : new ≤ maxSafeDifficultySteps) (low : Option ℕ) :
    (changeDifficulty p height s.difficulty new { s with consecutiveLowUsage := low } >>=
        setConsecutiveLowUsage 0) =
      .ok { s.moved p height s.difficulty new with consecutiveLowUsage := some 0 } := by
  have hmoved : PowState.moved p height s.difficulty new { s with consecutiveLowUsage := low } =
      { s.moved p height s.difficulty new with consecutiveLowUsage := low } := by
    unfold PowState.moved
    by_cases hnew' : new ≠ s.difficulty
    · simp only [if_pos hnew']
    · simp only [if_neg hnew']
  have hchange := changeDifficulty_eq (s := { s with consecutiveLowUsage := low }) hp hheight
    hcurrent hnew
  refine (congrArg (· >>= setConsecutiveLowUsage 0) (hchange.trans (congrArg _ hmoved))).trans ?_
  rw [ok_bind, setConsecutiveLowUsage_eq (Nat.zero_le _)]

/-- The calm blocks in a row after which the difficulty is zero. -/
def PowState.calmLeft (p : PowParams) (s : PowState) : ℕ :=
  s.difficulty * p.powCalmSequenceThreshold - s.consecutiveLowUsage.getD 0

/-- `EndBlock` moves the difficulty by at most one step, and leaves a calm sequence
that has not reached its threshold. A calm block leaves one less to come. -/
theorem endBlockDifficulty_spec (hp : p.Valid) (hheight : 0 ≤ height)
    (htracks : Tracks PastBlock.messages PastBlock.cleared p.powMessageWindow past height s.counts)
    (hfits : recentMessages p.powMessageWindow past ≤ maxUint64)
    (hcurrent : s.difficulty ≤ maxSafeDifficultySteps)
    (hcalm : s.consecutiveLowUsage.getD 0 < p.powCalmSequenceThreshold) :
    ∃ new low, endBlockDifficulty p height s =
        .ok { s.moved p height s.difficulty new with consecutiveLowUsage := low } ∧
      new ≤ maxSafeDifficultySteps ∧ new ≤ s.difficulty + 1 ∧ s.difficulty ≤ new + 1 ∧
      low.getD 0 < p.powCalmSequenceThreshold ∧
      (recentMessages p.powMessageWindow past < min p.powMessageLimit p.powCalmPeriodDefinition →
        new * p.powCalmSequenceThreshold - low.getD 0 = s.calmLeft p - 1) := by
  have hthreshold := hp.threshold_pos
  have hthresholdLe := hp.threshold_le
  have hsame : s.moved p height s.difficulty s.difficulty = s := by simp [PowState.moved]
  have hlow : getConsecutiveLowUsage height s = .ok (s.consecutiveLowUsage.getD 0) := by
    unfold getConsecutiveLowUsage
    cases hstored : s.consecutiveLowUsage with
    | none => rfl
    | some v =>
      rw [hstored, Option.getD_some] at hcalm
      exact (congrArg (· >>= _) (failIf_of_not _ (by omega))).trans rfl
  rw [endBlockDifficulty, getCurrentDifficulty_eq hcurrent, ok_bind,
    getPoWMessageCount_eq hp hheight htracks hfits, ok_bind, hlow, ok_bind]
  split
  · -- busy
    have hnew : (if s.difficulty + 1 > maxSafeDifficultySteps then maxSafeDifficultySteps
        else s.difficulty + 1) ≤ maxSafeDifficultySteps := by split <;> omega
    refine ⟨_, some 0, changeAndReset_eq hp hheight hcurrent hnew s.consecutiveLowUsage, hnew,
      ?_, ?_, hthreshold, fun hquiet => absurd hquiet (by omega)⟩ <;> split <;> omega
  split
  · -- calm
    have hnext : (checkedAddUint64 (s.consecutiveLowUsage.getD 0) 1).mapError
        (PowError.calmOverflow height) = .ok (s.consecutiveLowUsage.getD 0 + 1) := by
      refine mapError_eq_ok.mpr (checkedAddUint64_eq_ok.mpr ⟨?_, rfl⟩)
      have : maxPowCalmSequenceThreshold ≤ maxUint64 - 1 := by decide
      omega
    rw [calmWindow, hnext, ok_bind, setConsecutiveLowUsage_eq (by omega), ok_bind]
    split
    · have hnew : (if s.difficulty > 0 then s.difficulty - 1 else s.difficulty) ≤
          maxSafeDifficultySteps := by split <;> omega
      refine ⟨_, some 0, changeAndReset_eq hp hheight hcurrent hnew _, hnew, ?_, ?_, hthreshold,
        fun _ => ?_⟩
      · split <;> omega
      · split <;> omega
      · rw [PowState.calmLeft, Option.getD_some]
        cases s.difficulty with
        | zero => simp
        | succ d =>
          rw [if_pos d.succ_pos, Nat.add_sub_cancel, Nat.succ_mul]
          omega
    next hbelow =>
      refine ⟨s.difficulty, some _, ?_, hcurrent, by omega, by omega, not_le.mp hbelow, fun _ =>
        (Nat.sub_sub _ _ _).symm⟩
      rw [hsame]
      rfl
  · -- neither
    split
    · refine ⟨s.difficulty, some 0, ?_, hcurrent, by omega, by omega, hthreshold,
        fun hquiet => absurd hquiet (by omega)⟩
      rw [hsame, setConsecutiveLowUsage_eq (Nat.zero_le _)]
    · refine ⟨s.difficulty, s.consecutiveLowUsage, ?_, hcurrent, by omega, by omega, hcalm,
        fun hquiet => absurd hquiet (by omega)⟩
      rw [hsame]
      rfl

/-- The difficulty records of `s'` are those of `s`, or set for the first time. -/
def SameRecords (height : ℤ) (s s' : PowState) : Prop :=
  s.currentDifficulty ≠ none ∧ s'.currentDifficulty = s.currentDifficulty ∧
      s'.prevDifficulty = s.prevDifficulty ∧ s'.lastDiffChangeHeight = s.lastDiffChangeHeight ∨
    s.currentDifficulty = none ∧ s'.currentDifficulty = some 0 ∧ s'.prevDifficulty = some 0 ∧
      s'.lastDiffChangeHeight = some height.toNat

theorem initDifficulty_spec (height : ℤ) (hcurrent : s.difficulty ≤ maxSafeDifficultySteps) :
    ∃ s', initDifficulty height s = .ok s' ∧ s'.difficulty = s.difficulty ∧ s'.counts = s.counts ∧
      s'.consecutiveLowUsage = s.consecutiveLowUsage ∧ s'.cleanupMarker = s.cleanupMarker ∧
      SameRecords height s s' := by
  unfold initDifficulty
  split
  next hnone =>
    rw [Option.isNone_iff_eq_none] at hnone
    have hzero : s.difficulty = 0 := by simp [PowState.difficulty, hnone]
    refine ⟨_, setCurrentDifficulty_eq hcurrent (Nat.zero_le _), hzero.symm, rfl, rfl, rfl,
      .inr ⟨hnone, rfl, ?_, rfl⟩⟩
    rw [hzero]
  next hsome =>
    rw [Option.isNone_iff_eq_none] at hsome
    exact ⟨s, rfl, rfl, rfl, rfl, rfl, .inl ⟨hsome, rfl, rfl, rfl⟩⟩

/-- The sweep erases some heights that are two windows old, and moves its marker. -/
theorem cleanupOldCounters_spec (hp : p.Valid) (hheight : height ≤ maxInt64)
    (hmarker : ∀ m, s.cleanupMarker = some m → 1 ≤ (m : ℤ) ∧ m ≤ height) :
    ∃ (swept : List ℤ) (marker : Option ℕ), cleanupOldCounters p height s = .ok { s with
        counts := swept.foldl OrderedMap.erase s.counts
        cleanupMarker := marker } ∧
      (∀ h ∈ swept, h ≤ height - 2 * p.powMessageWindow) ∧
      ∀ m, marker = some m → 1 ≤ (m : ℤ) ∧ m ≤ height := by
  have hwindow := hp.window_pos
  have hwindowLe : p.powMessageWindow ≤ 1000 := hp.window_le
  have hretention : checkedMulUint64 p.powMessageWindow 2 = .ok (p.powMessageWindow * 2) := by
    have hsmall : ¬ p.powMessageWindow > maxUint64 / 2 := by
      have : 1000 ≤ maxUint64 / 2 := by decide
      omega
    rw [checkedMulUint64, if_neg (by omega), failIf_of_not _ hsmall]
    rfl
  have hint : checkedUint64ToInt64 (p.powMessageWindow * 2) =
      .ok ((p.powMessageWindow * 2 : ℕ) : ℤ) := by
    refine checkedUint64ToInt64_eq_ok.mpr ⟨?_, rfl⟩
    have : (2000 : ℤ) ≤ maxInt64 := by decide
    omega
  have hstart : ∃ start, cleanupStart height s = .ok start ∧ 1 ≤ start := by
    unfold cleanupStart
    cases hstored : s.cleanupMarker with
    | none => exact ⟨1, rfl, le_rfl⟩
    | some m =>
      obtain ⟨hlow, hhigh⟩ := hmarker m hstored
      refine ⟨m, ?_, hlow⟩
      simp only [checkedUint64ToInt64_eq_ok.mpr ⟨hhigh.trans hheight, rfl⟩, Except.mapError,
        ok_bind]
      rw [failIf_of_not _ (by omega), ok_bind]
      rfl
  rw [cleanupOldCounters, hretention, Except.mapError, ok_bind, hint, Except.mapError, ok_bind]
  dsimp only
  split
  · exact ⟨[], s.cleanupMarker, rfl, fun h hh => absurd hh List.not_mem_nil, hmarker⟩
  obtain ⟨start, hstart, hone⟩ := hstart
  rw [hstart, ok_bind, cleanupBatch]
  split
  next hbatch =>
    refine ⟨_, _, rfl, fun h hh => ?_, fun m hm => ?_⟩
    · have := (mem_heightsFrom.mp hh).2
      omega
    · obtain rfl := Option.some.inj hm
      omega
  next => exact ⟨[], s.cleanupMarker, rfl, fun h hh => absurd hh List.not_mem_nil, hmarker⟩

theorem recordMessages_eq (height : ℤ) (n : ℕ) (s : PowState)
    (hfits : countAt s.counts height + n ≤ maxUint64) :
    ∃ counts, recordMessages height n s = .ok { s with counts := counts } ∧
      countAt counts height = countAt s.counts height + n ∧
      ∀ h, h ≠ height → countAt counts h = countAt s.counts h := by
  induction n generalizing s with
  | zero => exact ⟨s.counts, rfl, rfl, fun _ _ => rfl⟩
  | succ n ih =>
    have hrecord : recordPoWMessage height s =
        .ok { s with counts := s.counts.set height (countAt s.counts height + 1) } := by
      have hadd := checkedAddUint64_eq_ok.mpr
        ⟨show countAt s.counts height ≤ maxUint64 - 1 by omega, rfl⟩
      rw [recordPoWMessage, hadd]
      rfl
    have hself : countAt (s.counts.set height (countAt s.counts height + 1)) height =
        countAt s.counts height + 1 := by rw [countAt_set, if_pos rfl]
    obtain ⟨counts, hrun, hnew, hother⟩ :=
      ih { s with counts := s.counts.set height (countAt s.counts height + 1) }
        (by simp only [hself]; omega)
    refine ⟨counts, by rw [recordMessages, hrecord, ok_bind, hrun], ?_, fun h hh => ?_⟩
    · rw [hnew, hself]
      omega
    · rw [hother h hh, countAt_set, if_neg hh]

end

/-! ## The invariant of a run -/

/-- What holds after the blocks `past`, the last of them at height `top`. -/
structure PowInv (p : PowParams) (past : List PastBlock) (top : ℤ) (s : PowState) : Prop where
  tracks : Tracks PastBlock.messages PastBlock.cleared p.powMessageWindow past top s.counts
  difficulty_le : s.difficulty ≤ maxSafeDifficultySteps
  calm_lt : s.consecutiveLowUsage.getD 0 < p.powCalmSequenceThreshold
  marker : ∀ m, s.cleanupMarker = some m → 1 ≤ (m : ℤ) ∧ m ≤ top
  uint64 : ∀ h, countAt s.counts h ≤ maxUint64

section

variable {p : PowParams} {past : List PastBlock} {top : ℤ} {s : PowState}

/-- What `BeginBlock` leaves: the invariant but for the height, and no count deleted
that a later window reaches. -/
structure Begun (p : PowParams) (past : List PastBlock) (top : ℤ) (s s₁ : PowState) : Prop where
  difficulty : s₁.difficulty = s.difficulty
  tracks : Tracks PastBlock.messages PastBlock.cleared p.powMessageWindow past top s₁.counts
  calm : s₁.consecutiveLowUsage = s.consecutiveLowUsage
  marker : ∀ m, s₁.cleanupMarker = some m → 1 ≤ (m : ℤ) ∧ m ≤ top + 1
  uint64 : ∀ h, countAt s₁.counts h ≤ maxUint64
  swept : ∀ h, countAt s₁.counts h ≠ countAt s.counts h → h ≤ top + 1 - 2 * p.powMessageWindow
  records : SameRecords (top + 1) s s₁

theorem PowInv.beginBlock (hp : p.Valid) (h : PowInv p past top s) (htop : top + 1 ≤ maxInt64) :
    ∃ s₁, beginBlockDifficulty p (top + 1) s = .ok s₁ ∧ Begun p past top s s₁ := by
  obtain ⟨s₀, hinit, hdifficulty, hcounts, hlow, hmarkerEq, hrecords⟩ :=
    initDifficulty_spec (top + 1) h.difficulty_le
  have hmarker : ∀ m, s₀.cleanupMarker = some m → 1 ≤ (m : ℤ) ∧ m ≤ top + 1 := fun m hm => by
    have := h.marker m (hmarkerEq ▸ hm)
    omega
  have hwindow := hp.window_pos
  rw [beginBlockDifficulty, hinit, ok_bind]
  split
  · obtain ⟨swept, marker, hclean, hold, hmarker'⟩ := cleanupOldCounters_spec hp htop hmarker
    have hcount : ∀ h', countAt (swept.foldl OrderedMap.erase s₀.counts) h' ≤ maxUint64 :=
      fun h' => countAt_eraseAll_le (hcounts ▸ h.uint64 h')
    refine ⟨_, hclean, hdifficulty, ?_, hlow, hmarker', hcount, fun h' hne => ?_, hrecords⟩
    · change Tracks _ _ _ _ _ (swept.foldl OrderedMap.erase s₀.counts)
      rw [hcounts]
      refine h.tracks.drop fun h' hh' => ?_
      have := hold h' hh'
      omega
    · simp only [hcounts, countAt_eraseAll] at hne
      by_cases hmem : h' ∈ swept
      · exact hold h' hmem
      · exact absurd (if_neg hmem) hne
  · refine ⟨s₀, rfl, hdifficulty, hcounts ▸ h.tracks, hlow, hmarker, hcounts ▸ h.uint64,
      fun h' hne => ?_, hrecords⟩
    exact absurd (by rw [hcounts]) hne

/-- The messages of the block are counted under its height. -/
theorem PowInv.record (hp : p.Valid) (h : PowInv p past top s) (h0 : 0 ≤ top)
    (htop : top + 1 ≤ maxInt64) {messages : ℕ} (hmessages : messages ≤ maxUint64) :
    ∃ s₁ counts, beginBlockDifficulty p (top + 1) s = .ok s₁ ∧ Begun p past top s s₁ ∧
      recordMessages (top + 1) messages s₁ = .ok { s₁ with counts := counts } ∧
      Tracks PastBlock.messages PastBlock.cleared p.powMessageWindow
        (⟨messages, s.difficulty, false⟩ :: past) (top + 1) counts ∧
      ∀ h, countAt counts h ≤ maxUint64 := by
  obtain ⟨s₁, hbegin, hbegun⟩ := h.beginBlock hp htop
  have hnew : countAt s₁.counts (top + 1) = 0 := hbegun.tracks.above _ (lt_add_one top)
  obtain ⟨counts, hrecord, hcount, hother⟩ := recordMessages_eq (top + 1) messages s₁ (by omega)
  rw [hnew, zero_add] at hcount
  refine ⟨s₁, counts, hbegin, hbegun, hrecord, hbegun.tracks.advance rfl h0 hcount hother,
    fun h' => ?_⟩
  by_cases hself : h' = top + 1
  · rwa [hself, hcount]
  · exact (hother h' hself).trans_le (hbegun.uint64 h')

/-- The state at the end of a block that recorded `counts`. -/
def PowState.ended (p : PowParams) (height : ℤ) (counts : OrderedMap ℤ ℕ) (new : ℕ)
    (low : Option ℕ) (s : PowState) : PowState :=
  { PowState.moved p height s.difficulty new { s with counts := counts } with
    consecutiveLowUsage := low }

theorem PowState.difficulty_ended {height : ℤ} {counts : OrderedMap ℤ ℕ}
    {low : Option ℕ} : (s.ended p height counts new low).difficulty = new :=
  PowState.difficulty_moved (s := { s with counts := counts })

theorem messages_le_recent (hp : p.Valid) {messages d : ℕ} :
    messages ≤ recentMessages p.powMessageWindow (⟨messages, d, false⟩ :: past) := by
  obtain ⟨w, hw⟩ := Nat.exists_eq_succ_of_ne_zero hp.window_pos.ne'
  simp [recentMessages, windowed, hw]

/-- A whole block: it succeeds as long as the counts fit, moves the difficulty by at
most one step and keeps the invariant. -/
theorem PowInv.block (hp : p.Valid) (h : PowInv p past top s) (h0 : 0 ≤ top)
    (htop : top + 1 ≤ maxInt64) {messages : ℕ}
    (hfits : recentMessages p.powMessageWindow (⟨messages, s.difficulty, false⟩ :: past) ≤
      maxUint64) :
    ∃ s₁ counts new low, beginBlockDifficulty p (top + 1) s = .ok s₁ ∧ Begun p past top s s₁ ∧
      recordMessages (top + 1) messages s₁ = .ok { s₁ with counts := counts } ∧
      getPoWMessageCount p (top + 1) { s₁ with counts := counts } =
        .ok (recentMessages p.powMessageWindow (⟨messages, s.difficulty, false⟩ :: past)) ∧
      endBlockDifficulty p (top + 1) { s₁ with counts := counts } =
        .ok (s₁.ended p (top + 1) counts new low) ∧
      new ≤ s.difficulty + 1 ∧ s.difficulty ≤ new + 1 ∧
      PowInv p (⟨messages, s.difficulty, new ≠ s.difficulty⟩ :: past) (top + 1)
        (s₁.ended p (top + 1) counts new low) := by
  obtain ⟨s₁, counts, hbegin, hbegun, hrecord, htracks, huint64⟩ :=
    h.record hp h0 htop ((messages_le_recent hp).trans hfits)
  have hcurrent : s₁.difficulty ≤ maxSafeDifficultySteps := hbegun.difficulty ▸ h.difficulty_le
  have hcalm : s₁.consecutiveLowUsage.getD 0 < p.powCalmSequenceThreshold :=
    hbegun.calm ▸ h.calm_lt
  have hheight : (0 : ℤ) ≤ top + 1 := by omega
  obtain ⟨new, low, hend, hmax, hup, hdown, hlow, -⟩ := endBlockDifficulty_spec
    (s := { s₁ with counts := counts }) hp hheight htracks hfits hcurrent hcalm
  have hs₁ : PowState.difficulty { s₁ with counts := counts } = s.difficulty := hbegun.difficulty
  rw [hs₁] at hup hdown
  refine ⟨s₁, counts, new, low, hbegin, hbegun, hrecord,
    getPoWMessageCount_eq hp hheight htracks hfits, hend, hup, hdown, ?_⟩
  -- The counts are wiped if the difficulty moved and stay as they are otherwise.
  by_cases hmove : new ≠ s.difficulty
  · have hended : s₁.ended p (top + 1) counts new low =
        ⟨(heightsFrom (max 1 (top + 1 - p.powMessageWindow + 1)) (top + 1)).foldl OrderedMap.erase
          counts, some new, some s.difficulty, some (top + 1).toNat, low, s₁.cleanupMarker⟩ := by
      simp only [PowState.ended, PowState.moved, hbegun.difficulty, if_pos hmove]
    rw [hended]
    exact ⟨htracks.wipe (decide_eq_true hmove) rfl, hmax, hlow, hbegun.marker,
      fun h' => countAt_eraseAll_le (huint64 h')⟩
  · have hended : s₁.ended p (top + 1) counts new low =
        { s₁ with counts := counts, consecutiveLowUsage := low } := by
      simp only [PowState.ended, PowState.moved, hbegun.difficulty, if_neg hmove]
    rw [hended]
    simp only [hmove, decide_false]
    exact ⟨htracks, hcurrent, hlow, hbegun.marker, huint64⟩

end

/-! ## Runs -/

theorem foldlM_addCount_fits (hcounts : ∀ h, countAt s.counts h ≤ maxUint64)
    {height : ℤ} {hs : List ℤ} {total r : ℕ} (htotal : total ≤ maxUint64)
    (h : hs.foldlM (addCount s height) total = .ok r) :
    total + (hs.map (countAt s.counts)).sum ≤ maxUint64 := by
  induction hs generalizing total with
  | nil => exact htotal
  | cons h' hs ih =>
    rw [List.foldlM_cons, bind_eq_ok] at h
    obtain ⟨next, hnext, hrest⟩ := h
    have hstep : next = total + countAt s.counts h' ∧ next ≤ maxUint64 := by
      unfold addCount at hnext
      split at hnext
      next hget =>
        obtain rfl := Except.ok.inj hnext
        exact ⟨by simp [countAt, hget], htotal⟩
      next count hget =>
        obtain ⟨hle, rfl⟩ := checkedAddUint64_eq_ok.mp (mapError_eq_ok.mp hnext)
        have hcount : countAt s.counts h' = count := by simp [countAt, hget]
        have := hcounts h'
        exact ⟨by rw [hcount], by omega⟩
    have := ih hstep.2 hrest
    rw [List.map_cons, List.sum_cons]
    omega

theorem recordMessages_fits {height : ℤ} {n : ℕ} {s' : PowState}
    (hcount : countAt s.counts height ≤ maxUint64) (h : recordMessages height n s = .ok s') :
    countAt s.counts height + n ≤ maxUint64 := by
  induction n generalizing s with
  | zero => exact hcount
  | succ n ih =>
    simp only [recordMessages, recordPoWMessage, bind_eq_ok, mapError_eq_ok, pure_eq_ok,
      checkedAddUint64_eq_ok] at h
    obtain ⟨s₁, ⟨count, ⟨hle, rfl⟩, rfl⟩, hrest⟩ := h
    have hself : countAt (s.counts.set height (countAt s.counts height + 1)) height =
        countAt s.counts height + 1 := by rw [countAt_set, if_pos rfl]
    have hmax : 1 ≤ maxUint64 := by decide
    have := ih (by simp only [hself]; omega) hrest
    simp only [hself] at this
    omega

section Block

variable {top : ℤ} {s₁ s₂ s₃ : PowState} {messages : ℕ} (hp : p.Valid) (h : PowInv p past top s)
  (h0 : 0 ≤ top) (htop : top + 1 ≤ maxInt64)
  (hbegin : beginBlockDifficulty p (top + 1) s = .ok s₁)
  (hrecord : recordMessages (top + 1) messages s₁ = .ok s₂)
  (hend : endBlockDifficulty p (top + 1) s₂ = .ok s₃)

include hp h h0 htop hbegin hrecord hend

/-- A block that succeeded counted what fits. -/
theorem PowInv.fits_of_ok :
    recentMessages p.powMessageWindow (⟨messages, s.difficulty, false⟩ :: past) ≤ maxUint64 := by
  obtain ⟨s₁', hbegin', hbegun⟩ := h.beginBlock hp htop
  obtain rfl := Except.ok.inj (hbegin.symm.trans hbegin')
  have hnew : countAt s₁.counts (top + 1) = 0 := hbegun.tracks.above _ (lt_add_one top)
  have hfits := recordMessages_fits (hnew.trans_le (Nat.zero_le _)) hrecord
  obtain ⟨s₁', counts, hbegin', -, hrecord', htracks, huint64⟩ :=
    h.record hp h0 htop (show messages ≤ maxUint64 by omega)
  obtain rfl := Except.ok.inj (hbegin.symm.trans hbegin')
  obtain rfl := Except.ok.inj (hrecord.symm.trans hrecord')
  simp only [endBlockDifficulty, bind_eq_ok] at hend
  obtain ⟨-, -, count, hcounted, -⟩ := hend
  rw [getPoWMessageCount, checkedWindowStart_eq hp (by omega)] at hcounted
  have hsum := foldlM_addCount_fits huint64 (Nat.zero_le _) hcounted
  rwa [zero_add, htracks.sum_eq rfl] at hsum

/-- The last block of a run, taken apart. -/
theorem PowInv.block_of_ok :
    Begun p past top s s₁ ∧ ∃ counts new low, s₃ = s₁.ended p (top + 1) counts new low ∧
      new ≤ s.difficulty + 1 ∧ s.difficulty ≤ new + 1 ∧
      PowInv p (⟨messages, s.difficulty, new ≠ s.difficulty⟩ :: past) (top + 1) s₃ := by
  have hfits := h.fits_of_ok hp h0 htop hbegin hrecord hend
  obtain ⟨s₁', counts, new, low, hbegin', hbegun, hrecord', -, hend', hup, hdown, hinv⟩ :=
    h.block hp h0 htop hfits
  obtain rfl := Except.ok.inj (hbegin.symm.trans hbegin')
  obtain rfl := Except.ok.inj (hrecord.symm.trans hrecord')
  obtain rfl := Except.ok.inj (hend.symm.trans hend')
  exact ⟨hbegun, counts, new, low, rfl, hup, hdown, hinv⟩

theorem PowInv.calm_of_ok
    (hquiet : recentMessages p.powMessageWindow (⟨messages, s₁.difficulty, false⟩ :: past) <
      min p.powMessageLimit p.powCalmPeriodDefinition) : s₃.calmLeft p = s.calmLeft p - 1 := by
  have hfits := h.fits_of_ok hp h0 htop hbegin hrecord hend
  obtain ⟨s₁', counts, hbegin', hbegun, hrecord', htracks, -⟩ :=
    h.record hp h0 htop ((messages_le_recent hp).trans hfits)
  obtain rfl := Except.ok.inj (hbegin.symm.trans hbegin')
  obtain rfl := Except.ok.inj (hrecord.symm.trans hrecord')
  obtain ⟨new, low, hend', -, -, -, -, hcalm⟩ := endBlockDifficulty_spec
    (s := { s₁ with counts := counts }) hp (by omega) htracks hfits
    (hbegun.difficulty.trans_le h.difficulty_le) (hbegun.calm ▸ h.calm_lt)
  obtain rfl := Except.ok.inj (hend.symm.trans hend')
  rw [hbegun.difficulty] at hquiet
  have hleft : PowState.calmLeft p { s₁ with counts := counts } = s.calmLeft p := by
    rw [PowState.calmLeft, PowState.calmLeft, ← hbegun.difficulty, ← hbegun.calm]
    rfl
  rw [← hleft, ← hcalm hquiet]
  exact congrArg (· * _ - _) (PowState.difficulty_moved (s := { s₁ with counts := counts }))

end Block

/-- A run keeps the invariant. -/
theorem PowRun.inv (hp : p.Valid) {first : ℤ} (hfirst : 1 ≤ first) (hrun : PowRun p first past s) :
    PowInv p past (first + past.length - 1) s := by
  induction hrun with
  | start =>
    exact ⟨Tracks.empty _, Nat.zero_le _, hp.threshold_pos, fun m hm => (nomatch hm),
      fun h => Nat.zero_le _⟩
  | @block past s s₁ s₂ s₃ messages _ hheight hbegin hrecord hend ih =>
    have hnext : first + past.length = first + past.length - 1 + 1 := by ring
    have hlength : first + ((past.length + 1 : ℕ) : ℤ) - 1 = first + past.length - 1 + 1 := by
      push_cast
      ring
    rw [hnext] at hheight hbegin hrecord hend
    obtain ⟨hbegun, counts, new, low, rfl, -, -, hinv⟩ :=
      ih.block_of_ok hp (by omega) hheight hbegin hrecord hend
    rw [List.length_cons, hlength, hbegun.difficulty, PowState.difficulty_ended]
    exact hinv

/-- What a run of blocks says about the next one, if the messages of its window can be
counted in 64 bits. -/
theorem difficulty_state_machine {p : PowParams} (hvalid : p.validate = .ok ()) {first : ℤ}
    (hfirst : 1 ≤ first) {past : List PastBlock} {s : PowState} (hrun : PowRun p first past s)
    {height : ℤ} (hheight : height = first + past.length) (hint64 : height ≤ maxInt64)
    (messages : ℕ)
    (hfits : recentMessages p.powMessageWindow (⟨messages, s.difficulty, false⟩ :: past) < 2 ^ 64) :
    s.difficulty ≤ 10000 ∧ s.consecutiveLowUsage.getD 0 < p.powCalmSequenceThreshold ∧
    ∃ s₁ s₂ s₃, beginBlockDifficulty p height s = .ok s₁ ∧
      (∀ h, countAt s₁.counts h ≠ countAt s.counts h → ∀ later start, height ≤ later →
        checkedWindowStart later p.powMessageWindow = .ok start → h < start) ∧
      recordMessages height messages s₁ = .ok s₂ ∧
      getPoWMessageCount p height s₂ =
        .ok (recentMessages p.powMessageWindow (⟨messages, s.difficulty, false⟩ :: past)) ∧
      endBlockDifficulty p height s₂ = .ok s₃ ∧
      s₁.difficulty = s.difficulty ∧
      s₃.difficulty ≤ s.difficulty + 1 ∧ s.difficulty ≤ s₃.difficulty + 1 ∧
      s₃.difficulty ≤ 10000 ∧ s₃.consecutiveLowUsage.getD 0 < p.powCalmSequenceThreshold := by
  have hp := PowParams.valid_of_validate hvalid
  have hinv := hrun.inv hp hfirst
  obtain ⟨top, htop⟩ : ∃ top, top = first + past.length - 1 := ⟨_, rfl⟩
  obtain rfl : height = top + 1 := by omega
  rw [← htop] at hinv
  refine ⟨hinv.difficulty_le, hinv.calm_lt, ?_⟩
  obtain ⟨s₁, counts, new, low, hbegin, hbegun, hrecord, hcount, hend, hup, hdown, hinv₃⟩ :=
    hinv.block hp (by omega) hint64 (Nat.le_sub_one_of_lt hfits)
  refine ⟨s₁, _, _, hbegin, ?_, hrecord, hcount, hend, hbegun.difficulty, ?_, ?_,
    hinv₃.difficulty_le, hinv₃.calm_lt⟩
  rotate_left
  · rwa [PowState.difficulty_ended]
  · rwa [PowState.difficulty_ended]
  intro h hne later start hlater hstart
  have hold := hbegun.swept h hne
  have hwindow := hp.window_pos
  rw [checkedWindowStart_eq hp (by omega)] at hstart
  obtain rfl := Except.ok.inj hstart
  omega

/-- When the traffic stops, the difficulty goes back to zero: every block that ends with a calm
window takes one off the calm blocks that are left, and the difficulty is zero when none is. -/
theorem difficulty_decays {p : PowParams} (hvalid : p.validate = .ok ()) {first : ℤ}
    (hfirst : 1 ≤ first) {past calm : List PastBlock} {s : PowState}
    (hrun : PowRun p first (calm ++ past) s)
    (hcalm : ∀ b older, b :: older <:+ calm →
      recentMessages p.powMessageWindow ({ b with cleared := false } :: (older ++ past)) <
        p.powCalmPeriodDefinition) :
    ∃ s₀, PowRun p first past s₀ ∧ s.calmLeft p = s₀.calmLeft p - calm.length ∧
      (s.calmLeft p = 0 → s.difficulty = 0) := by
  have hp := PowParams.valid_of_validate hvalid
  simp only [PowParams.validate, bind_eq_ok, failIf_eq_ok, exists_const, ge_iff_le,
    not_le] at hvalid
  obtain ⟨-, -, -, hlimit, -⟩ := hvalid
  have hzero : ∀ {past s}, PowRun p first past s → s.calmLeft p = 0 → s.difficulty = 0 := by
    intro past s hrun hleft
    have hlt := (Nat.sub_eq_zero_iff_le.mp hleft).trans_lt (hrun.inv hp hfirst).calm_lt
    exact Nat.lt_one_iff.mp (Nat.lt_of_mul_lt_mul_right (hlt.trans_eq (Nat.one_mul _).symm))
  induction calm generalizing s with
  | nil => exact ⟨s, hrun, rfl, hzero hrun⟩
  | cons b calm ih =>
    rw [List.cons_append] at hrun
    have hdone := hzero hrun
    cases hrun with
    | block hrun hheight hbegin hrecord hend =>
      have hinv := hrun.inv hp hfirst
      obtain ⟨s₀, hrun₀, hleft, -⟩ :=
        ih hrun fun b older h => hcalm b older (h.trans (List.suffix_cons _ _))
      have hnext : first + (calm ++ past).length = first + (calm ++ past).length - 1 + 1 := by ring
      rw [hnext] at hheight hbegin hrecord hend
      refine ⟨s₀, hrun₀, ?_, hdone⟩
      have hquiet := hcalm _ _ List.suffix_rfl
      rw [hinv.calm_of_ok hp (by omega) hheight hbegin hrecord hend
        (lt_min (hquiet.trans hlimit) hquiet), hleft, Nat.sub_sub, List.length_cons]

/-- Two messages make a window of one block busy, and none make it calm. The difficulty of the
first block is taken back by the second. -/
theorem difficulty_decays_secondBlock : ∃ s, PowRun ⟨13, 1, 2, 1, 1, 2, 1⟩ 1
    [⟨0, 1, true⟩, ⟨2, 0, true⟩] s ∧ s.difficulty = 0 := by
  let p : PowParams := ⟨13, 1, 2, 1, 1, 2, 1⟩
  have hbusy := @PowRun.block p 1 [] .empty _ _ _ 2 .start (by decide) rfl rfl rfl
  have hrun : PowRun p 1 ([⟨0, 1, true⟩] ++ [⟨2, 0, true⟩]) _ :=
    @PowRun.block p 1 [⟨2, 0, true⟩] _ _ _ _ 0 hbusy (by decide) rfl rfl rfl
  obtain ⟨s₀, -, -, hzero⟩ := difficulty_decays (by decide +kernel) le_rfl hrun fun b older h => by
    obtain ⟨rfl, rfl⟩ : b = ⟨0, 1, true⟩ ∧ older = [] := by simpa [List.suffix_cons_iff] using h
    decide
  exact ⟨_, hrun, hzero rfl⟩

/-- Parameters under which one message makes a window of one block busy. -/
def oneMessageParams : PowParams := ⟨13, 1, 1, 0, 1, 2, 1⟩

theorem oneMessageParams_validate : oneMessageParams.validate = .ok () := by decide +kernel

/-- The state after `n` blocks with one message each. -/
def busyState (n : ℕ) : PowState := ⟨.empty, some n, some (n - 1), some n, some 0, none⟩

theorem busyRun_one : PowRun oneMessageParams 1 [⟨1, 0, true⟩] (busyState 1) := by
  let s₁ : PowState := ⟨.empty, some 0, some 0, some 1, none, none⟩
  have hint64 : (1 : ℤ) + ([] : List PastBlock).length ≤ maxInt64 := by decide
  have hbegin : beginBlockDifficulty oneMessageParams 1 .empty = .ok s₁ := rfl
  have hrecord : recordMessages 1 1 s₁ = .ok { s₁ with counts := OrderedMap.empty.set 1 1 } := rfl
  have hend : endBlockDifficulty oneMessageParams 1 { s₁ with counts := OrderedMap.empty.set 1 1 } =
      .ok (busyState 1) := rfl
  exact .block .start hint64 hbegin hrecord hend

theorem difficulty_state_machine_secondBlock :
    ∃ s₁ s₂ s₃, beginBlockDifficulty oneMessageParams 2 (busyState 1) = .ok s₁ ∧
      recordMessages 2 1 s₁ = .ok s₂ ∧ getPoWMessageCount oneMessageParams 2 s₂ = .ok 1 ∧
      endBlockDifficulty oneMessageParams 2 s₂ = .ok s₃ ∧ s₃.difficulty ≤ 2 := by
  obtain ⟨-, -, s₁, s₂, s₃, hbegin, -, hrecord, hcount, hend, -, hup, -⟩ :=
    difficulty_state_machine oneMessageParams_validate le_rfl busyRun_one rfl (by decide) 1
      (by decide)
  exact ⟨s₁, s₂, s₃, hbegin, hrecord, hcount, hend, hup⟩

/-- Parameters with a window of two blocks and a limit no count exceeds. -/
def hugeLimitParams : PowParams := ⟨13, 2, 2 ^ 64 - 1, 0, 1, 2, 1⟩

/-- A state with the difficulty set in the first block and any counts. -/
def hugeState (counts : OrderedMap ℤ ℕ) : PowState := ⟨counts, some 0, some 0, some 1, none, none⟩

/-- Two blocks with `2 ^ 63` messages each: their counts are in range, their sum is not,
and `EndBlock` fails. -/
theorem window_sum_overflows :
    hugeLimitParams.validate = .ok () ∧ ∃ past s s₁ s₂, PowRun hugeLimitParams 1 past s ∧
      beginBlockDifficulty hugeLimitParams (1 + past.length) s = .ok s₁ ∧
      recordMessages (1 + past.length) (2 ^ 63) s₁ = .ok s₂ ∧
      ∃ e, endBlockDifficulty hugeLimitParams (1 + past.length) s₂ = .error e := by
  have hvalidate : hugeLimitParams.validate = .ok () := by decide +kernel
  have hp := PowParams.valid_of_validate hvalidate
  -- The number is kept out of sight: nothing below may count up to it.
  obtain ⟨n, hn⟩ : ∃ n : ℕ, n = 2 ^ 63 := ⟨_, rfl⟩
  have hmax : maxUint64 = 2 * n - 1 := by rw [hn]; rfl
  rw [← hn]
  obtain ⟨counts, hrecord, hcount, hother⟩ :=
    recordMessages_eq 1 n (hugeState .empty) (by simp [hugeState, countAt, hmax]; omega)
  have htracks : Tracks PastBlock.messages PastBlock.cleared hugeLimitParams.powMessageWindow
      [⟨n, 0, false⟩] 1 counts :=
    (Tracks.empty 0).advance rfl le_rfl (hcount.trans (Nat.zero_add n)) hother
  have hone : recentMessages hugeLimitParams.powMessageWindow [⟨n, 0, false⟩] = n := Nat.add_zero n
  have hend : endBlockDifficulty hugeLimitParams 1 (hugeState counts) = .ok (hugeState counts) := by
    have hmessages := getPoWMessageCount_eq (s := hugeState counts) hp zero_le_one htracks
      (by omega)
    have hbusy : ¬ n ≥ hugeLimitParams.powMessageLimit := by
      change ¬ n ≥ 2 ^ 64 - 1
      omega
    rw [endBlockDifficulty, getCurrentDifficulty_eq (Nat.zero_le _), ok_bind, hmessages, ok_bind,
      hone]
    change (if n ≥ hugeLimitParams.powMessageLimit then _ else _) = _
    have hcalm : ¬ n < hugeLimitParams.powCalmPeriodDefinition := Nat.not_lt_zero n
    rw [if_neg hbusy, if_neg hcalm]
    rfl
  have hint64 : (1 : ℤ) + ([] : List PastBlock).length ≤ maxInt64 := by decide
  have hrun : PowRun hugeLimitParams 1 [⟨n, 0, false⟩] (hugeState counts) :=
    .block .start hint64 rfl hrecord hend
  have hnew : countAt counts 2 = 0 := htracks.above 2 (by decide)
  obtain ⟨counts₂, hrecord₂, -, -⟩ :=
    recordMessages_eq 2 n (hugeState counts) (by simp only [hugeState, hnew]; omega)
  refine ⟨hvalidate, _, _, hugeState counts, _, hrun, rfl, hrecord₂, ?_⟩
  cases hresult : endBlockDifficulty hugeLimitParams 2
    { hugeState counts with counts := counts₂ } with
  | error e => exact ⟨e, hresult⟩
  | ok s₃ =>
    have hinv : PowInv hugeLimitParams [⟨n, 0, false⟩] 1 (hugeState counts) := hrun.inv hp le_rfl
    have hsum := hinv.fits_of_ok hp zero_le_one (by decide) rfl hrecord₂ hresult
    have htotal : recentMessages hugeLimitParams.powMessageWindow
        [⟨n, (hugeState counts).difficulty, false⟩, ⟨n, 0, false⟩] = n + n :=
      congrArg (n + ·) (Nat.add_zero n)
    rw [htotal] at hsum
    omega

end MirageNode
