import MirageNode.CreatorState

/-!
# The creator clock

`advanceCreatorClock` of `keeper/upgrade_v139.go` and the interval change of
`keeper/creator_schedule.go`. At each block the clock moves towards the epoch of
the block time. An epoch that is left behind draws its pool from the fee stream
and is closed; epochs in which nothing can happen are skipped.
-/

namespace MirageNode

open OrderedStore RateAccumulator RateAccumulator.Accumulator Fallible

/-! ## 1. The clock -/

def earliestOpenCreatorEpoch (s : CreatorState) : Option ℤ :=
  s.openIdx.entries.head?.map Prod.fst

/-- The bound the next breakpoint puts on a jump: the epoch it falls into. A
stream with nothing scheduled reports the instant zero and puts no bound. -/
def streamJumpLimit (sched : CreatorSchedule) (idleUntil target : ℤ) : Except CoreError ℤ :=
  if idleUntil > 0 then do
    let next ← sched.epochAt idleUntil
    return if next < target then next else target
  else .ok target

def idleCreatorClockTarget (s : CreatorState) (sched : CreatorSchedule) (cur target : ℤ) :
    Except CoreError ℤ :=
  match creatorStreamIdleUntil s.stream with
  | none => .ok cur
  | some idleUntil => do
    let limit ← streamJumpLimit sched idleUntil target
    let limit := match earliestOpenCreatorEpoch s with
      | some e => if e < limit then e else limit
      | none => limit
    return if limit < cur then cur else limit

/-- Credits a drawn amount to an epoch; a draw of nothing leaves no record. -/
def creditEpoch (p : Params) (s : CreatorState) (epoch amount : ℤ) :
    Except CoreError CreatorState :=
  if amount > 0 then addEpochPool p s epoch amount else .ok s

/-- One pass of the loop in `advanceCreatorClock`. The flag is false when the
stream could not be settled up to the epoch's end within the budget; the clock
then stays and resumes in the next block. -/
def clockStep (p : Params) (sched : CreatorSchedule) (target : ℤ) (s : CreatorState) :
    Except CoreError (CreatorState × Bool) := do
  let skipTo ← idleCreatorClockTarget s sched s.clock target
  if skipTo > s.clock then return ({ s with clock := skipTo }, true)
  else do
    let boundary ← sched.epochEnd s.clock
    let (stream, amount, complete) ←
      drawCreatorStream s.stream boundary p.creatorSettlementRecordsPerBlock
    let s := { s with stream := stream }
    if complete = false then return (s, false)
    else do
      let s ← creditEpoch p s s.clock amount
      let s ← closeCreatorEpoch s s.clock
      return ({ s with clock := s.clock + 1 }, true)

/-- The loop in `advanceCreatorClock`, with the number of passes left. -/
def clockLoop (p : Params) (sched : CreatorSchedule) (target : ℤ) :
    ℕ → CreatorState → Except CoreError CreatorState
  | 0, s => .ok s
  | n + 1, s =>
    if s.clock < target then do
      let (s, continue_) ← clockStep p sched target s
      if continue_ = true then clockLoop p sched target n s else .ok s
    else .ok s

/-- `advanceCreatorClock`, at block time `now`. -/
def advanceCreatorClock (p : Params) (now : ℤ) (s : CreatorState) :
    Except CoreError CreatorState := do
  let sched := getCreatorSchedule p s
  let target ← sched.epochAt now
  failIf (target < s.clock) (.clockRegression s.clock target)
  clockLoop p sched target p.creatorEpochClosuresPerBlock s

/-! ## 2. Changing the interval -/

def settleCreatorEpochInFlight (p : Params) (s : CreatorState) (epoch now : ℤ) :
    Except CoreError CreatorState := do
  let (stream, amount, complete) ←
    drawCreatorStream s.stream now p.creatorSettlementRecordsPerBlock
  let s := { s with stream := stream }
  failIf (complete = false) .tooManyPendingBoundaries
  let s ← creditEpoch p s epoch amount
  closeCreatorEpoch (truncateCreatorEpochEnd s epoch now) epoch

/-- The grid and clock that `activateCreatorSchedule` starts: the next epoch id
from now on, or the plain grid when the clock never ran. -/
def nextCreatorSchedule (newSeconds : ℕ) (savedClock now : ℤ) :
    Except CoreError (CreatorSchedule × ℤ) :=
  if savedClock > 0 then do
    let originEpoch ← checkedAddInt64 savedClock 1
    return (⟨originEpoch, now, newSeconds⟩, originEpoch)
  else do
    let epoch ← creatorEpochFromUnix now newSeconds
    return (⟨0, 0, newSeconds⟩, epoch)

def activateCreatorSchedule (s : CreatorState) (newSeconds : ℕ) (savedClock now : ℤ) :
    Except CoreError CreatorState := do
  let (sched, clock) ← nextCreatorSchedule newSeconds savedClock now
  let s ← setCreatorSchedule s sched
  let stream ← anchorIfUnused s.stream now
  return { s with clock := clock, stream := stream }

/-- `ApplyCreatorEpochSeconds`, at block time `now`. -/
def applyCreatorEpochSeconds (p : Params) (now : ℤ) (s : CreatorState) (newSeconds : ℕ) :
    Except CoreError CreatorState := do
  failIf (newSeconds = 0) .epochSecondsUnset
  if (getCreatorSchedule p s).epochSeconds = newSeconds then .ok s
  else if s.clock > 0 then do
    let s' ← settleCreatorEpochInFlight p s s.clock now
    activateCreatorSchedule s' newSeconds s.clock now
  else activateCreatorSchedule s newSeconds s.clock now

/-! ## 3. What a pass of the loop does -/

/-- The three things one pass of the clock's loop can do: jump over idle
epochs, wait for a stream that is not settled yet, or close the current epoch. -/
inductive ClockMove (p : Params) (sched : CreatorSchedule) (target : ℤ) (s : CreatorState) :
    CreatorState → Bool → Prop
  | jump {skipTo : ℤ} :
      idleCreatorClockTarget s sched s.clock target = .ok skipTo → s.clock < skipTo →
      ClockMove p sched target s { s with clock := skipTo } true
  | wait {skipTo boundary amount : ℤ} {stream : CreatorStream} :
      idleCreatorClockTarget s sched s.clock target = .ok skipTo → skipTo ≤ s.clock →
      sched.epochEnd s.clock = .ok boundary →
      drawCreatorStream s.stream boundary p.creatorSettlementRecordsPerBlock =
        .ok (stream, amount, false) →
      ClockMove p sched target s { s with stream := stream } false
  | close {skipTo boundary amount : ℤ} {stream : CreatorStream} {s₁ s₂ : CreatorState} :
      idleCreatorClockTarget s sched s.clock target = .ok skipTo → skipTo ≤ s.clock →
      sched.epochEnd s.clock = .ok boundary →
      drawCreatorStream s.stream boundary p.creatorSettlementRecordsPerBlock =
        .ok (stream, amount, true) →
      creditEpoch p { s with stream := stream } s.clock amount = .ok s₁ →
      closeCreatorEpoch s₁ s.clock = .ok s₂ →
      ClockMove p sched target s { s₂ with clock := s.clock + 1 } true

variable {p : Params} {s s' : CreatorState} {sched : CreatorSchedule} {target : ℤ}

theorem creditEpoch_frame {epoch amount : ℤ} (h : creditEpoch p s epoch amount = .ok s') :
    ∃ epochs openIdx, s' = { s with epochs := epochs, openIdx := openIdx } := by
  unfold creditEpoch at h
  split at h
  · obtain ⟨ce, -, rfl⟩ := addEpochPool_eq_ok.mp h
    exact ⟨_, _, rfl⟩
  · cases h
    exact ⟨_, _, rfl⟩

theorem closeCreatorEpoch_frame {epoch : ℤ} (h : closeCreatorEpoch s epoch = .ok s') :
    ∃ epochs openIdx settleIdx,
      s' = { s with epochs := epochs, openIdx := openIdx, settleIdx := settleIdx } := by
  rcases closeCreatorEpoch_cases h with ⟨-, rfl⟩ | ⟨-, ce, -, rfl⟩ <;> exact ⟨_, _, _, rfl⟩

theorem clockStep_move {again : Bool} (h : clockStep p sched target s = .ok (s', again)) :
    ClockMove p sched target s s' again := by
  simp only [clockStep, bind_eq_ok] at h
  obtain ⟨skipTo, hidle, h⟩ := h
  split at h
  · next hlt =>
    cases h
    exact .jump hidle hlt
  · next hge =>
    simp only [bind_eq_ok] at h
    obtain ⟨boundary, hend, ⟨stream, amount, complete⟩, hdraw, h⟩ := h
    cases complete with
    | false =>
      cases h
      exact .wait hidle (not_lt.mp hge) hend hdraw
    | true =>
      simp only [Bool.true_eq_false, if_false, bind_eq_ok, pure_eq_ok, Prod.mk.injEq] at h
      obtain ⟨s₁, hcredit, s₂, hclose, rfl, rfl⟩ := h
      have hclock₁ : s₁.clock = s.clock := by
        obtain ⟨_, _, rfl⟩ := creditEpoch_frame hcredit
        rfl
      have hclock₂ : s₂.clock = s₁.clock := by
        obtain ⟨_, _, _, rfl⟩ := closeCreatorEpoch_frame hclose
        rfl
      rw [hclock₂, hclock₁]
      exact .close hidle (not_lt.mp hge) hend hdraw hcredit (hclock₁ ▸ hclose)

/-- What every move below the target keeps, the loop keeps. -/
theorem clockLoop_induction {P : CreatorState → Prop}
    (hmove : ∀ s s' again, s.clock < target → ClockMove p sched target s s' again → P s → P s')
    {n : ℕ} (h : clockLoop p sched target n s = .ok s') (hs : P s) : P s' := by
  induction n generalizing s with
  | zero =>
    cases h
    exact hs
  | succ n ih =>
    unfold clockLoop at h
    split at h
    · next hlt =>
      rw [bind_eq_ok] at h
      obtain ⟨⟨s₁, again⟩, hstep, h⟩ := h
      have hs₁ := hmove s s₁ again hlt (clockStep_move hstep) hs
      cases again with
      | true => exact ih h hs₁
      | false =>
        cases h
        exact hs₁
    · cases h
      exact hs

/-! ## 4. What an interval change does -/

/-- A change of the epoch interval: nothing if it is the same, a first grid if the
clock never ran, and otherwise the current epoch is cut short and closed and a new
grid starts now. -/
inductive Regrid (p : Params) (now : ℤ) (newSeconds : ℕ) (s : CreatorState) : CreatorState → Prop
  | keep : (getCreatorSchedule p s).epochSeconds = newSeconds → Regrid p now newSeconds s s
  | first {sched : CreatorSchedule} {clock : ℤ} {stream : CreatorStream} : s.clock ≤ 0 →
      nextCreatorSchedule newSeconds s.clock now = .ok (sched, clock) →
      anchorIfUnused s.stream now = .ok stream →
      Regrid p now newSeconds s { s with schedule := some sched, clock := clock, stream := stream }
  | restart {sched : CreatorSchedule} {amount clock : ℤ} {stream stream' : CreatorStream}
      {s₁ s₂ : CreatorState} : 0 < s.clock →
      drawCreatorStream s.stream now p.creatorSettlementRecordsPerBlock =
        .ok (stream, amount, true) →
      creditEpoch p { s with stream := stream } s.clock amount = .ok s₁ →
      closeCreatorEpoch (truncateCreatorEpochEnd s₁ s.clock now) s.clock = .ok s₂ →
      nextCreatorSchedule newSeconds s.clock now = .ok (sched, clock) →
      anchorIfUnused s₂.stream now = .ok stream' →
      Regrid p now newSeconds s
        { s₂ with schedule := some sched, clock := clock, stream := stream' }

theorem activateCreatorSchedule_eq_ok {newSeconds : ℕ}
    {savedClock now : ℤ} (h : activateCreatorSchedule s newSeconds savedClock now = .ok s') :
    ∃ sched clock stream, nextCreatorSchedule newSeconds savedClock now = .ok (sched, clock) ∧
      anchorIfUnused s.stream now = .ok stream ∧
      s' = { s with schedule := some sched, clock := clock, stream := stream } := by
  simp only [activateCreatorSchedule, bind_eq_ok, pure_eq_ok, setCreatorSchedule, failIf_eq_ok,
    exists_const] at h
  obtain ⟨⟨sched, clock⟩, hnext, s₁, ⟨-, -, rfl⟩, stream, hstream, rfl⟩ := h
  exact ⟨sched, clock, stream, hnext, hstream, rfl⟩

theorem applyCreatorEpochSeconds_regrid {now : ℤ} {newSeconds : ℕ}
    (h : applyCreatorEpochSeconds p now s newSeconds = .ok s') : Regrid p now newSeconds s s' := by
  simp only [applyCreatorEpochSeconds, bind_eq_ok, failIf_eq_ok, exists_const] at h
  obtain ⟨-, h⟩ := h
  split at h
  · next hsame =>
    cases h
    exact .keep hsame
  · split at h
    · next hpos =>
      simp only [bind_eq_ok] at h
      obtain ⟨s₂, hsettle, hactivate⟩ := h
      simp only [settleCreatorEpochInFlight, bind_eq_ok, failIf_eq_ok, exists_const] at hsettle
      obtain ⟨⟨stream, amount, complete⟩, hdraw, hcomplete, s₁, hcredit, hclose⟩ := hsettle
      obtain ⟨sched, clock, stream', hnext, hanchor, rfl⟩ := activateCreatorSchedule_eq_ok hactivate
      cases complete with
      | false => exact absurd rfl hcomplete
      | true => exact .restart hpos hdraw hcredit hclose hnext hanchor
    · next hneg =>
      obtain ⟨sched, clock, stream, hnext, hanchor, rfl⟩ := activateCreatorSchedule_eq_ok h
      exact .first (not_lt.mp hneg) hnext hanchor

/-- A new grid starts with a later epoch. -/
theorem nextCreatorSchedule_lt {newSeconds : ℕ} {savedClock now clock : ℤ}
    (h : nextCreatorSchedule newSeconds savedClock now = .ok (sched, clock)) :
    savedClock ≤ clock ∧ (0 < savedClock → savedClock < clock) := by
  unfold nextCreatorSchedule at h
  split at h
  · simp only [bind_eq_ok, pure_eq_ok, checkedAddInt64_eq_ok, Prod.mk.injEq] at h
    obtain ⟨next, ⟨-, -, -, rfl⟩, -, rfl⟩ := h
    omega
  · next hzero =>
    simp only [bind_eq_ok, pure_eq_ok, Prod.mk.injEq, creatorEpochFromUnix,
      CreatorSchedule.epochAt_eq_ok] at h
    obtain ⟨epoch, ⟨-, hle, -, rfl⟩, -, rfl⟩ := h
    have hstart := (CreatorSchedule.mk 0 0 newSeconds).originEpoch_le_gridEpoch hle
    simp only at hstart
    omega

end MirageNode
