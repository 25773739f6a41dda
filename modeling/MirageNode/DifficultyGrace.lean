import MirageNode.Difficulty

/-!
# The grace period of a difficulty change

Work is checked against the difficulty in force or, for `pow_difficulty_allowance`
blocks after a change, against the one before it. Only the last change is stored
(`Remembers`), so a difficulty that was left two rises ago is forgotten early
(`second_rise_ends_grace`); as long as the difficulty has not gone more than one step
above it, it is accepted to the end (`difficulty_grace_period`).
-/

namespace MirageNode

open Fallible OrderedStore SlidingWindow

/-- What the ante chain reads before it checks the work of a block's messages. -/
def readWorkRules (p : PowParams) (height : ℤ) (hashes : HashWindow) (s : PowState) :
    Except PowError WorkRules := do
  let currentDifficulty ← getCurrentDifficulty height s
  let prevDifficulty ← getPreviousDifficulty height s
  let lastChange ← getLastDifficultyChangeHeight height s
  return ⟨hashes, currentDifficulty, prevDifficulty, lastChange, p.powDifficultyAllowance, height,
    p.minDifficulty, p.powDifficultyStep⟩

/-- How the stored change relates to the blocks up to height `top`: either the
difficulty never changed, or the stored block is the last one with another difficulty,
one step away. -/
structure Remembers (past : List PastBlock) (top : ℤ) (s : PowState) (change prev : ℕ) : Prop where
  set : s.currentDifficulty ≠ none
  stored_prev : s.prevDifficulty = some prev
  stored_change : s.lastDiffChangeHeight = some change
  prev_le : prev ≤ maxSafeDifficultySteps
  change_pos : 0 < change
  change_le : (change : ℤ) ≤ top + 1
  last : (prev = s.difficulty ∧ ∀ b ∈ past, b.difficulty = s.difficulty) ∨
    ∃ (j : ℕ) (b : PastBlock), past[j]? = some b ∧ b.difficulty = prev ∧ (change : ℤ) = top - j ∧
      (prev ≠ s.difficulty ∧ prev ≤ s.difficulty + 1 ∧ s.difficulty ≤ prev + 1) ∧
      ∀ (i : ℕ) (b' : PastBlock), i < j → past[i]? = some b' → b'.difficulty = s.difficulty

section

variable {p : PowParams} {past : List PastBlock} {top : ℤ} {s s₁ : PowState}
  {change prev : ℕ}

theorem Remembers.beginBlock (h : Remembers past top s change prev)
    (hrecords : SameRecords (top + 1) s s₁) : Remembers past top s₁ change prev := by
  obtain ⟨-, hcurrent, hprev, hchange⟩ | ⟨hnone, -⟩ := hrecords
  · have hdifficulty : s₁.difficulty = s.difficulty := by rw [PowState.difficulty, hcurrent]; rfl
    refine ⟨hcurrent ▸ h.set, hprev ▸ h.stored_prev, hchange ▸ h.stored_change, h.prev_le,
      h.change_pos, h.change_le, ?_⟩
    rw [hdifficulty]
    exact h.last
  · exact absurd hnone h.set

/-- The first block sets the records. -/
theorem Remembers.firstBlock (hnone : s.currentDifficulty = none) (h0 : 0 ≤ top)
    (hrecords : SameRecords (top + 1) s s₁) : Remembers [] top s₁ (top + 1).toNat 0 := by
  obtain ⟨hsome, -⟩ | ⟨-, hcurrent, hprev, hchange⟩ := hrecords
  · exact absurd hnone hsome
  · refine ⟨by simp [hcurrent], hprev, hchange, Nat.zero_le _, by omega, by omega, .inl ⟨?_, ?_⟩⟩
    · simp [PowState.difficulty, hcurrent]
    · exact fun b hb => absurd hb List.not_mem_nil

/-- `EndBlock` remembers the block that ends, if the difficulty changes. -/
theorem Remembers.endBlock (h : Remembers past top s₁ change prev) (h0 : 0 ≤ top)
    (hcurrent : s₁.difficulty ≤ maxSafeDifficultySteps) {new : ℕ} (hup : new ≤ s₁.difficulty + 1)
    (hdown : s₁.difficulty ≤ new + 1) {counts : OrderedMap ℤ ℕ} {low : Option ℕ} (messages : ℕ)
    (cleared : Bool) :
    ∃ change prev, Remembers (⟨messages, s₁.difficulty, cleared⟩ :: past) (top + 1)
      (s₁.ended p (top + 1) counts new low) change prev := by
  unfold PowState.ended PowState.moved
  by_cases hmove : new ≠ s₁.difficulty
  · rw [if_pos hmove]
    refine ⟨(top + 1).toNat, s₁.difficulty, Option.some_ne_none _, rfl, rfl, hcurrent, by omega,
      by omega, .inr ⟨0, _, rfl, rfl, by omega, ⟨hmove.symm, hdown, hup⟩, ?_⟩⟩
    exact fun i b' hi => absurd hi (Nat.not_lt_zero i)
  · rw [if_neg hmove]
    refine ⟨change, prev, h.set, h.stored_prev, h.stored_change, h.prev_le, h.change_pos,
      h.change_le.trans (by omega), ?_⟩
    rcases h.last with ⟨hprev, hall⟩ | ⟨j, b, hj, hb, hchange, hstep, hsince⟩
    · exact .inl ⟨hprev, List.forall_mem_cons.mpr ⟨rfl, hall⟩⟩
    · refine .inr ⟨j + 1, b, hj, hb, by push_cast; omega, hstep, fun i b' hi hget => ?_⟩
      cases i with
      | zero =>
        obtain rfl := Option.some.inj hget
        rfl
      | succ i => exact hsince i b' (Nat.lt_of_succ_lt_succ hi) hget

/-- What is stored while the block after a run is executed. -/
theorem PowRun.remembers (hp : p.Valid) {first : ℤ} (hfirst : 1 ≤ first)
    (hrun : PowRun p first past s) (hrecords : SameRecords (first + past.length) s s₁) :
    ∃ change prev, Remembers past (first + past.length - 1) s₁ change prev := by
  induction hrun generalizing s₁ with
  | start =>
    have hzero : first + ([] : List PastBlock).length = first - 1 + 1 := by simp
    rw [hzero] at hrecords
    refine ⟨_, _, Remembers.firstBlock (s := .empty) rfl ?_ ?_⟩
    · simp only [List.length_nil]
      omega
    · simpa using hrecords
  | @block past s s₁' s₂ s₃ messages hrun hheight hbegin hrecord hend ih =>
    have hnext : first + past.length = first + past.length - 1 + 1 := by ring
    have hlength : first + ((past.length + 1 : ℕ) : ℤ) - 1 = first + past.length - 1 + 1 := by
      push_cast
      ring
    have hinv := hrun.inv hp hfirst
    rw [hnext] at hheight hbegin hrecord hend
    obtain ⟨hbegun, counts, new, low, rfl, hup, hdown, -⟩ :=
      hinv.block_of_ok hp (by omega) hheight hbegin hrecord hend
    obtain ⟨change, prev, hduring⟩ := ih (hnext.symm ▸ hbegun.records)
    have hcurrent : s₁'.difficulty ≤ maxSafeDifficultySteps :=
      hbegun.difficulty ▸ hinv.difficulty_le
    rw [← hbegun.difficulty] at hup hdown
    obtain ⟨change, prev, hafter⟩ := hduring.endBlock (by omega) hcurrent hup hdown messages _
    have hheights : first + ((past.length + 1 : ℕ) : ℤ) =
        first + ((past.length + 1 : ℕ) : ℤ) - 1 + 1 := by ring
    rw [List.length_cons, hheights, hlength] at hrecords
    rw [List.length_cons, hlength]
    exact ⟨change, prev, hafter.beginBlock hrecords⟩

/-- The rules a block's messages are held to, read from the stored records. -/
theorem Remembers.readWorkRules_eq (h : Remembers past top s₁ change prev)
    (hcurrent : s₁.difficulty ≤ maxSafeDifficultySteps) (htop : top + 1 ≤ maxInt64)
    (hashes : HashWindow) :
    readWorkRules p (top + 1) hashes s₁ = .ok ⟨hashes, s₁.difficulty, prev, change,
      p.powDifficultyAllowance, top + 1, p.minDifficulty, p.powDifficultyStep⟩ := by
  have hprev : getPreviousDifficulty (top + 1) s₁ = .ok prev := by
    rw [getPreviousDifficulty, h.stored_prev]
    exact (congrArg (· >>= _) (failIf_of_not _ (not_lt.mpr h.prev_le))).trans rfl
  have hchange : getLastDifficultyChangeHeight (top + 1) s₁ = .ok change := by
    rw [getLastDifficultyChangeHeight, h.stored_change]
    exact mapError_eq_ok.mpr (checkedUint64ToInt64_eq_ok.mpr ⟨h.change_le.trans htop, rfl⟩)
  rw [readWorkRules, getCurrentDifficulty_eq hcurrent, ok_bind, hprev, ok_bind, hchange, ok_bind]
  rfl

/-- A difficulty of the last `powDifficultyAllowance` blocks that has not been passed by
more than one step since is enough. -/
theorem Remembers.minRequired_le (h : Remembers past top s₁ change prev) {i : ℕ} {b : PastBlock}
    (hb : past[i]? = some b) (hi : i < p.powDifficultyAllowance)
    (hsince : ∀ j < i, ∀ b', past[j]? = some b' → b'.difficulty ≤ b.difficulty + 1)
    (hnow : s₁.difficulty ≤ b.difficulty + 1) (hashes : HashWindow) :
    WorkRules.minRequired ⟨hashes, s₁.difficulty, prev, change, p.powDifficultyAllowance, top + 1,
      p.minDifficulty, p.powDifficultyStep⟩ ≤ b.difficulty := by
  have hpos := h.change_pos
  rcases le_or_gt s₁.difficulty b.difficulty with hle | hgt
  · rw [WorkRules.minRequired]
    split
    next hgrace => exact hgrace.2.2.2.le.trans hle
    next => exact hle
  · -- One step above it: then the last change was the one that left it.
    rcases h.last with ⟨-, hall⟩ | ⟨j, c, hj, hc, hchange, hstep, hkept⟩
    · exact absurd (hall b (List.mem_of_getElem? hb)) (by omega)
    · have hji : j ≤ i := by
        by_contra hlt
        exact absurd (hkept i b (by omega) hb) (by omega)
      have hprevLe : prev ≤ b.difficulty + 1 := by
        rcases hji.eq_or_lt with rfl | hlt
        · obtain rfl := Option.some.inj (hj.symm.trans hb)
          omega
        · exact hc ▸ hsince j hlt c hj
      have hgrace : 0 < p.powDifficultyAllowance ∧ (0 : ℤ) < change ∧
          top + 1 - change ≤ p.powDifficultyAllowance ∧ prev < s₁.difficulty := by omega
      rw [WorkRules.minRequired, if_pos hgrace]
      change prev ≤ b.difficulty
      omega

/-- The lowest accepted difficulty is in force, or was within the allowance. -/
theorem Remembers.minRequired_mem (h : Remembers past top s₁ change prev) (hashes : HashWindow) :
    ∃ d, (d = s₁.difficulty ∨
        ∃ i < p.powDifficultyAllowance, ∃ b, past[i]? = some b ∧ d = b.difficulty) ∧
      WorkRules.minRequired ⟨hashes, s₁.difficulty, prev, change, p.powDifficultyAllowance,
        top + 1, p.minDifficulty, p.powDifficultyStep⟩ = d := by
  rw [WorkRules.minRequired]
  split
  next hgrace =>
    obtain ⟨-, -, hage, hlower⟩ := hgrace
    dsimp only at hage hlower
    rcases h.last with ⟨hsame, -⟩ | ⟨j, b, hj, hb, hchange, -, -⟩
    · exact absurd hsame hlower.ne
    · exact ⟨prev, .inr ⟨j, by omega, b, hj, hb.symm⟩, rfl⟩
  next => exact ⟨_, .inl rfl, rfl⟩

theorem PowRun.past_difficulty_le (hp : p.Valid) {first : ℤ} (hfirst : 1 ≤ first)
    (hrun : PowRun p first past s) : ∀ b ∈ past, b.difficulty ≤ maxSafeDifficultySteps := by
  induction hrun with
  | start => exact fun b hb => absurd hb List.not_mem_nil
  | @block past s s₁ s₂ s₃ messages hrun hheight hbegin hrecord hend ih =>
    have hnext : first + past.length = first + past.length - 1 + 1 := by ring
    have hinv := hrun.inv hp hfirst
    rw [hnext] at hheight hbegin
    obtain ⟨s₁', hbegin', hbegun⟩ := hinv.beginBlock hp hheight
    obtain rfl := Except.ok.inj (hbegin.symm.trans hbegin')
    exact List.forall_mem_cons.mpr ⟨hbegun.difficulty.trans_le hinv.difficulty_le, ih⟩

end

/-! ## Accepted work -/

/-- Every message that declares difficulty `d`, names a known block and meets the target
of `d` passes. -/
def Accepts (idKey : List UInt8 → List UInt8 → ℕ) (w : WorkRules) (d : ℕ) : Prop :=
  ∀ canonical lastBlockHash pow target, w.hashes.check lastBlockHash = .ok () →
    computeTarget w.baseBits d w.powFactor = .ok target →
    idKey (canonical ++ 58 :: TaggedFields.uvarint pow) lastBlockHash ≤ target →
    validatePoWBytesArgon2 idKey w canonical lastBlockHash d pow = .ok ()

theorem validatePoWBytesArgon2_eq_ok {idKey : List UInt8 → List UInt8 → ℕ} {w : WorkRules}
    {canonical lastBlockHash : List UInt8} {difficulty pow : ℕ} :
    validatePoWBytesArgon2 idKey w canonical lastBlockHash difficulty pow = .ok () ↔
      difficulty ≤ maxSafeDifficultySteps ∧ w.hashes.check lastBlockHash = .ok () ∧
      ∃ target, computeTarget w.baseBits (max difficulty w.minRequired) w.powFactor = .ok target ∧
        idKey (canonical ++ 58 :: TaggedFields.uvarint pow) lastBlockHash ≤ target := by
  simp only [validatePoWBytesArgon2, bind_eq_ok, failIf_eq_ok, exists_const, gt_iff_lt, not_lt]
  exact and_congr_right' Unique.exists_iff

theorem accepts_of_minRequired_le {idKey : List UInt8 → List UInt8 → ℕ} {w : WorkRules} {d : ℕ}
    (hd : d ≤ maxSafeDifficultySteps) (hle : w.minRequired ≤ d) : Accepts idKey w d := by
  intro canonical lastBlockHash pow target hhash htarget hmeets
  refine validatePoWBytesArgon2_eq_ok.mpr ⟨hd, hhash, target, ?_, hmeets⟩
  rwa [max_eq_left hle]

/-- The grace period, at the height after any run. The block `past[i]` was executed
`i + 1` heights ago, so `i < powDifficultyAllowance` says that this height is at most the
allowance after it. Its difficulty is still accepted if the difficulty has not gone more
than one step above it since; and accepted work meets the target of a difficulty that is
in force or was within the allowance. -/
theorem difficulty_grace_period {p : PowParams} (hvalid : p.validate = .ok ()) {first : ℤ}
    (hfirst : 1 ≤ first) {past : List PastBlock} {s s₁ : PowState} (hrun : PowRun p first past s)
    {height : ℤ} (hheight : height = first + past.length) (hint64 : height ≤ maxInt64)
    (hbegin : beginBlockDifficulty p height s = .ok s₁) (hashes : HashWindow)
    (idKey : List UInt8 → List UInt8 → ℕ) :
    ∃ rules, readWorkRules p height hashes s₁ = .ok rules ∧
      Accepts idKey rules s₁.difficulty ∧
      (∀ i b, past[i]? = some b → i < p.powDifficultyAllowance →
        (∀ j < i, ∀ b', past[j]? = some b' → b'.difficulty ≤ b.difficulty + 1) →
        s₁.difficulty ≤ b.difficulty + 1 → Accepts idKey rules b.difficulty) ∧
      ∀ canonical lastBlockHash difficulty pow,
        validatePoWBytesArgon2 idKey rules canonical lastBlockHash difficulty pow = .ok () →
        ∃ d, (d = s₁.difficulty ∨
            ∃ i < p.powDifficultyAllowance, ∃ b, past[i]? = some b ∧ d = b.difficulty) ∧
          ∃ target, computeTarget p.minDifficulty d p.powDifficultyStep = .ok target ∧
            idKey (canonical ++ 58 :: TaggedFields.uvarint pow) lastBlockHash ≤ target := by
  have hp := PowParams.valid_of_validate hvalid
  have hinv := hrun.inv hp hfirst
  obtain ⟨top, htop⟩ : ∃ top, top = first + past.length - 1 := ⟨_, rfl⟩
  obtain rfl : height = top + 1 := by omega
  rw [← htop] at hinv
  obtain ⟨s₁', hbegin', hbegun⟩ := hinv.beginBlock hp hint64
  obtain rfl := Except.ok.inj (hbegin.symm.trans hbegin')
  have hcurrent : s₁.difficulty ≤ maxSafeDifficultySteps :=
    hbegun.difficulty.trans_le hinv.difficulty_le
  have hpast := hrun.past_difficulty_le hp hfirst
  obtain ⟨change, prev, hduring⟩ := hrun.remembers hp hfirst (hheight ▸ hbegun.records)
  rw [← htop] at hduring
  refine ⟨_, hduring.readWorkRules_eq hcurrent hint64 hashes, ?_, ?_, ?_⟩
  · refine accepts_of_minRequired_le hcurrent ?_
    rw [WorkRules.minRequired]
    split
    next hgrace => exact hgrace.2.2.2.le
    next => exact le_rfl
  · intro i b hb hi hsince hnow
    exact accepts_of_minRequired_le (hpast b (List.mem_of_getElem? hb))
      (hduring.minRequired_le hb hi hsince hnow hashes)
  · intro canonical lastBlockHash difficulty pow haccepted
    obtain ⟨hdeclared, -, target, htarget, hmeets⟩ := validatePoWBytesArgon2_eq_ok.mp haccepted
    obtain ⟨d, hrecent, hmin⟩ := hduring.minRequired_mem (p := p) hashes
    have hd : d ≤ maxSafeDifficultySteps := by
      rcases hrecent with rfl | ⟨i, -, b, hb, rfl⟩
      · exact hcurrent
      · exact hpast b (List.mem_of_getElem? hb)
    refine ⟨d, hrecent, _, computeTarget_eq hp.step_pos hp.step_le _ hd, ?_⟩
    rw [hmin, computeTarget_eq hp.step_pos hp.step_le _ (max_le hdeclared hd)] at htarget
    obtain rfl := Except.ok.inj htarget
    exact hmeets.trans (exactTarget_antitone hp.step_pos _ (le_max_right _ _))

/-- No block hash is checked. -/
def openWindow : HashWindow := ⟨[], fun _ => false, true⟩

/-- One block after the first rise the base difficulty is still accepted. -/
theorem difficulty_grace_period_firstRise :
    ∃ rules, readWorkRules oneMessageParams 2 openWindow (busyState 1) = .ok rules ∧
      Accepts (fun _ _ => 0) rules 0 := by
  obtain ⟨rules, hrules, -, hgrace, -⟩ := difficulty_grace_period oneMessageParams_validate le_rfl
    busyRun_one (rfl : (2 : ℤ) = _) (by decide) rfl openWindow fun _ _ => 0
  refine ⟨rules, hrules, hgrace 0 ⟨1, 0, true⟩ rfl (by decide) ?_ (by decide)⟩
  exact fun j hj => absurd hj (Nat.not_lt_zero j)

theorem busyRun_two : PowRun oneMessageParams 1 [⟨1, 1, true⟩, ⟨1, 0, true⟩] (busyState 2) := by
  have hint64 : (1 : ℤ) + [(⟨1, 0, true⟩ : PastBlock)].length ≤ maxInt64 := by decide
  have hbegin : beginBlockDifficulty oneMessageParams 2 (busyState 1) = .ok (busyState 1) := rfl
  have hrecord : recordMessages 2 1 (busyState 1) =
      .ok { busyState 1 with counts := OrderedMap.empty.set 2 1 } := rfl
  have hend : endBlockDifficulty oneMessageParams 2
      { busyState 1 with counts := OrderedMap.empty.set 2 1 } = .ok (busyState 2) := rfl
  exact .block busyRun_one hint64 hbegin hrecord hend

/-- Two rises in a row: the difficulty left at height 1 is refused at height 3, inside its
allowance of two blocks. -/
theorem second_rise_ends_grace :
    PowRun oneMessageParams 1 [⟨1, 1, true⟩, ⟨1, 0, true⟩] (busyState 2) ∧
      beginBlockDifficulty oneMessageParams 3 (busyState 2) = .ok (busyState 2) ∧
      ∃ rules target, readWorkRules oneMessageParams 3 openWindow (busyState 2) = .ok rules ∧
        computeTarget oneMessageParams.minDifficulty 0 oneMessageParams.powDifficultyStep =
          .ok target ∧
        validatePoWBytesArgon2 (fun _ _ => target) rules [] [] 0 0 = .error .insufficientWork := by
  have hlow : computeTarget 13 0 1 = .ok (2 ^ 243) := by
    rw [computeTarget_eq one_pos le_rfl 13 (Nat.zero_le _), exactTarget, exactFactor]
    norm_num [baseDifficultyFactor, maxSafeDifficultyFactor]
  have hhigh : computeTarget 13 1 1 = .ok (2 ^ 242) := by
    rw [computeTarget_eq one_pos le_rfl 13 (by decide), exactTarget, exactFactor]
    norm_num [baseDifficultyFactor, maxSafeDifficultyFactor]
    rfl
  refine ⟨busyRun_two, rfl, _, 2 ^ 243, rfl, hlow, ?_⟩
  have hrules : WorkRules.minRequired ⟨openWindow, 2, 1, 2, 2, 3, 13, 1⟩ = 1 := by decide
  change (computeTarget 13 (max 0 (WorkRules.minRequired ⟨openWindow, 2, 1, 2, 2, 3, 13, 1⟩)) 1 >>=
    fun effTarget => failIf (2 ^ 243 > effTarget) WorkError.insufficientWork) = _
  rw [hrules, max_eq_right zero_le_one, hhigh, ok_bind]
  decide

end MirageNode
