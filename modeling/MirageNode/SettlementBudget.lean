import MirageNode.SettlementTick

/-!
# Settlement does not depend on the budget

Two settlements of one state, run block by block to their end under whatever
budgets, agree on everything but the claim dates (`SettlementDone.agree`). Every
block with a positive budget makes progress. One block looks at 32 waiting
epochs only, so a single pass, even with an unbounded budget, settles all of them
only if there are no more than that.
-/

namespace MirageNode

open OrderedStore OrderedMap Fallible

/-! ## 1. Forgetting the claim dates -/

/-- A record without the dates that a block writes into it. -/
def CreatorEpoch.undated (ce : CreatorEpoch) : CreatorEpoch := ce.redate 0 0 0

/-- A state without claim dates and clock. -/
def CreatorState.undated (s : CreatorState) : CreatorState :=
  s.reframe (s.epochs.mapVal CreatorEpoch.undated) .empty 0

theorem saveEpoch_undated (s : CreatorState) (ce : CreatorEpoch) :
    saveEpoch s.undated ce.undated = (saveEpoch s ce).undated := by
  simp only [saveEpoch, CreatorState.undated, CreatorState.reframe, mapVal_set]
  rfl

theorem CreatorState.undated_undated (s : CreatorState) : s.undated.undated = s.undated := by
  have hepochs : s.undated.epochs.mapVal CreatorEpoch.undated = s.undated.epochs := by
    apply ext_get
    intro e
    simp only [CreatorState.undated, reframe, get_mapVal, Option.map_map]
    rfl
  show s.undated.reframe _ .empty 0 = _
  rw [hepochs]
  rfl

theorem expireEpochUnallocated_undated (s : CreatorState) (ce : CreatorEpoch) (burn : ℤ) :
    expireEpochUnallocated s.undated ce.undated burn =
      (expireEpochUnallocated s ce burn).map CreatorState.undated := by
  have hburn : burnCreatorPool s.undated burn = _ :=
    burnCreatorPool_reframe (s.epochs.mapVal CreatorEpoch.undated) .empty 0 s burn
  unfold expireEpochUnallocated
  rw [hburn]
  cases h : burnCreatorPool s burn with
  | error e => rfl
  | ok s' =>
    obtain ⟨bank, liability, rfl⟩ := burnCreatorPool_keeps h
    simp only [Except.map, ok_bind, pure, Except.pure, CreatorState.undated, CreatorState.reframe,
      mapVal_set]
    rfl

theorem endCount_undated (s : CreatorState) (ce : CreatorEpoch) :
    endCount s.undated ce.undated = (endCount s ce).map CreatorState.undated := by
  unfold endCount
  show (if ce.activeEngagers = 0 then _ else _) = _
  split
  · exact expireEpochUnallocated_undated s ce ce.pool
  · exact congrArg Except.ok (saveEpoch_undated s ce.allocating)

theorem countTick_undated (s : CreatorState) (ce : CreatorEpoch) :
    countTick s.undated ce.undated = (countTick s ce).map CreatorState.undated := by
  unfold countTick
  have hrecords : engagementsFrom s.undated ce.undated.epochId ce.undated.settlementCursor =
      engagementsFrom s ce.epochId ce.settlementCursor := rfl
  rw [hrecords]
  cases engagementsFrom s ce.epochId ce.settlementCursor with
  | cons r rest =>
    have hcount : countRecord (s.undated, ce.undated) r = _ :=
      countRecord_reframe (s.epochs.mapVal CreatorEpoch.undated) .empty 0 0 0 0 s ce r
    simp only [hcount]
    cases h : countRecord (s, ce) r with
    | error e => rfl
    | ok st =>
      obtain ⟨s', ce'⟩ := st
      obtain ⟨⟨_, _, rfl⟩, _, _, _, rfl⟩ := countRecord_keeps h
      exact congrArg Except.ok (saveEpoch_undated _ _)
  | nil =>
    have hflush : flushCountActor s.undated ce.undated = _ :=
      flushCountActor_reframe (s.epochs.mapVal CreatorEpoch.undated) .empty 0 0 0 0 s ce
    simp only [hflush]
    cases h : flushCountActor s ce with
    | error e => rfl
    | ok st =>
      obtain ⟨s', ce'⟩ := st
      obtain ⟨⟨_, rfl⟩, _, _, _, rfl⟩ := flushCountActor_keeps h
      exact endCount_undated _ _

/-- Which block an allocation ends in shows only in the dates, unless the claim
deadline overflows there. -/
theorem finishAllocate_undated (p : Params) (now : ℤ) (s : CreatorState) (ce : CreatorEpoch) :
    (finishAllocate p now s ce).map CreatorState.undated =
        (finishAllocate defaultParams 0 s.undated ce.undated).map CreatorState.undated ∨
      ∃ err, creatorClaimDeadline now p.creatorClaimWindowDays = .error err ∧
        finishAllocate p now s ce = .error err := by
  unfold finishAllocate
  show (Except.map _ (failIf (ce.allocatedTotal > ce.pool) _ >>= _) =
    Except.map _ (failIf (ce.allocatedTotal > ce.pool) _ >>= _)) ∨ _
  rcases le_or_gt ce.allocatedTotal ce.pool with hle | hgt
  · have hnot : ¬ ce.allocatedTotal > ce.pool := not_lt.mpr hle
    simp only [failIf_of_not _ hnot, ok_bind]
    show (Except.map _ (if ce.allocatedTotal ≤ 0 then _ else _) =
      Except.map _ (if ce.allocatedTotal ≤ 0 then _ else _)) ∨ _
    split
    · refine .inl ?_
      show _ = Except.map _ (expireEpochUnallocated s.undated ce.undated ce.pool)
      rw [expireEpochUnallocated_undated]
      cases expireEpochUnallocated s ce ce.pool with
      | error e => rfl
      | ok s' => exact congrArg Except.ok s'.undated_undated.symm
    · cases hd : creatorClaimDeadline now p.creatorClaimWindowDays with
      | error err => exact .inr ⟨err, rfl, rfl⟩
      | ok deadline =>
        refine .inl ?_
        have hd₀ : creatorClaimDeadline 0 defaultParams.creatorClaimWindowDays = .ok 2592000 := by
          decide +kernel
        simp only [hd₀, ok_bind]
        refine congrArg (fun E => Except.ok (CreatorState.reframe
          { s with settleIdx := s.settleIdx.erase ce.epochId } E .empty 0)) ?_
        apply ext_get
        intro e
        have hid : ce.undated.epochId = ce.epochId := rfl
        simp only [get_mapVal, get_set, CreatorState.undated,
          CreatorState.reframe, hid]
        split
        · rfl
        · rw [Option.map_map]
          rfl
  · refine .inl ?_
    simp only [failIf, if_pos hgt, error_bind]
    rfl

theorem allocateTick_undated (p : Params) (now : ℤ) (s : CreatorState) (ce : CreatorEpoch) :
    (allocateTick p now s ce).map CreatorState.undated =
        (allocateTick defaultParams 0 s.undated ce.undated).map CreatorState.undated ∨
      ∃ err, creatorClaimDeadline now p.creatorClaimWindowDays = .error err ∧
        allocateTick p now s ce = .error err := by
  unfold allocateTick
  have hrecords : engagementsFrom s.undated ce.undated.epochId ce.undated.settlementCursor =
      engagementsFrom s ce.epochId ce.settlementCursor := rfl
  rw [hrecords]
  cases engagementsFrom s ce.epochId ce.settlementCursor with
  | cons r rest =>
    have halloc : allocateRecord (s.undated, ce.undated) r = _ :=
      allocateRecord_reframe (s.epochs.mapVal CreatorEpoch.undated) .empty 0 0 0 0 s ce r
    refine .inl ?_
    simp only [halloc]
    cases h : allocateRecord (s, ce) r with
    | error e => rfl
    | ok st =>
      obtain ⟨s', ce'⟩ := st
      obtain ⟨⟨_, _, _, rfl⟩, _, rfl⟩ := allocateRecord_keeps h
      refine congrArg Except.ok ?_
      rw [← CreatorState.undated_undated, ← saveEpoch_undated]
      rfl
  | nil => exact finishAllocate_undated p now s ce

/-- A tick is the same in every block, but for the dates. -/
def coreTick (s : CreatorState) : Except CoreError CreatorState :=
  (settleTick defaultParams 0 s).map CreatorState.undated

theorem settleTick_undated (p : Params) (now : ℤ) (s : CreatorState) :
    (settleTick p now s).map CreatorState.undated = coreTick s.undated ∨
      ∃ err, creatorClaimDeadline now p.creatorClaimWindowDays = .error err ∧
        settleTick p now s = .error err := by
  unfold coreTick settleTick
  rw [show s.undated.settleIdx = s.settleIdx from rfl]
  cases s.settleIdx.entries with
  | nil => exact .inl (congrArg Except.ok s.undated_undated.symm)
  | cons e es =>
    simp only [epochTick]
    have hget : s.undated.epochs.get e.1 = (s.epochs.get e.1).map CreatorEpoch.undated :=
      get_mapVal _ _ _
    rw [hget]
    cases s.epochs.get e.1 with
    | none => exact .inl rfl
    | some ce =>
      simp only [Option.map_some]
      have hst : ce.undated.status = ce.status := rfl
      have hph : ce.undated.phase = ce.phase := rfl
      simp only [hst, hph]
      cases ce.status with
      | counting =>
        simp only
        split
        · exact .inl rfl
        · rw [countTick_undated]
          refine .inl ?_
          cases countTick s ce with
          | error e => rfl
          | ok s' => exact congrArg Except.ok s'.undated_undated.symm
      | allocating =>
        simp only
        split
        · exact .inl rfl
        · exact allocateTick_undated p now s ce
      | opened | claimable => exact .inl (congrArg Except.ok (CreatorState.undated_undated _).symm)
      | expired => exact .inl (congrArg Except.ok (CreatorState.undated_undated _).symm)

variable {p : Params} {now : ℤ} {s s' : CreatorState}

theorem coreTick_of_ok (h : settleTick p now s = .ok s') : coreTick s.undated = .ok s'.undated := by
  rcases settleTick_undated p now s with heq | ⟨err, -, herr⟩
  · rw [← heq, h]
    rfl
  · rw [h] at herr
    cases herr

/-- Where the claim deadline fits, an error of a tick is an error of the core
tick. -/
theorem coreTick_of_error {deadline : ℤ} {err : CoreError}
    (hd : creatorClaimDeadline now p.creatorClaimWindowDays = .ok deadline)
    (h : settleTick p now s = .error err) : coreTick s.undated = .error err := by
  rcases settleTick_undated p now s with heq | ⟨err', herr, -⟩
  · rw [← heq, h]
    rfl
  · rw [hd] at herr
    cases herr

/-- Any number of core ticks. -/
def CoreTicks : CreatorState → CreatorState → Prop :=
  Relation.ReflTransGen fun s s' => coreTick s = .ok s'

theorem Ticks.core (h : Ticks p now s s') : CoreTicks s.undated s'.undated := by
  induction h with
  | refl => exact .refl
  | tail _ htick ih => exact ih.tail (coreTick_of_ok htick)

/-! ## 2. Runs of blocks -/

/-- Blocks that settle, one after the other, with any parameters, block times and
clocks. -/
inductive SettleRun (s : CreatorState) : CreatorState → Prop
  | start : SettleRun s s
  | block {s₁ s₂ : CreatorState} (p : Params) (now clock : ℤ) :
      SettleRun s s₁ → processCreatorSettlement p now { s₁ with clock := clock } = .ok s₂ →
      SettleRun s s₂

/-- No waiting epoch is counting or allocating. -/
def SettlementDone (s : CreatorState) : Prop :=
  ∀ e ce, s.settleIdx.has e = true → s.epochs.get e = some ce →
    ce.status ≠ .counting ∧ ce.status ≠ .allocating

/-- The same outcome for every epoch: status, counts, slice and totals (all but
the claim dates), accruals and earnings. -/
structure SameOutcome (s s' : CreatorState) : Prop where
  epochs : ∀ e, (s.epochs.get e).map CreatorEpoch.undated =
    (s'.epochs.get e).map CreatorEpoch.undated
  accruals : s.accruals = s'.accruals
  targets : s.targets = s'.targets
  targetTotals : s.targetTotals = s'.targetTotals

theorem SettleRun.wellKeyed (h : SettleRun s s') (hs : WellKeyed s) : WellKeyed s' := by
  induction h with
  | start => exact hs
  | @block s₁ s₂ p now clock _ hblock ih =>
    have hkeyed : WellKeyed { s₁ with clock := clock } := ih
    exact hkeyed.ticks ((settlement_ticks hkeyed).of_eq_ok hblock)

theorem SettleRun.core (h : SettleRun s s') (hs : WellKeyed s) :
    CoreTicks s.undated s'.undated := by
  induction h with
  | start => exact .refl
  | @block s₁ s₂ p now clock hrun hblock ih =>
    have hkeyed : WellKeyed { s₁ with clock := clock } := hrun.wellKeyed hs
    exact ih.trans ((settlement_ticks hkeyed).of_eq_ok hblock).core

theorem SettlementDone.undated (h : SettlementDone s) : SettlementDone s.undated := by
  intro e ce hwait hget
  have hget' : (s.epochs.get e).map CreatorEpoch.undated = some ce := by
    rw [← get_mapVal]
    exact hget
  obtain ⟨ce', hce', rfl⟩ := Option.map_eq_some_iff.mp hget'
  exact h e ce' hwait hce'

/-- Once nothing counts or allocates, a tick only drops an entry of the waiting
index. -/
theorem SettlementDone.tick (h : SettlementDone s)
    (htick : TickCase p now s s') :
      ∃ idx, s' = { s with settleIdx := idx } ∧ SettlementDone s' := by
  have hhead : ∀ {epoch es ce}, s.settleIdx.entries = (epoch, ()) :: es →
      s.epochs.get epoch = some ce → ce.status ≠ .counting ∧ ce.status ≠ .allocating :=
    fun hes hget => h _ _ (has_iff.mpr ⟨_, get_head hes⟩) hget
  cases htick with
  | idle => exact ⟨_, rfl, h⟩
  | @drop epoch es ce hes hget =>
    exact ⟨_, rfl, fun e ce' hwait hget' => h e ce' (has_of_erase hwait) hget'⟩
  | count hes hget hst => exact absurd hst (hhead hes hget).1
  | countNone hes hget hst => exact absurd hst (hhead hes hget).1
  | countDone hes hget hst => exact absurd hst (hhead hes hget).1
  | allocate hes hget hst => exact absurd hst (hhead hes hget).2
  | finish hes hget hst => exact absurd hst (hhead hes hget).2

theorem SettlementDone.coreTicks (h : SettlementDone s) (hund : s.undated = s)
    (hticks : CoreTicks s s') : (∃ idx, s' = { s with settleIdx := idx }) ∧ SettlementDone s' := by
  induction hticks with
  | refl => exact ⟨⟨_, rfl⟩, h⟩
  | @tail s₁ s₂ _ htick ih =>
    obtain ⟨⟨idx, rfl⟩, hdone⟩ := ih
    unfold coreTick at htick
    cases hstep : settleTick defaultParams 0 { s with settleIdx := idx } with
    | error e =>
      rw [hstep] at htick
      cases htick
    | ok s₃ =>
      rw [hstep] at htick
      cases htick
      obtain ⟨idx', rfl, hdone'⟩ := hdone.tick (settleTick_cases hstep)
      refine ⟨⟨idx', ?_⟩, hdone'.undated⟩
      have hsame : ({ s with settleIdx := idx' } : CreatorState).undated =
          { s.undated with settleIdx := idx' } := rfl
      rw [hsame, hund]

theorem coreTick_rightUnique : Relator.RightUnique fun s s' => coreTick s = .ok s' :=
  fun _ _ _ h h' => Except.ok.inj (h.symm.trans h')

/-- Two sequences of ticks from one state that both end with nothing left to
settle end with the same outcome. -/
theorem SettlementDone.agree {s₁ s₂ : CreatorState} (h₁ : CoreTicks s.undated s₁.undated)
    (h₂ : CoreTicks s.undated s₂.undated) (hdone₁ : SettlementDone s₁)
    (hdone₂ : SettlementDone s₂) : SameOutcome s₁ s₂ := by
  have hlater : ∀ {a b : CreatorState}, SettlementDone a → CoreTicks a.undated b.undated →
      SameOutcome a b := by
    intro a b hdone hticks
    obtain ⟨⟨idx, heq⟩, -⟩ := hdone.undated.coreTicks a.undated_undated hticks
    refine ⟨fun e => ?_, ?_, ?_, ?_⟩
    · have hget := congrArg (fun c => OrderedMap.get c.epochs e) heq
      simp only [CreatorState.undated, CreatorState.reframe, get_mapVal] at hget
      exact hget.symm
    · exact (congrArg CreatorState.accruals heq).symm
    · exact (congrArg CreatorState.targets heq).symm
    · exact (congrArg CreatorState.targetTotals heq).symm
  rcases Relation.ReflTransGen.total_of_right_unique coreTick_rightUnique h₁ h₂ with h | h
  · exact hlater hdone₁ h
  · have hout := hlater hdone₂ h
    exact ⟨fun e => (hout.epochs e).symm, hout.accruals.symm, hout.targets.symm,
      hout.targetTotals.symm⟩

/-! ## 3. Progress and one unbounded pass -/

/-- Every waiting epoch has its record, and every record is filed under its own
epoch. -/
structure Filed (s : CreatorState) : Prop where
  keyed : WellKeyed s
  recorded : ∀ e, s.settleIdx.has e = true → ∃ ce, s.epochs.get e = some ce

theorem Filed.ticks (h : Filed s) (hticks : Ticks p now s s') : Filed s' := by
  refine ⟨h.keyed.ticks hticks, fun e hwait => ?_⟩
  obtain ⟨ce, hce⟩ := h.recorded e (hticks.frame.waiting e hwait)
  exact hticks.frame.recorded e ce hce

/-- Once nothing counts or allocates, no tick fails. -/
theorem SettlementDone.tick_ok (h : SettlementDone s)
    (hfiled : Filed s) : ∃ s', settleTick p now s = .ok s' := by
  unfold settleTick
  cases hes : s.settleIdx.entries with
  | nil => exact ⟨s, rfl⟩
  | cons e es =>
    have hwait : s.settleIdx.has e.1 = true := has_iff.mpr ⟨e.2, get_head hes⟩
    obtain ⟨ce, hce⟩ := hfiled.recorded e.1 hwait
    obtain ⟨hcount, halloc⟩ := h e.1 ce hwait hce
    simp only [epochTick, hce]
    cases hst : ce.status with
    | counting => exact absurd hst hcount
    | allocating => exact absurd hst halloc
    | opened => exact ⟨_, rfl⟩
    | claimable => exact ⟨_, rfl⟩
    | expired => exact ⟨_, rfl⟩

/-- A block with a positive budget visits a record or takes an epoch out of
settlement, as long as one waits. -/
theorem settlement_progress (hkeyed : WellKeyed s) (hwait : s.settleIdx.entries ≠ [])
    (h : processCreatorSettlement p now s = .ok s') :
    ∃ e, s.settleIdx.has e = true ∧
      (s'.settleIdx.has e = false ∨ recordVisits s' e < recordVisits s e) := by
  cases hes : s.settleIdx.entries with
  | nil => exact absurd hes hwait
  | cons first es =>
    obtain ⟨e, ⟨⟩⟩ := first
    refine ⟨e, has_iff.mpr ⟨(), get_head hes⟩, ?_⟩
    simp only [processCreatorSettlement, bind_eq_ok, failIf_eq_ok, exists_const, pure_eq_ok, hes,
      settlementEpochsPerBlock, List.take_succ_cons, List.map_cons, List.foldlM_cons] at h
    obtain ⟨hbudget, ⟨s₂, left⟩, ⟨⟨s₁, rem⟩, hone, hrest⟩, rfl⟩ := h
    have hpos : 0 < p.creatorSettlementRecordsPerBlock := by omega
    simp only [settleNext, if_neg hpos.ne'] at hone
    have hsettled := (settleOneEpoch_ticks (.refl : Ticks p now s s) hkeyed ⟨es, hes⟩
      p.creatorSettlementRecordsPerBlock).of_eq_ok hone
    rcases hsettled.outcome with hout | ⟨hzero, -, hvisits⟩
    · -- the epoch left, and no later tick brings it back
      refine .inl (Bool.eq_false_iff.mpr fun hback => ?_)
      have hgone : s₁.settleIdx.has e = true := by
        have hwait' : rem = 0 ∨ s₁.settleIdx.entries.map Prod.fst =
            (es.take 31).map Prod.fst ++ (es.drop 31).map Prod.fst := by
          rw [← List.map_append, List.take_append_drop, hout, entries_erase_head hes]
          exact .inr rfl
        have hall := (settleAll_ticks (hkeyed.ticks hsettled.ticks)
          (.refl : Ticks p now s₁ s₁) hwait').of_eq_ok hrest
        exact hall.ticks.frame.waiting e hback
      rw [hout] at hgone
      obtain ⟨u, hu⟩ := has_iff.mp hgone
      rw [get_erase_self] at hu
      cases hu
    · obtain rfl : rem = 0 := hzero
      rw [settleNext_spentOut] at hrest
      cases hrest
      exact .inr (hvisits hpos)

/-- One pass settles every waiting epoch, if there are at most 32 of them and the
budget is at least twice their records. -/
theorem settlement_onePass (hkeyed : WellKeyed s)
    (hcount : s.settleIdx.entries.length ≤ settlementEpochsPerBlock)
    (hbudget : settlementEpochsPerBlock * (2 * s.engagements.entries.length) <
      p.creatorSettlementRecordsPerBlock)
    (h : processCreatorSettlement p now s = .ok s') : s'.settleIdx.entries = [] := by
  simp only [processCreatorSettlement, bind_eq_ok, failIf_eq_ok, exists_const, pure_eq_ok,
    List.take_of_length_le hcount] at h
  obtain ⟨-, ⟨s₂, left⟩, hrun, rfl⟩ := h
  have hwait : p.creatorSettlementRecordsPerBlock = 0 ∨ s.settleIdx.entries.map Prod.fst =
      s.settleIdx.entries.map Prod.fst ++ [] := .inr (List.append_nil _).symm
  have hall := (settleAll_ticks hkeyed (.refl : Ticks p now s s) hwait).of_eq_ok hrun
  have hspent := hall.spent
  have hbound : (s.settleIdx.entries.map Prod.fst).length * (2 * s.engagements.entries.length) ≤
      settlementEpochsPerBlock * (2 * s.engagements.entries.length) := by
    rw [List.length_map]
    exact Nat.mul_le_mul_right _ hcount
  have hnil := hall.outcome.resolve_left (by omega)
  exact List.map_eq_nil_iff.mp hnil

theorem settlementDone_of_empty (h : s.settleIdx.entries = []) : SettlementDone s := by
  intro e ce hwait
  obtain ⟨u, hu⟩ := has_iff.mp hwait
  rw [get_none_of_entries_nil h] at hu
  cases hu

/-- If some run settles everything, no tick of another one fails, as long as its
claim deadline fits. -/
theorem settlement_no_error {deadline : ℤ} {s₁ : CreatorState} {err : CoreError}
    (hfiled : Filed s) (hcore : CoreTicks s.undated s₁.undated) (hdone : SettlementDone s₁)
    (hd : creatorClaimDeadline now p.creatorClaimWindowDays = .ok deadline) :
    ¬ TicksFail p now s err := by
  rintro ⟨s₂, hticks, herr⟩
  have hcoreErr := coreTick_of_error hd herr
  have hnever : SettlementDone s₂ → False := fun hdone₂ => by
    obtain ⟨s₃, hok⟩ : ∃ s₃, settleTick p now s₂ = .ok s₃ := hdone₂.tick_ok (hfiled.ticks hticks)
    rw [hok] at herr
    cases herr
  have hdone_of : SettlementDone s₂.undated → SettlementDone s₂ := by
    intro h e ce hwait hget
    refine h e ce.undated hwait ?_
    show (s₂.epochs.mapVal CreatorEpoch.undated).get e = _
    rw [get_mapVal, hget]
    rfl
  rcases Relation.ReflTransGen.total_of_right_unique coreTick_rightUnique hcore
    hticks.core with h | h
  · exact hnever (hdone_of (hdone.undated.coreTicks s₁.undated_undated h).2)
  · rcases h.cases_head with heq | ⟨s₃, hstep, -⟩
    · exact hnever (hdone_of (heq ▸ hdone.undated))
    · rw [hcoreErr] at hstep
      cases hstep

/-- Settlement does not depend on the budget. Any two runs of blocks that settle
everything have the same outcome. One pass with enough budget is such a run if at
most 32 epochs wait, and it succeeds where its claim deadline fits. Every block
makes progress while an epoch waits. -/
theorem settlement_budget_independent {s : CreatorState} (hfiled : Filed s) :
    (∀ s₁, SettleRun s s₁ → SettlementDone s₁ →
      (∀ s₂, SettleRun s s₂ → SettlementDone s₂ → SameOutcome s₁ s₂) ∧
      ∀ p now deadline, creatorClaimDeadline now p.creatorClaimWindowDays = .ok deadline →
        s.settleIdx.entries.length ≤ settlementEpochsPerBlock →
        settlementEpochsPerBlock * (2 * s.engagements.entries.length) <
          p.creatorSettlementRecordsPerBlock →
        ∃ s₂, processCreatorSettlement p now s = .ok s₂ ∧ SettlementDone s₂ ∧
          SameOutcome s₁ s₂) ∧
    ∀ p now s', s.settleIdx.entries ≠ [] → processCreatorSettlement p now s = .ok s' →
      ∃ e, s.settleIdx.has e = true ∧
        (s'.settleIdx.has e = false ∨ recordVisits s' e < recordVisits s e) := by
  refine ⟨fun s₁ hrun hdone => ⟨fun s₂ hrun₂ hdone₂ => ?_, ?_⟩, fun p now s' hwait h => ?_⟩
  · exact SettlementDone.agree (hrun.core hfiled.keyed) (hrun₂.core hfiled.keyed) hdone hdone₂
  · intro p now deadline hd hcount hbudget
    have hcore := hrun.core hfiled.keyed
    have hblock : Ensures (processCreatorSettlement p now s) _ _ := settlement_ticks hfiled.keyed
    cases hres : processCreatorSettlement p now s with
    | error err =>
      rw [hres] at hblock
      rcases hblock with ⟨hnone, -⟩ | hfail
      · omega
      · exact absurd hfail (settlement_no_error hfiled hcore hdone hd)
    | ok s₂ =>
      have hdone₂ := settlementDone_of_empty (settlement_onePass hfiled.keyed hcount hbudget hres)
      exact ⟨s₂, rfl, hdone₂, SettlementDone.agree hcore (hblock.of_eq_ok hres).core hdone hdone₂⟩
  · exact settlement_progress hfiled.keyed hwait h

/-- Epoch 5 just closed with a pool of 100. Subscribers 1 and 2 upvoted post 7 of
author 9. -/
def closedWithTwoUpvotes : CreatorState :=
  let upvote := keyEngagement 5
  { CreatorState.empty ⟨.empty, 100, 0⟩ with
    clock := 6
    liability := 100
    epochs := .set .empty 5 { CreatorEpoch.fresh 5 1500 1800 with
      pool := 100, grossRecords := 2, status := .counting }
    settleIdx := .set .empty 5 ()
    engagements := .set (.set .empty (upvote 1 1 7) none) (upvote 2 1 7) none
    voteDirs := .set (.set .empty (toLex (1, 7)) 1) (toLex (2, 7)) 1
    posts := .set .empty 7 ⟨9, some 3, none, 0, 0⟩ }

theorem closedWithTwoUpvotes_get (e : ℤ) : closedWithTwoUpvotes.epochs.get e =
    if e = 5 then some { CreatorEpoch.fresh 5 1500 1800 with
      pool := 100, grossRecords := 2, status := .counting } else none :=
  get_set _ _ _ _

theorem closedWithTwoUpvotes_filed : Filed closedWithTwoUpvotes := by
  refine ⟨fun e ce h => ?_, fun e h => ?_⟩
  · rw [closedWithTwoUpvotes_get] at h
    split at h
    · next he => exact (congrArg CreatorEpoch.epochId (Option.some.inj h)).symm.trans he.symm
    · cases h
  · obtain ⟨u, hu⟩ := has_iff.mp h
    rw [show closedWithTwoUpvotes.settleIdx = OrderedMap.set .empty 5 () from rfl,
      get_set] at hu
    split at hu
    · next he =>
      rw [closedWithTwoUpvotes_get, if_pos he]
      exact ⟨_, rfl⟩
    · cases hu

/-- The two upvotes settle with any budgets as in one pass: the first block with a
budget of one record leaves the rest to later ones. -/
theorem settlement_budget_independent_twoUpvotes :
    (∀ s₁, SettleRun closedWithTwoUpvotes s₁ → SettlementDone s₁ →
      ∃ s₂, processCreatorSettlement defaultParams 2000 closedWithTwoUpvotes = .ok s₂ ∧
        SettlementDone s₂ ∧ SameOutcome s₁ s₂) ∧
    ∃ s', processCreatorSettlement { defaultParams with creatorSettlementRecordsPerBlock := 1 } 2000
        closedWithTwoUpvotes = .ok s' ∧
      ∃ e, closedWithTwoUpvotes.settleIdx.has e = true ∧
        (s'.settleIdx.has e = false ∨ recordVisits s' e < recordVisits closedWithTwoUpvotes e) := by
  have hmain := settlement_budget_independent closedWithTwoUpvotes_filed
  have hdeadline : creatorClaimDeadline 2000 defaultParams.creatorClaimWindowDays =
      .ok 2594000 := by
    decide +kernel
  refine ⟨fun s₁ hrun hdone => (hmain.1 s₁ hrun hdone).2 defaultParams 2000 2594000 hdeadline
    (by decide +kernel) (by decide +kernel), ?_⟩
  cases hblock : processCreatorSettlement
      { defaultParams with creatorSettlementRecordsPerBlock := 1 } 2000 closedWithTwoUpvotes with
  | ok s' => exact ⟨s', rfl, hmain.2 _ _ s' (by decide +kernel) hblock⟩
  | error err =>
    have hok : (processCreatorSettlement
        { defaultParams with creatorSettlementRecordsPerBlock := 1 } 2000
        closedWithTwoUpvotes).isOk = true := by decide +kernel
    rw [hblock] at hok
    cases hok

/-- Epochs 1 to 33 wait for settlement, without records and pool. -/
def thirtyThreeWaiting : CreatorState :=
  ((List.range 33).map fun n => (n + 1 : ℤ)).foldl
    (fun s e => { s with
      epochs := s.epochs.set e { CreatorEpoch.fresh e (300 * e) (300 * e + 300) with
        status := .counting }
      settleIdx := s.settleIdx.set e () })
    { CreatorState.empty ⟨.empty, 0, 0⟩ with clock := 34 }

/-- The status of epoch 33 after blocks at the given times, each with a budget far
above the number of records. -/
def statusOfLast (times : List ℤ) : Except CoreError (Option EpochStatus) := do
  let s ← times.foldlM (fun s now => processCreatorSettlement
    { defaultParams with creatorSettlementRecordsPerBlock := 1000000 } now s) thirtyThreeWaiting
  return (s.epochs.get 33).map CreatorEpoch.status

/-- One pass over 33 waiting epochs leaves the last one counting, whatever its
budget; a second block settles it. -/
theorem one_pass_leaves_epoch_counting :
    statusOfLast [10200] = .ok (some .counting) ∧
      statusOfLast [10200, 10201] = .ok (some .expired) := by
  decide +kernel

end MirageNode
