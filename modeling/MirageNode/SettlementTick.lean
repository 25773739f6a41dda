import MirageNode.Settlement
import Mathlib.Logic.Relation

/-!
# Settlement as a sequence of small steps

A block settles as many records as its budget allows. `settleTick` is one unit of
that work on the first waiting epoch: one record counted or allocated, or the end
of a pass. A block's settlement is a sequence of ticks (`settlement_ticks`), and
where it stops is all that the budget decides.

Ticks are deterministic, so two complete settlements of one state agree, whatever
their budgets. Only the block time and the clock enter a claimable epoch's record
from outside; `undated` forgets them.
-/

namespace MirageNode

open OrderedStore OrderedMap Fallible

/-! ## 1. Resuming at a cursor -/

theorem EngagementKey.epoch_le_of_le {k k' : EngagementKey} (h : k ≤ k') : k.epoch ≤ k'.epoch := by
  rcases Prod.Lex.le_iff.mp h with hlt | ⟨heq, -⟩
  · exact hlt.le
  · exact heq.le

variable {s s' : CreatorState} {epoch now : ℤ} {ce : CreatorEpoch} {p : Params}

variable {r : EngagementKey × Option Hash}

/-- After a record the iteration resumes with the ones that followed it. -/
theorem engagementsFrom_resume {cursor : Option EngagementKey}
    {rest : List (EngagementKey × Option Hash)} (h : engagementsFrom s epoch cursor = r :: rest) :
    engagementsFrom s epoch (some r.1) = rest := by
  cases cursor with
  | none =>
    have hmem : r ∈ s.engagements.scan fun k => k.epoch = epoch := by
      show r ∈ engagementsFrom s epoch none
      rw [h]
      exact List.mem_cons_self
    have hepoch : r.1.epoch = epoch := by
      simpa using (List.mem_filter.mp hmem).2
    have hscan : (s.engagements.scan fun k => k.epoch = epoch) = [] ++ r :: rest := h
    refine scan_resume hscan fun k' => ?_
    rw [Bool.eq_iff_iff]
    simp only [decide_eq_true_eq, Bool.and_eq_true]
    constructor
    · rintro ⟨hle, hup⟩
      exact ⟨le_antisymm hup (hepoch ▸ EngagementKey.epoch_le_of_le hle), hle⟩
    · rintro ⟨rfl, hle⟩
      exact ⟨hle, le_rfl⟩
  | some c =>
    have hscan : ∃ seen, (s.engagements.scan fun k => c ≤ k ∧ k.epoch ≤ epoch) =
        seen ++ r :: rest := by
      refine ⟨(s.engagements.scan fun k => c ≤ k ∧ k.epoch ≤ epoch).take 1, ?_⟩
      rw [← h]
      exact (List.take_append_drop 1 _).symm
    obtain ⟨seen, hscan⟩ := hscan
    have hmem : r ∈ s.engagements.scan fun k => c ≤ k ∧ k.epoch ≤ epoch := by
      rw [hscan]
      exact List.mem_append_right _ List.mem_cons_self
    have hr : c ≤ r.1 ∧ r.1.epoch ≤ epoch := by
      simpa using (List.mem_filter.mp hmem).2
    refine scan_resume hscan fun k' => ?_
    rw [Bool.eq_iff_iff]
    simp only [decide_eq_true_eq, Bool.and_eq_true]
    constructor
    · rintro ⟨hle, hup⟩
      exact ⟨⟨hr.1.trans hle, hup⟩, hle⟩
    · rintro ⟨⟨-, hup⟩, hle⟩
      exact ⟨hle, hup⟩

/-! ## 2. One unit of work -/

/-- The end of the counting pass. -/
def endCount (s : CreatorState) (ce : CreatorEpoch) : Except CoreError CreatorState :=
  if ce.activeEngagers = 0 then expireEpochUnallocated s ce ce.pool
  else .ok (saveEpoch s ce.allocating)

/-- One unit of counting. -/
def countTick (s : CreatorState) (ce : CreatorEpoch) : Except CoreError CreatorState :=
  match engagementsFrom s ce.epochId ce.settlementCursor with
  | r :: _ => (countRecord (s, ce) r).map fun st => saveEpoch st.1 st.2
  | [] => do
    let (s, ce) ← flushCountActor s ce
    endCount s ce

/-- One unit of allocating. -/
def allocateTick (p : Params) (now : ℤ) (s : CreatorState) (ce : CreatorEpoch) :
    Except CoreError CreatorState :=
  match engagementsFrom s ce.epochId ce.settlementCursor with
  | r :: _ => (allocateRecord (s, ce) r).map fun st => saveEpoch st.1 st.2
  | [] => finishAllocate p now s ce

/-- One unit of work on an epoch in settlement. -/
def epochTick (p : Params) (now : ℤ) (s : CreatorState) (epoch : ℤ) :
    Except CoreError CreatorState :=
  match s.epochs.get epoch with
  | none => .error (.settlementEpochMissing epoch)
  | some ce =>
    match ce.status with
    | .counting =>
      if ce.phase ≠ .count then .error (.statusPhaseMismatch epoch) else countTick s ce
    | .allocating =>
      if ce.phase ≠ .allocate then .error (.statusPhaseMismatch epoch)
      else allocateTick p now s ce
    | _ => .ok { s with settleIdx := s.settleIdx.erase epoch }

/-- One unit of work on the first waiting epoch. -/
def settleTick (p : Params) (now : ℤ) (s : CreatorState) : Except CoreError CreatorState :=
  match s.settleIdx.entries with
  | [] => .ok s
  | e :: _ => epochTick p now s e.1

/-- Any number of ticks. -/
def Ticks (p : Params) (now : ℤ) : CreatorState → CreatorState → Prop :=
  Relation.ReflTransGen fun s s' => settleTick p now s = .ok s'

/-! ## 3. The records' passes do not read what a block may change -/

/-- A state with other epoch records, another deadline index and another clock. -/
def CreatorState.reframe (s : CreatorState) (epochs : OrderedMap ℤ CreatorEpoch)
    (deadlineIdx : OrderedMap (ℤ ×ₗ ℤ) Unit) (clock : ℤ) : CreatorState :=
  { s with epochs := epochs, deadlineIdx := deadlineIdx, clock := clock }

/-- A record with other claim dates. -/
def CreatorEpoch.redate (ce : CreatorEpoch) (finalizedEpoch claimWindowDays claimDeadlineUnix : ℤ) :
    CreatorEpoch :=
  { ce with
    finalizedEpoch := finalizedEpoch
    claimWindowDays := claimWindowDays
    claimDeadlineUnix := claimDeadlineUnix }

section Frame

variable (E : OrderedMap ℤ CreatorEpoch) (D : OrderedMap (ℤ ×ₗ ℤ) Unit) (c x y z : ℤ)

theorem flushCountActor_reframe (s : CreatorState) (ce : CreatorEpoch) :
    flushCountActor (s.reframe E D c) (ce.redate x y z) =
      (flushCountActor s ce).map fun st => (st.1.reframe E D c, st.2.redate x y z) := by
  unfold flushCountActor
  rw [show (ce.redate x y z).partialActor = ce.partialActor from rfl]
  cases ce.partialActor with
  | none => rfl
  | some actor =>
    show (activeAfter ce >>= _) = _
    cases activeAfter ce <;> rfl

theorem countRecord_reframe (s : CreatorState) (ce : CreatorEpoch)
    (r : EngagementKey × Option Hash) :
    countRecord (s.reframe E D c, ce.redate x y z) r =
      (countRecord (s, ce) r).map fun st => (st.1.reframe E D c, st.2.redate x y z) := by
  have hflush : flushForActor (s.reframe E D c) (ce.redate x y z) r.1.actor =
      (flushForActor s ce r.1.actor).map fun st => (st.1.reframe E D c, st.2.redate x y z) := by
    unfold flushForActor
    rw [flushCountActor_reframe]
    show (if ce.partialActor = some r.1.actor then _ else _) = _
    split <;> rfl
  unfold countRecord
  simp only [hflush]
  cases flushForActor s ce r.1.actor with
  | error e => rfl
  | ok st =>
    show (engagementValid st.1 st.2.epochId r.1.actor r.1.kind r.1.target r.2 >>= _) =
      Except.map _ (engagementValid st.1 st.2.epochId r.1.actor r.1.kind r.1.target r.2 >>= _)
    cases engagementValid st.1 st.2.epochId r.1.actor r.1.kind r.1.target r.2 with
    | error e => rfl
    | ok valid => cases valid <;> rfl

theorem applyAllocation_reframe (s : CreatorState) (epoch : ℤ) (kind : ℕ) (target : Hash)
    (perUnit : ℤ) :
    applyAllocation (s.reframe E D c) epoch kind target perUnit =
      (applyAllocation s epoch kind target perUnit).map fun s' => s'.reframe E D c := by
  unfold applyAllocation
  rw [show (s.reframe E D c).posts = s.posts from rfl]
  cases s.posts.get target with
  | none => rfl
  | some post =>
    show (TargetEarning.addUnit ((s.targets.get (toLex (epoch, target))).getD _) kind >>= _) =
      Except.map _ (_ >>= _)
    cases TargetEarning.addUnit ((s.targets.get (toLex (epoch, target))).getD
        ⟨epoch, target, post.author, 0, 0, 0⟩) kind with
    | error e => rfl
    | ok te =>
      simp only [ok_bind]
      split <;> rfl

theorem allocateRecord_reframe (s : CreatorState) (ce : CreatorEpoch)
    (r : EngagementKey × Option Hash) :
    allocateRecord (s.reframe E D c, ce.redate x y z) r =
      (allocateRecord (s, ce) r).map fun st => (st.1.reframe E D c, st.2.redate x y z) := by
  have hread : allocateRecord (s.reframe E D c, ce.redate x y z) r =
      if s.validMarks.has (keyEngagement ce.epochId r.1.actor r.1.kind r.1.target) then do
        failIf (actorUnits s ce.epochId r.1.actor = 0)
          (.engagementCountMissing r.1.actor ce.epochId)
        let s' ← applyAllocation (s.reframe E D c) ce.epochId r.1.kind r.1.target
          (perUnit s ce r.1.actor)
        return (s', (ce.addAllocated (perUnit s ce r.1.actor) r.1).redate x y z)
      else .ok (s.reframe E D c, CreatorEpoch.redate { ce with settlementCursor := some r.1 }
        x y z) :=
    rfl
  rw [hread, applyAllocation_reframe]
  unfold allocateRecord
  simp only
  split
  · rcases Nat.eq_zero_or_pos (actorUnits s ce.epochId r.1.actor) with hzero | hpos
    · simp only [failIf, if_pos hzero, error_bind]
      rfl
    · simp only [failIf_of_not _ hpos.ne', ok_bind]
      cases applyAllocation s ce.epochId r.1.kind r.1.target (perUnit s ce r.1.actor) <;> rfl
  · rfl

theorem burnCreatorPool_reframe (s : CreatorState) (amount : ℤ) :
    burnCreatorPool (s.reframe E D c) amount =
      (burnCreatorPool s amount).map fun s' => s'.reframe E D c := by
  unfold burnCreatorPool
  split
  · show (s.bank.burnFromCreatorPool amount.toNat >>= _) = _
    cases s.bank.burnFromCreatorPool amount.toNat with
    | error e => rfl
    | ok bank =>
      show (failIf (s.liability + -amount < 0) _ >>= _) = Except.map _ (failIf _ _ >>= _)
      cases failIf (s.liability + -amount < 0) CoreError.creatorLiabilityUnderflow <;> rfl
  · rfl

end Frame

/-! ## 4. What the records' passes keep -/

variable {ce' : CreatorEpoch}

theorem flushCountActor_keeps (h : flushCountActor s ce = .ok (s', ce')) :
    (∃ counts, s' = { s with counts := counts }) ∧
      ∃ active actor n, ce' = { ce with
        activeEngagers := active, partialActor := actor, partialCount := n } := by
  unfold flushCountActor at h
  split at h
  · cases h
    exact ⟨⟨_, rfl⟩, _, _, _, rfl⟩
  · simp only [bind_eq_ok, pure_eq_ok, Prod.mk.injEq] at h
    obtain ⟨active, -, rfl, rfl⟩ := h
    exact ⟨⟨_, rfl⟩, _, _, _, rfl⟩

theorem countRecord_keeps (h : countRecord (s, ce) r = .ok (s', ce')) :
    (∃ counts marks, s' = { s with counts := counts, validMarks := marks }) ∧
      ∃ active actor n, ce' = { ce with
        activeEngagers := active, partialActor := actor, partialCount := n,
        settlementCursor := some r.1 } := by
  simp only [countRecord, bind_eq_ok] at h
  obtain ⟨⟨s₁, ce₁⟩, hflush, valid, -, h⟩ := h
  have hkeep : (∃ counts, s₁ = { s with counts := counts }) ∧
      ∃ active actor n, ce₁ = { ce with
        activeEngagers := active, partialActor := actor, partialCount := n } := by
    unfold flushForActor at hflush
    split at hflush
    · cases hflush
      exact ⟨⟨_, rfl⟩, _, _, _, rfl⟩
    · exact flushCountActor_keeps hflush
  obtain ⟨⟨counts, rfl⟩, active, actor, n, rfl⟩ := hkeep
  cases valid <;> cases h <;> exact ⟨⟨_, _, rfl⟩, _, _, _, rfl⟩

theorem applyAllocation_keeps {amount : ℤ} {kind : ℕ} {target : Hash}
    (h : applyAllocation s epoch kind target amount = .ok s') :
    ∃ targets totals accruals,
      s' = { s with targets := targets, targetTotals := totals, accruals := accruals } := by
  unfold applyAllocation at h
  split at h
  · cases h
  · simp only [bind_eq_ok] at h
    obtain ⟨te, -, h⟩ := h
    split at h <;> cases h <;> exact ⟨_, _, _, rfl⟩

theorem allocateRecord_keeps (h : allocateRecord (s, ce) r = .ok (s', ce')) :
    (∃ targets totals accruals,
      s' = { s with targets := targets, targetTotals := totals, accruals := accruals }) ∧
      ∃ allocated, ce' = { ce with allocatedTotal := allocated, settlementCursor := some r.1 } := by
  unfold allocateRecord at h
  simp only at h
  split at h
  · simp only [bind_eq_ok, pure_eq_ok, Prod.mk.injEq] at h
    obtain ⟨-, -, s₁, happly, rfl, rfl⟩ := h
    exact ⟨applyAllocation_keeps happly, _, rfl⟩
  · cases h
    exact ⟨⟨_, _, _, rfl⟩, _, rfl⟩

/-! ## 5. Passes are ticks -/

/-- The error `err` stops the ticks from `s` somewhere. -/
def TicksFail (p : Params) (now : ℤ) (s : CreatorState) (err : CoreError) : Prop :=
  ∃ s₁, Ticks p now s s₁ ∧ settleTick p now s₁ = .error err

/-- `ce` is the stored record of the first waiting epoch. -/
structure IsNext (s : CreatorState) (ce : CreatorEpoch) : Prop where
  head : ∃ es, s.settleIdx.entries = (ce.epochId, ()) :: es
  stored : s.epochs.get ce.epochId = some ce

theorem saveEpoch_next
    (h : ∃ es, s.settleIdx.entries = (ce.epochId, ()) :: es) : IsNext (saveEpoch s ce) ce :=
  ⟨h, get_set_self _ _ _⟩

theorem saveEpoch_stored (h : s.epochs.get ce.epochId = some ce) : saveEpoch s ce = s := by
  rw [saveEpoch, set_of_get h]

theorem IsNext.settleTick_eq (h : IsNext s ce) : settleTick p now s =
      match ce.status with
      | .counting =>
        if ce.phase ≠ .count then .error (.statusPhaseMismatch ce.epochId) else countTick s ce
      | .allocating =>
        if ce.phase ≠ .allocate then .error (.statusPhaseMismatch ce.epochId)
        else allocateTick p now s ce
      | _ => .ok { s with settleIdx := s.settleIdx.erase ce.epochId } := by
  obtain ⟨es, hes⟩ := h.head
  simp only [settleTick, hes, epochTick, h.stored]

theorem IsNext.tick_count (h : IsNext s ce) (hstatus : ce.status = .counting)
    (hphase : ce.phase = .count) : settleTick p now s = countTick s ce := by
  simp only [h.settleTick_eq, hstatus, hphase, ne_eq, not_true_eq_false, if_false]

theorem IsNext.tick_allocate (h : IsNext s ce) (hstatus : ce.status = .allocating)
    (hphase : ce.phase = .allocate) : settleTick p now s = allocateTick p now s ce := by
  simp only [h.settleTick_eq, hstatus, hphase, ne_eq, not_true_eq_false, if_false]

/-- What is done with one record. -/
abbrev RecordStep :=
  CreatorState × CreatorEpoch → EngagementKey × Option Hash →
    Except CoreError (CreatorState × CreatorEpoch)

/-- A loop over records, run one record to a tick. -/
structure RecordPass (p : Params) (now : ℤ) (step : RecordStep) (status : EpochStatus)
    (phase : SettlementPhase) : Prop where
  frame : ∀ s ce r E, step ({ s with epochs := E }, ce) r =
    (step (s, ce) r).map fun st => ({ st.1 with epochs := E }, st.2)
  keeps : ∀ {s ce r s' ce'}, step (s, ce) r = .ok (s', ce') →
    s'.settleIdx = s.settleIdx ∧ s'.engagements = s.engagements ∧ s'.epochs = s.epochs ∧
      ce'.epochId = ce.epochId ∧ ce'.status = ce.status ∧ ce'.phase = ce.phase ∧
      ce'.settlementCursor = some r.1
  tick : ∀ {s ce r rest}, IsNext s ce → ce.status = status → ce.phase = phase →
    engagementsFrom s ce.epochId ce.settlementCursor = r :: rest →
    settleTick p now s = (step (s, ce) r).map fun st => saveEpoch st.1 st.2

theorem countPass (p : Params) (now : ℤ) : RecordPass p now countRecord .counting .count where
  frame := fun s ce r E => countRecord_reframe E s.deadlineIdx s.clock ce.finalizedEpoch
    ce.claimWindowDays ce.claimDeadlineUnix s ce r |>.trans <| by
      cases h : countRecord (s, ce) r with
      | error e => rfl
      | ok st =>
        obtain ⟨s', ce'⟩ := st
        obtain ⟨⟨_, _, rfl⟩, _, _, _, rfl⟩ := countRecord_keeps h
        rfl
  keeps := fun h => by
    obtain ⟨⟨_, _, rfl⟩, _, _, _, rfl⟩ := countRecord_keeps h
    exact ⟨rfl, rfl, rfl, rfl, rfl, rfl, rfl⟩
  tick := fun hnext hstatus hphase hrec => by
    simp only [hnext.tick_count hstatus hphase, countTick, hrec]

theorem allocatePass (p : Params) (now : ℤ) :
    RecordPass p now allocateRecord .allocating .allocate where
  frame := fun s ce r E => allocateRecord_reframe E s.deadlineIdx s.clock ce.finalizedEpoch
    ce.claimWindowDays ce.claimDeadlineUnix s ce r |>.trans <| by
      cases h : allocateRecord (s, ce) r with
      | error e => rfl
      | ok st =>
        obtain ⟨s', ce'⟩ := st
        obtain ⟨⟨_, _, _, rfl⟩, _, rfl⟩ := allocateRecord_keeps h
        rfl
  keeps := fun h => by
    obtain ⟨⟨_, _, _, rfl⟩, _, rfl⟩ := allocateRecord_keeps h
    exact ⟨rfl, rfl, rfl, rfl, rfl, rfl, rfl⟩
  tick := fun hnext hstatus hphase hrec => by
    simp only [hnext.tick_allocate hstatus hphase, allocateTick, hrec]

/-- What a pass over some records leaves behind, with `rest` still to come. -/
structure PassLeft (p : Params) (now : ℤ) (s₀ s : CreatorState) (ce : CreatorEpoch)
    (rest : List (EngagementKey × Option Hash)) (st : CreatorState × CreatorEpoch) : Prop where
  ticks : Ticks p now s₀ (saveEpoch st.1 st.2)
  settleIdx : st.1.settleIdx = s.settleIdx
  engagements : st.1.engagements = s.engagements
  epochId : st.2.epochId = ce.epochId
  status : st.2.status = ce.status
  phase : st.2.phase = ce.phase
  rest : engagementsFrom st.1 st.2.epochId st.2.settlementCursor = rest

theorem RecordPass.loop {step : RecordStep} {status : EpochStatus} {phase : SettlementPhase}
    (hpass : RecordPass p now step status phase) {s₀ : CreatorState}
    (todo rest : List (EngagementKey × Option Hash)) (hreach : Ticks p now s₀ (saveEpoch s ce))
    (hhead : ∃ es, s.settleIdx.entries = (ce.epochId, ()) :: es) (hstatus : ce.status = status)
    (hphase : ce.phase = phase)
    (hrec : engagementsFrom s ce.epochId ce.settlementCursor = todo ++ rest) :
    Ensures (todo.foldlM step (s, ce)) (PassLeft p now s₀ s ce rest) (TicksFail p now s₀) := by
  induction todo generalizing s ce with
  | nil => exact ⟨hreach, rfl, rfl, rfl, rfl, rfl, hrec⟩
  | cons r todo ih =>
    have hnext := saveEpoch_next hhead
    have htick := hpass.tick hnext hstatus hphase hrec
    have hframe : step (saveEpoch s ce, ce) r = _ := hpass.frame s ce r _
    rw [hframe] at htick
    rw [List.foldlM_cons]
    refine Ensures.bind_eq (fun err herr => ⟨_, hreach, ?_⟩) fun st hst => ?_
    · rw [htick, herr]
      rfl
    · obtain ⟨s', ce'⟩ := st
      obtain ⟨hidx, heng, hepochs, hid, hst', hph', hcur⟩ := hpass.keeps hst
      have hstep : settleTick p now (saveEpoch s ce) = .ok (saveEpoch s' ce') := by
        rw [htick, hst]
        simp only [Except.map, saveEpoch, hid, set_set, hepochs]
      have hrest : engagementsFrom s' ce'.epochId ce'.settlementCursor = todo ++ rest := by
        have hresume : engagementsFrom s ce.epochId (some r.1) = todo ++ rest :=
          engagementsFrom_resume hrec
        rw [hid, hcur, ← hresume]
        simp only [engagementsFrom, heng]
      refine (ih (hreach.tail hstep) (by rw [hidx, hid]; exact hhead) (hst'.trans hstatus)
        (hph'.trans hphase) hrest).imp (fun st hleft => ?_) fun _ h => h
      exact ⟨hleft.ticks, hleft.settleIdx.trans hidx, hleft.engagements.trans heng,
        hleft.epochId.trans hid, hleft.status.trans hst', hleft.phase.trans hph', hleft.rest⟩

/-! ## 6. A block is ticks -/

section Block

variable {p : Params} {now : ℤ} {s₀ : CreatorState}

/-- The visits to records that an epoch in settlement still needs, over both
passes. -/
def recordVisits (s : CreatorState) (epoch : ℤ) : ℕ :=
  match s.epochs.get epoch with
  | none => 0
  | some ce =>
    match ce.status with
    | .counting => (engagementsFrom s ce.epochId ce.settlementCursor).length +
        (engagementsFrom s ce.epochId none).length
    | .allocating => (engagementsFrom s ce.epochId ce.settlementCursor).length
    | _ => 0

/-- The visits that are left for the pass after the current one. -/
def laterVisits (s : CreatorState) (ce : CreatorEpoch) : ℕ :=
  if ce.status = .counting then (engagementsFrom s ce.epochId none).length else 0

theorem recordVisits_eq (h : s.epochs.get ce.epochId = some ce)
    (hst : ce.status = .counting ∨ ce.status = .allocating) : recordVisits s ce.epochId =
      (engagementsFrom s ce.epochId ce.settlementCursor).length + laterVisits s ce := by
  rcases hst with hst | hst <;> simp [recordVisits, laterVisits, h, hst]

theorem engagementsFrom_length_le (s : CreatorState) (epoch : ℤ) (cursor : Option EngagementKey) :
    (engagementsFrom s epoch cursor).length ≤ s.engagements.entries.length := by
  cases cursor with
  | none => exact List.length_filter_le _ _
  | some c =>
    have hscan : (s.engagements.scan fun k => c ≤ k ∧ k.epoch ≤ epoch).length ≤ _ :=
      List.length_filter_le _ _
    simp only [engagementsFrom, List.length_drop]
    omega

/-- What a call on one waiting epoch does: ticks, after which the epoch has left
settlement, or the budget is used up and some records were visited. It visits
`bound` records at most. -/
structure EpochSettled (p : Params) (now : ℤ) (s₀ s : CreatorState) (epoch : ℤ)
    (budget bound : ℕ) (st : CreatorState × ℕ) : Prop where
  ticks : Ticks p now s₀ st.1
  outcome : st.1.settleIdx = s.settleIdx.erase epoch ∨
    st.2 = 0 ∧ st.1.settleIdx = s.settleIdx ∧
      (0 < budget → recordVisits st.1 epoch < recordVisits s epoch)
  spent : budget ≤ st.2 + bound

/-- The records of one pass under a budget: all of them, or as many as the
budget allows with more to come. -/
theorem take_budget (records : List (EngagementKey × Option Hash)) (budget : ℕ) :
    (records.take (budget + 1)).length ≤ budget ∧ records.length ≤ budget ∧
        (records.take (budget + 1)).take budget = records ∧
        (records.take (budget + 1)).length = records.length ∨
      ¬ (records.take (budget + 1)).length ≤ budget ∧ budget < records.length ∧
        records = (records.take (budget + 1)).take budget ++ records.drop budget := by
  rw [List.length_take, List.take_take, min_eq_left (Nat.le_succ budget)]
  rcases le_or_gt records.length budget with hle | hgt
  · exact .inl ⟨by omega, hle, List.take_of_length_le hle, by omega⟩
  · exact .inr ⟨by omega, hgt, (List.take_append_drop budget records).symm⟩

section Pass

variable {step : RecordStep} {budget : ℕ}
  {finish : CreatorState → CreatorEpoch → ℕ → Except CoreError (CreatorState × ℕ)}

/-- `allocateEpoch` and `countEpoch`: a pass over the records still to come, with `finish` at
their end if the budget lasts. -/
def budgetedPass (step : RecordStep)
    (finish : CreatorState → CreatorEpoch → ℕ → Except CoreError (CreatorState × ℕ))
    (s : CreatorState) (ce : CreatorEpoch) (budget : ℕ) : Except CoreError (CreatorState × ℕ) := do
  let records := (engagementsFrom s ce.epochId ce.settlementCursor).take (budget + 1)
  let (s, ce) ← (records.take budget).foldlM step (s, ce)
  if records.length ≤ budget then finish s ce (budget - records.length)
  else return (saveEpoch s ce, 0)

theorem allocateEpoch_eq_pass : allocateEpoch p now = budgetedPass allocateRecord
    (fun s ce left => finishAllocate p now s ce >>= fun s => pure (s, left)) :=
  rfl

theorem countEpoch_eq_pass : countEpoch p now = budgetedPass countRecord
    (fun s ce left => flushCountActor s ce >>= fun st => finishCount p now st.1 st.2 left) :=
  rfl

/-- A pass whose steps keep an invariant. -/
theorem Ensures.pass {I : CreatorState × CreatorEpoch → Prop} {post : CreatorState × ℕ → Prop}
    {err : CoreError → Prop}
    (hstep : ∀ r ∈ engagementsFrom s ce.epochId ce.settlementCursor, ∀ st, I st →
      Ensures (step st r) I err)
    (hfinish : ∀ s' ce' left, I (s', ce') → Ensures (finish s' ce' left) post err)
    (hrest : ∀ s' ce', I (s', ce') → post (saveEpoch s' ce', 0)) (hs : I (s, ce)) :
    Ensures (budgetedPass step finish s ce budget) post err := by
  refine Ensures.bind (Ensures.foldlM
    (I := fun xs st => (∀ r ∈ xs, r ∈ engagementsFrom s ce.epochId ce.settlementCursor) ∧ I st)
    (fun r xs st hst => ?_) ⟨fun r hr => ?_, hs⟩) fun ⟨s', ce'⟩ hst => ?_
  · refine (hstep r (hst.1 r List.mem_cons_self) st hst.2).imp (fun _ h => ⟨?_, h⟩) fun _ h => h
    exact fun r' hr' => hst.1 r' (List.mem_cons_of_mem r hr')
  · exact List.mem_of_mem_take (List.mem_of_mem_take hr)
  · dsimp only
    split
    · exact hfinish s' ce' _ hst.2
    · exact hrest s' ce' hst.2

/-- As ticks: all records and what `finish` does, or as many records as the budget allows. -/
theorem RecordPass.settles {status : EpochStatus} {phase : SettlementPhase} {bound : ℕ}
    (hpass : RecordPass p now step status phase)
    (hsettling : status = .counting ∨ status = .allocating) (hreach : Ticks p now s₀ s)
    (hnext : IsNext s ce) (hstatus : ce.status = status) (hphase : ce.phase = phase)
    (hbound : s.engagements.entries.length ≤ bound)
    (hfinish : ∀ s' ce' visited, PassLeft p now s₀ s ce [] (s', ce') →
      IsNext (saveEpoch s' ce') ce' →
      visited = (engagementsFrom s ce.epochId ce.settlementCursor).length → visited ≤ budget →
      Ensures (finish s' ce' (budget - visited))
        (EpochSettled p now s₀ s ce.epochId budget bound) (TicksFail p now s₀)) :
    Ensures (budgetedPass step finish s ce budget)
      (EpochSettled p now s₀ s ce.epochId budget bound) (TicksFail p now s₀) := by
  have hreach' : Ticks p now s₀ (saveEpoch s ce) := by rwa [saveEpoch_stored hnext.stored]
  have hloop := fun todo rest hrec => hpass.loop todo rest hreach' hnext.head hstatus hphase hrec
  have hvisits := recordVisits_eq hnext.stored (hstatus ▸ hsettling)
  have hlen := engagementsFrom_length_le s ce.epochId ce.settlementCursor
  unfold budgetedPass
  simp only
  generalize engagementsFrom s ce.epochId ce.settlementCursor = all at hloop hvisits hlen hfinish ⊢
  rcases take_budget all budget with ⟨-, hle, htake, hlen'⟩ | ⟨hlong, hgt, hsplit⟩
  · rw [htake, hlen']
    simp only [if_pos hle]
    refine (hloop all [] (List.append_nil _).symm).bind fun ⟨s', ce'⟩ hleft => ?_
    refine hfinish s' ce' _ hleft (saveEpoch_next ?_) rfl hle
    rw [hleft.settleIdx, hleft.epochId]
    exact hnext.head
  · simp only [if_neg hlong]
    refine (hloop _ _ hsplit).bind fun ⟨s', ce'⟩ hleft => ?_
    refine ⟨hleft.ticks, .inr ⟨rfl, hleft.settleIdx, fun hpos => ?_⟩, by
      show budget ≤ 0 + _; omega⟩
    obtain ⟨-, -, heng, hid, hst, -, hrest⟩ := hleft
    simp only at heng hid hst
    have hlater : laterVisits (saveEpoch s' ce') ce' = laterVisits s ce := by
      simp only [laterVisits, engagementsFrom, saveEpoch, heng, hid, hst]
    have hstored : (saveEpoch s' ce').epochs.get ce'.epochId = some ce' :=
      get_set_self _ _ _
    have hrest' : engagementsFrom (saveEpoch s' ce') ce'.epochId ce'.settlementCursor =
      all.drop budget := hrest
    rw [hvisits, ← hid, recordVisits_eq hstored (hst.trans hstatus ▸ hsettling), hrest', hlater,
      List.length_drop]
    omega

end Pass

theorem burnCreatorPool_keeps {amount : ℤ} (h : burnCreatorPool s amount = .ok s') :
    ∃ bank liability, s' = { s with bank := bank, liability := liability } := by
  unfold burnCreatorPool at h
  split at h
  · simp only [bind_eq_ok, addCreatorLiability, pure_eq_ok] at h
    obtain ⟨bank, -, -, -, rfl⟩ := h
    exact ⟨_, _, rfl⟩
  · cases h
    exact ⟨_, _, rfl⟩

theorem expireEpochUnallocated_keeps {burn : ℤ} (h : expireEpochUnallocated s ce burn = .ok s') :
    ∃ bank liability, s' = { s with
      bank := bank
      liability := liability
      epochs := s.epochs.set ce.epochId
        { ce with status := .expired, prunePending := true, settlementCursor := none }
      settleIdx := s.settleIdx.erase ce.epochId
      pruneIdx := s.pruneIdx.set ce.epochId () } := by
  simp only [expireEpochUnallocated, bind_eq_ok, pure_eq_ok] at h
  obtain ⟨s₁, hburn, rfl⟩ := h
  obtain ⟨bank, liability, rfl⟩ := burnCreatorPool_keeps hburn
  exact ⟨bank, liability, rfl⟩

/-- `finishAllocate` takes the epoch out of settlement: expired, or claimable
with the block's dates. -/
theorem finishAllocate_keeps (h : finishAllocate p now s ce = .ok s') :
    ce.allocatedTotal ≤ ce.pool ∧
      (ce.allocatedTotal ≤ 0 ∧ expireEpochUnallocated s ce ce.pool = .ok s' ∨
        0 < ce.allocatedTotal ∧ ∃ deadline,
          creatorClaimDeadline now p.creatorClaimWindowDays = .ok deadline ∧
          s' = { s with
            epochs := s.epochs.set ce.epochId
              { ce.redate s.clock p.creatorClaimWindowDays deadline with
                status := .claimable, settlementCursor := none }
            settleIdx := s.settleIdx.erase ce.epochId
            deadlineIdx := s.deadlineIdx.set (toLex (deadline, ce.epochId)) () }) := by
  simp only [finishAllocate, bind_eq_ok, failIf_eq_ok, exists_const, not_lt, gt_iff_lt] at h
  obtain ⟨hle, h⟩ := h
  refine ⟨hle, ?_⟩
  split at h
  · next hzero => exact .inl ⟨hzero, h⟩
  · next hpos =>
    simp only [bind_eq_ok, pure_eq_ok] at h
    obtain ⟨deadline, hdeadline, rfl⟩ := h
    exact .inr ⟨not_le.mp hpos, deadline, hdeadline, rfl⟩

theorem finishAllocate_settleIdx
    (h : finishAllocate p now s ce = .ok s') : s'.settleIdx = s.settleIdx.erase ce.epochId := by
  obtain ⟨-, ⟨-, hexp⟩ | ⟨-, deadline, -, rfl⟩⟩ := finishAllocate_keeps h
  · obtain ⟨_, _, rfl⟩ := expireEpochUnallocated_keeps hexp
    rfl
  · rfl

/-- The end of a pass overwrites the epoch's record, whatever it was. -/
theorem expireEpochUnallocated_set (s : CreatorState) (ce x : CreatorEpoch) (burn : ℤ) :
    expireEpochUnallocated { s with epochs := s.epochs.set ce.epochId x } ce burn =
      expireEpochUnallocated s ce burn := by
  have hburn : burnCreatorPool { s with epochs := s.epochs.set ce.epochId x } burn = _ :=
    burnCreatorPool_reframe (s.epochs.set ce.epochId x) s.deadlineIdx s.clock s burn
  unfold expireEpochUnallocated
  rw [hburn]
  cases h : burnCreatorPool s burn with
  | error e => rfl
  | ok s' =>
    obtain ⟨bank, liability, rfl⟩ := burnCreatorPool_keeps h
    simp only [Except.map, ok_bind, CreatorState.reframe, set_set]

theorem finishAllocate_set (s : CreatorState) (ce x : CreatorEpoch) :
    finishAllocate p now { s with epochs := s.epochs.set ce.epochId x } ce =
      finishAllocate p now s ce := by
  unfold finishAllocate
  rw [expireEpochUnallocated_set]
  simp only [set_set]

theorem endCount_set (s : CreatorState) (ce x : CreatorEpoch) :
    endCount { s with epochs := s.epochs.set ce.epochId x } ce = endCount s ce := by
  unfold endCount
  rw [expireEpochUnallocated_set]
  simp only [saveEpoch, CreatorEpoch.allocating, set_set]

/-- The end of the counting pass, with the record written first. -/
theorem flush_endCount_save (s : CreatorState) (ce : CreatorEpoch) :
    (flushCountActor (saveEpoch s ce) ce >>= fun st => endCount st.1 st.2) =
      flushCountActor s ce >>= fun st => endCount st.1 st.2 := by
  have hflush : flushCountActor (saveEpoch s ce) ce = _ := flushCountActor_reframe
    (s.epochs.set ce.epochId ce) s.deadlineIdx s.clock ce.finalizedEpoch ce.claimWindowDays
    ce.claimDeadlineUnix s ce
  rw [hflush]
  cases h : flushCountActor s ce with
  | error e => rfl
  | ok st =>
    obtain ⟨s', ce'⟩ := st
    obtain ⟨⟨counts, rfl⟩, active, actor, n, rfl⟩ := flushCountActor_keeps h
    simp only [Except.map, ok_bind]
    exact endCount_set { s with counts := counts } _ ce

theorem allocateEpoch_ticks (hreach : Ticks p now s₀ s) (hnext : IsNext s ce)
    (hstatus : ce.status = .allocating) (hphase : ce.phase = .allocate) (budget : ℕ) :
    Ensures (allocateEpoch p now s ce budget)
      (EpochSettled p now s₀ s ce.epochId budget s.engagements.entries.length)
      (TicksFail p now s₀) := by
  have hlen := engagementsFrom_length_le s ce.epochId ce.settlementCursor
  rw [allocateEpoch_eq_pass]
  refine (allocatePass p now).settles (.inr rfl) hreach hnext hstatus hphase le_rfl
    fun s' ce' visited hleft hnext' hvisited hle => ?_
  have htick : settleTick p now (saveEpoch s' ce') = finishAllocate p now s' ce' := by
    have hrest : engagementsFrom (saveEpoch s' ce') ce'.epochId ce'.settlementCursor = [] :=
      hleft.rest
    simp only [hnext'.tick_allocate (hleft.status.trans hstatus) (hleft.phase.trans hphase),
      allocateTick, hrest]
    exact finishAllocate_set s' ce' ce'
  refine Ensures.bind_eq (fun err herr => ⟨_, hleft.ticks, htick.trans herr⟩) fun s'' hfin => ?_
  refine ⟨hleft.ticks.tail (htick.trans hfin), .inl ?_, by show budget ≤ budget - _ + _; omega⟩
  rw [finishAllocate_settleIdx hfin, hleft.settleIdx, hleft.epochId]

theorem countEpoch_ticks (hreach : Ticks p now s₀ s) (hnext : IsNext s ce)
    (hstatus : ce.status = .counting) (hphase : ce.phase = .count) (budget : ℕ) :
    Ensures (countEpoch p now s ce budget)
      (EpochSettled p now s₀ s ce.epochId budget (2 * s.engagements.entries.length))
      (TicksFail p now s₀) := by
  have hlen := engagementsFrom_length_le s ce.epochId ce.settlementCursor
  have hvisits := recordVisits_eq hnext.stored (.inl hstatus)
  rw [laterVisits, if_pos hstatus] at hvisits
  rw [countEpoch_eq_pass]
  refine (countPass p now).settles (.inl rfl) hreach hnext hstatus hphase (by omega)
    fun s' ce' visited hleft hnext' hvisited hle => ?_
  have htick : settleTick p now (saveEpoch s' ce') =
      flushCountActor s' ce' >>= fun st => endCount st.1 st.2 := by
    have hrest : engagementsFrom (saveEpoch s' ce') ce'.epochId ce'.settlementCursor = [] :=
      hleft.rest
    rw [hnext'.tick_count (hleft.status.trans hstatus) (hleft.phase.trans hphase),
      ← flush_endCount_save]
    simp only [countTick, hrest]
  refine Ensures.bind_eq (fun err herr => ⟨_, hleft.ticks, by rw [htick, herr]; rfl⟩)
    fun ⟨s'', ce''⟩ hflush => ?_
  rw [hflush] at htick
  obtain ⟨⟨counts, rfl⟩, active, actor, n, rfl⟩ := flushCountActor_keeps hflush
  have hidx : s'.settleIdx.erase ce'.epochId = s.settleIdx.erase ce.epochId := by
    rw [hleft.settleIdx, hleft.epochId]
  simp only [finishCount, ok_bind, endCount] at htick ⊢
  split at htick
  · -- nobody engaged: the epoch expires
    rw [if_pos ‹_›]
    refine Ensures.bind_eq (fun err herr => ⟨_, hleft.ticks, htick.trans herr⟩) fun s₃ hexp => ?_
    refine ⟨hleft.ticks.tail (htick.trans hexp), .inl ?_, by show budget ≤ budget - _ + _; omega⟩
    obtain ⟨_, _, rfl⟩ := expireEpochUnallocated_keeps hexp
    exact hidx
  · rw [if_neg ‹_›]
    have hreach₂ := hleft.ticks.tail htick
    -- the allocation starts over with all records of the epoch
    generalize hce₂ : CreatorEpoch.allocating _ = ce₂ at hreach₂ ⊢
    have hid₂ : ce₂.epochId = ce.epochId := by rw [← hce₂]; exact hleft.epochId
    have hst₂ : ce₂.status = .allocating := by rw [← hce₂]; rfl
    have hph₂ : ce₂.phase = .allocate := by rw [← hce₂]; rfl
    have hcur₂ : ce₂.settlementCursor = none := by rw [← hce₂]; rfl
    generalize hs₂ : saveEpoch _ ce₂ = s₂ at hreach₂ ⊢
    have hidx₂ : s₂.settleIdx = s.settleIdx := by rw [← hs₂]; exact hleft.settleIdx
    have heng₂ : s₂.engagements = s.engagements := by rw [← hs₂]; exact hleft.engagements
    have hstored₂ : s₂.epochs.get ce₂.epochId = some ce₂ := by
      rw [← hs₂]
      exact get_set_self _ _ _
    have hvisits₂ : recordVisits s₂ ce.epochId = (engagementsFrom s ce.epochId none).length := by
      rw [← hid₂, recordVisits_eq hstored₂ (.inr hst₂), hcur₂, hid₂]
      simp [laterVisits, engagementsFrom, heng₂, hst₂]
    have hnext₂ : IsNext s₂ ce₂ := ⟨by rw [hidx₂, hid₂]; exact hnext.head, hstored₂⟩
    split
    · next hzero =>
      refine ⟨hreach₂, .inr ⟨rfl, hidx₂, fun hpos => ?_⟩, by show budget ≤ 0 + _; omega⟩
      show recordVisits s₂ ce.epochId < recordVisits s ce.epochId
      omega
    · -- budget is left: the allocation starts in the same block
      refine (allocateEpoch_ticks hreach₂ hnext₂ hst₂ hph₂ (budget - visited)).imp
        (fun st hst => ⟨hst.ticks, ?_, ?_⟩) fun _ h => h
      · rcases hst.outcome with hout | ⟨hzero, hout, hprog⟩
        · exact .inl (by rw [hout, hidx₂, hid₂])
        · refine .inr ⟨hzero, hout.trans hidx₂, fun _ => ?_⟩
          have := hprog (by omega)
          rw [hid₂] at this
          omega
      · have := hst.spent
        rw [heng₂] at this
        omega

/-! ## 7. What a tick can do -/

/-- The successful ticks, one case for each kind of work. -/
inductive TickCase (p : Params) (now : ℤ) (s : CreatorState) : CreatorState → Prop
  | idle : s.settleIdx.entries = [] → TickCase p now s s
  | drop {epoch : ℤ} {es : List (ℤ × Unit)} {ce : CreatorEpoch} :
      s.settleIdx.entries = (epoch, ()) :: es → s.epochs.get epoch = some ce →
      ce.status ≠ .counting → ce.status ≠ .allocating →
      TickCase p now s { s with settleIdx := s.settleIdx.erase epoch }
  | count {epoch : ℤ} {es : List (ℤ × Unit)} {ce ce' : CreatorEpoch} {s' : CreatorState}
      {r : EngagementKey × Option Hash} {rest : List (EngagementKey × Option Hash)} :
      s.settleIdx.entries = (epoch, ()) :: es → s.epochs.get epoch = some ce →
      ce.status = .counting → ce.phase = .count →
      engagementsFrom s ce.epochId ce.settlementCursor = r :: rest →
      countRecord (s, ce) r = .ok (s', ce') → TickCase p now s (saveEpoch s' ce')
  | countNone {epoch : ℤ} {es : List (ℤ × Unit)} {ce ce₁ : CreatorEpoch} {s₁ s' : CreatorState} :
      s.settleIdx.entries = (epoch, ()) :: es → s.epochs.get epoch = some ce →
      ce.status = .counting → ce.phase = .count →
      engagementsFrom s ce.epochId ce.settlementCursor = [] →
      flushCountActor s ce = .ok (s₁, ce₁) → ce₁.activeEngagers = 0 →
      expireEpochUnallocated s₁ ce₁ ce₁.pool = .ok s' → TickCase p now s s'
  | countDone {epoch : ℤ} {es : List (ℤ × Unit)} {ce ce₁ : CreatorEpoch} {s₁ : CreatorState} :
      s.settleIdx.entries = (epoch, ()) :: es → s.epochs.get epoch = some ce →
      ce.status = .counting → ce.phase = .count →
      engagementsFrom s ce.epochId ce.settlementCursor = [] →
      flushCountActor s ce = .ok (s₁, ce₁) → ce₁.activeEngagers ≠ 0 →
      TickCase p now s (saveEpoch s₁ ce₁.allocating)
  | allocate {epoch : ℤ} {es : List (ℤ × Unit)} {ce ce' : CreatorEpoch} {s' : CreatorState}
      {r : EngagementKey × Option Hash} {rest : List (EngagementKey × Option Hash)} :
      s.settleIdx.entries = (epoch, ()) :: es → s.epochs.get epoch = some ce →
      ce.status = .allocating → ce.phase = .allocate →
      engagementsFrom s ce.epochId ce.settlementCursor = r :: rest →
      allocateRecord (s, ce) r = .ok (s', ce') → TickCase p now s (saveEpoch s' ce')
  | finish {epoch : ℤ} {es : List (ℤ × Unit)} {ce : CreatorEpoch} {s' : CreatorState} :
      s.settleIdx.entries = (epoch, ()) :: es → s.epochs.get epoch = some ce →
      ce.status = .allocating → ce.phase = .allocate →
      engagementsFrom s ce.epochId ce.settlementCursor = [] →
      finishAllocate p now s ce = .ok s' → TickCase p now s s'

theorem countTick_cases {es : List (ℤ × Unit)} (hes : s.settleIdx.entries = (epoch, ()) :: es)
    (hget : s.epochs.get epoch = some ce) (hst : ce.status = .counting) (hph : ce.phase = .count)
    (h : countTick s ce = .ok s') : TickCase p now s s' := by
  unfold countTick at h
  split at h
  · next r rest hrec =>
    cases hcount : countRecord (s, ce) r with
    | error e =>
      rw [hcount] at h
      cases h
    | ok st =>
      rw [hcount] at h
      cases h
      exact .count hes hget hst hph hrec hcount
  · next hrec =>
    rw [bind_eq_ok] at h
    obtain ⟨⟨s₁, ce₁⟩, hflush, h⟩ := h
    simp only [endCount] at h
    split at h
    · next hzero => exact .countNone hes hget hst hph hrec hflush hzero h
    · next hpos =>
      cases h
      exact .countDone hes hget hst hph hrec hflush hpos

theorem allocateTick_cases {es : List (ℤ × Unit)} (hes : s.settleIdx.entries = (epoch, ()) :: es)
    (hget : s.epochs.get epoch = some ce) (hst : ce.status = .allocating)
    (hph : ce.phase = .allocate) (h : allocateTick p now s ce = .ok s') : TickCase p now s s' := by
  unfold allocateTick at h
  split at h
  · next r rest hrec =>
    cases halloc : allocateRecord (s, ce) r with
    | error e =>
      rw [halloc] at h
      cases h
    | ok st =>
      rw [halloc] at h
      cases h
      exact .allocate hes hget hst hph hrec halloc
  · next hrec => exact .finish hes hget hst hph hrec h

theorem settleTick_cases (h : settleTick p now s = .ok s') : TickCase p now s s' := by
  unfold settleTick at h
  split at h
  · next hes =>
    cases h
    exact .idle hes
  · next e es hes =>
    obtain ⟨epoch, ⟨⟩⟩ := e
    unfold epochTick at h
    split at h
    · cases h
    · next ce hget =>
      split at h
      · next hst =>
        split at h
        · cases h
        · next hph => exact countTick_cases hes hget hst (not_not.mp hph) h
      · next hst =>
        split at h
        · cases h
        · next hph => exact allocateTick_cases hes hget hst (not_not.mp hph) h
      · next hcount halloc =>
        cases h
        exact .drop hes hget hcount halloc

theorem has_of_erase {m : OrderedMap ℤ Unit} {e : ℤ} (h : (m.erase epoch).has e = true) :
    m.has e = true := by
  obtain ⟨u, hu⟩ := has_iff.mp h
  exact has_iff.mpr ⟨u, get_of_get_erase hu⟩

/-- What a tick writes: the index, or the record of one closed epoch and its books. -/
inductive TickWrites (s s' : CreatorState) : Prop
  | index {idx : OrderedMap ℤ Unit} : s' = { s with settleIdx := idx } →
      (∀ e, idx.has e = true → s.settleIdx.has e = true) → TickWrites s s'
  | record {epoch : ℤ} {ce ce' : CreatorEpoch} : s.epochs.get epoch = some ce →
      s'.epochs = s.epochs.set ce.epochId ce' →
      ce.status = .counting ∨ ce.status = .allocating → ce'.epochId = ce.epochId →
      (∀ e, s'.settleIdx.has e = true → s.settleIdx.has e = true) →
      (s'.pruneIdx = s.pruneIdx ∨
        s'.pruneIdx = s.pruneIdx.set ce.epochId () ∧ ce'.status = .expired) →
      s' = { s' with
        schedule := s.schedule
        clock := s.clock
        stream := s.stream
        trancheSeq := s.trancheSeq
        tranches := s.tranches
        openIdx := s.openIdx
        engagements := s.engagements
        claims := s.claims
        posts := s.posts } → TickWrites s s'

theorem TickCase.writes (h : TickCase p now s s') : TickWrites s s' := by
  cases h with
  | idle => exact .index rfl fun _ => id
  | drop => exact .index rfl fun _ => has_of_erase
  | count _ hget hst _ _ hcount =>
    obtain ⟨⟨_, _, rfl⟩, _, _, _, rfl⟩ := countRecord_keeps hcount
    exact .record hget rfl (.inl hst) rfl (fun _ => id) (.inl rfl) rfl
  | countNone _ hget hst _ _ hflush _ hexp =>
    obtain ⟨⟨_, rfl⟩, _, _, _, rfl⟩ := flushCountActor_keeps hflush
    obtain ⟨_, _, rfl⟩ := expireEpochUnallocated_keeps hexp
    exact .record hget rfl (.inl hst) rfl (fun _ => has_of_erase) (.inr ⟨rfl, rfl⟩) rfl
  | countDone _ hget hst _ _ hflush =>
    obtain ⟨⟨_, rfl⟩, _, _, _, rfl⟩ := flushCountActor_keeps hflush
    exact .record hget rfl (.inl hst) rfl (fun _ => id) (.inl rfl) rfl
  | allocate _ hget hst _ _ halloc =>
    obtain ⟨⟨_, _, _, rfl⟩, _, rfl⟩ := allocateRecord_keeps halloc
    exact .record hget rfl (.inr hst) rfl (fun _ => id) (.inl rfl) rfl
  | finish _ hget hst _ _ hfin =>
    obtain ⟨-, ⟨-, hexp⟩ | ⟨-, _, -, rfl⟩⟩ := finishAllocate_keeps hfin
    · obtain ⟨_, _, rfl⟩ := expireEpochUnallocated_keeps hexp
      exact .record hget rfl (.inr hst) rfl (fun _ => has_of_erase) (.inr ⟨rfl, rfl⟩) rfl
    · exact .record hget rfl (.inr hst) rfl (fun _ => has_of_erase) (.inl rfl) rfl

/-- What every tick keeps, any number of ticks keeps. -/
theorem Ticks.induction {P : CreatorState → Prop} (hstep : ∀ s s', TickCase p now s s' → P s → P s')
    (h : Ticks p now s s') (hs : P s) : P s' := by
  induction h with
  | refl => exact hs
  | tail _ htick ih => exact hstep _ _ (settleTick_cases htick) ih

/-- Every record is filed under its own epoch. -/
def WellKeyed (s : CreatorState) : Prop :=
  ∀ e ce, s.epochs.get e = some ce → ce.epochId = e

theorem WellKeyed.set (h : WellKeyed s)
    (hs' : s'.epochs = s.epochs.set epoch ce) (hid : ce.epochId = epoch) : WellKeyed s' := by
  intro e ce' hget
  rw [hs'] at hget
  rcases get_set_cases hget with ⟨rfl, rfl⟩ | ⟨-, hget⟩
  · exact hid
  · exact h e ce' hget

theorem WellKeyed.tick (h : WellKeyed s) (htick : TickCase p now s s') : WellKeyed s' := by
  cases htick.writes with
  | index heq => exact heq ▸ h
  | record _ hepochs _ hid => exact h.set hepochs hid

/-- What a tick leaves alone. -/
structure TickFrame (s s' : CreatorState) : Prop where
  engagements : s'.engagements = s.engagements
  posts : s'.posts = s.posts
  claims : s'.claims = s.claims
  waiting : ∀ e, s'.settleIdx.has e = true → s.settleIdx.has e = true
  recorded : ∀ e ce, s.epochs.get e = some ce → ∃ ce', s'.epochs.get e = some ce'

theorem TickFrame.refl (s : CreatorState) : TickFrame s s :=
  ⟨rfl, rfl, rfl, fun _ h => h, fun _ ce h => ⟨ce, h⟩⟩

theorem TickFrame.trans {s₁ s₂ s₃ : CreatorState} (h : TickFrame s₁ s₂) (h' : TickFrame s₂ s₃) :
    TickFrame s₁ s₃ where
  engagements := h'.engagements.trans h.engagements
  posts := h'.posts.trans h.posts
  claims := h'.claims.trans h.claims
  waiting := fun e he => h.waiting e (h'.waiting e he)
  recorded := fun e ce hget => by
    obtain ⟨ce', hce'⟩ := h.recorded e ce hget
    exact h'.recorded e ce' hce'

theorem recorded_set (m : OrderedMap ℤ CreatorEpoch) (epoch : ℤ) (x : CreatorEpoch) (e : ℤ)
    (ce : CreatorEpoch) (h : m.get e = some ce) : ∃ ce', (m.set epoch x).get e = some ce' := by
  rw [get_set]
  split
  · exact ⟨x, rfl⟩
  · exact ⟨ce, h⟩

theorem TickCase.frame (htick : TickCase p now s s') : TickFrame s s' := by
  cases htick.writes with
  | index heq hidx =>
    rw [heq]
    exact ⟨rfl, rfl, rfl, hidx, fun _ ce h => ⟨ce, h⟩⟩
  | record _ hepochs _ _ hidx _ heq =>
    exact ⟨by rw [heq], by rw [heq], by rw [heq], hidx, hepochs ▸ recorded_set _ _ _⟩

theorem Ticks.frame (h : Ticks p now s s') : TickFrame s s' :=
  h.induction (P := TickFrame s) (fun _ _ htick hs => hs.trans htick.frame) (.refl s)

theorem WellKeyed.ticks (h : WellKeyed s) (hticks : Ticks p now s s') : WellKeyed s' :=
  hticks.induction (fun _ _ htick hs => hs.tick htick) h

theorem settleOneEpoch_ticks (hreach : Ticks p now s₀ s) (hkeyed : WellKeyed s)
    (hhead : ∃ es, s.settleIdx.entries = (epoch, ()) :: es) (budget : ℕ) :
    Ensures (settleOneEpoch p now s epoch budget)
      (EpochSettled p now s₀ s epoch budget (2 * s.engagements.entries.length))
      (TicksFail p now s₀) := by
  obtain ⟨es, hes⟩ := hhead
  unfold settleOneEpoch
  cases hget : s.epochs.get epoch with
  | none =>
    refine ⟨s, hreach, ?_⟩
    simp only [settleTick, hes, epochTick, hget]
  | some ce =>
    obtain rfl := hkeyed epoch ce hget
    have hnext : IsNext s ce := ⟨⟨es, hes⟩, hget⟩
    have htick : settleTick p now s = _ := hnext.settleTick_eq
    have hdrop : ce.status ≠ .counting → ce.status ≠ .allocating →
        settleTick p now s = .ok { s with settleIdx := s.settleIdx.erase ce.epochId } := by
      intro h₁ h₂
      rw [htick]
      cases hst : ce.status with
      | counting => exact absurd hst h₁
      | allocating => exact absurd hst h₂
      | _ => rfl
    cases hst : ce.status with
    | counting =>
      simp only [hst] at htick ⊢
      split
      · next hph => exact ⟨s, hreach, htick.trans (if_pos hph)⟩
      · next hph => exact countEpoch_ticks hreach hnext hst (not_not.mp hph) budget
    | allocating =>
      simp only [hst] at htick ⊢
      split
      · next hph => exact ⟨s, hreach, htick.trans (if_pos hph)⟩
      · next hph =>
        refine (allocateEpoch_ticks hreach hnext hst (not_not.mp hph) budget).imp
          (fun st hst => ⟨hst.ticks, hst.outcome, ?_⟩) fun _ h => h
        have := hst.spent
        omega
    | opened | claimable | expired =>
      simp only [hst]
      exact ⟨hreach.tail (hdrop (by simp [hst]) (by simp [hst])), .inl rfl, Nat.le_add_right _ _⟩

theorem settleNext_spentOut (s : CreatorState) (epochs : List ℤ) :
    epochs.foldlM (settleNext p now) (s, 0) = .ok (s, 0) := by
  induction epochs with
  | nil => rfl
  | cons epoch epochs ih =>
    rw [List.foldlM_cons]
    exact ih

/-- What the loop over the waiting epochs does: ticks, at most two visits to each
record for each epoch, and the epochs of the list are settled unless the budget
is used up. -/
structure AllSettled (p : Params) (now : ℤ) (s₀ : CreatorState) (more : List ℤ) (budget bound : ℕ)
    (st : CreatorState × ℕ) : Prop where
  ticks : Ticks p now s₀ st.1
  outcome : st.2 = 0 ∨ st.1.settleIdx.entries.map Prod.fst = more
  spent : budget ≤ st.2 + bound

/-- As long as budget is left, the next epoch in the list is the first one
waiting. -/
theorem settleAll_ticks {epochs more : List ℤ} {budget : ℕ} (hkeyed : WellKeyed s₀)
    (hreach : Ticks p now s₀ s)
    (hwait : budget = 0 ∨ s.settleIdx.entries.map Prod.fst = epochs ++ more) :
    Ensures (epochs.foldlM (settleNext p now) (s, budget))
      (AllSettled p now s₀ more budget (epochs.length * (2 * s₀.engagements.entries.length)))
      (TicksFail p now s₀) := by
  induction epochs generalizing s budget with
  | nil => exact ⟨hreach, hwait, Nat.le_add_right _ _⟩
  | cons epoch epochs ih =>
    rcases Nat.eq_zero_or_pos budget with rfl | hpos
    · rw [settleNext_spentOut]
      exact ⟨hreach, .inl rfl, Nat.zero_le _⟩
    · have hmore := hwait.resolve_left hpos.ne'
      cases hes : s.settleIdx.entries with
      | nil =>
        rw [hes] at hmore
        cases hmore
      | cons e es =>
        obtain ⟨e₀, ⟨⟩⟩ := e
        rw [hes] at hmore
        obtain ⟨rfl, hes'⟩ := List.cons.inj hmore
        rw [List.foldlM_cons]
        simp only [settleNext, if_neg hpos.ne']
        have hone := settleOneEpoch_ticks hreach (hkeyed.ticks hreach) ⟨es, hes⟩ budget
        rw [hreach.frame.engagements] at hone
        refine Ensures.bind hone fun st hst => ?_
        have hnext : st.2 = 0 ∨ st.1.settleIdx.entries.map Prod.fst = epochs ++ more := by
          rcases hst.outcome with hout | ⟨hzero, -⟩
          · rw [hout, entries_erase_head hes]
            exact .inr hes'
          · exact .inl hzero
        refine (ih hst.ticks hnext).imp (fun st' hall => ⟨hall.ticks, hall.outcome, ?_⟩)
          fun _ h => h
        have h₁ := hst.spent
        have h₂ := hall.spent
        rw [List.length_cons, Nat.succ_mul]
        omega

/-- A block's settlement is a number of ticks, and it fails only where a tick
fails. -/
theorem settlement_ticks {s : CreatorState} (hkeyed : WellKeyed s) :
    Ensures (processCreatorSettlement p now s) (Ticks p now s)
      (fun err => (p.creatorSettlementRecordsPerBlock < 1 ∧ err = .settlementBudget) ∨
        TicksFail p now s err) := by
  unfold processCreatorSettlement
  refine Ensures.failIf_bind (fun h => .inl ⟨h, rfl⟩) fun _ => ?_
  have hwait : p.creatorSettlementRecordsPerBlock = 0 ∨ s.settleIdx.entries.map Prod.fst =
      (s.settleIdx.entries.take settlementEpochsPerBlock).map Prod.fst ++
        (s.settleIdx.entries.drop settlementEpochsPerBlock).map Prod.fst := by
    rw [← List.map_append, List.take_append_drop]
    exact .inr rfl
  have hall := settleAll_ticks hkeyed (.refl : Ticks p now s s) hwait
  exact (hall.imp (fun _ h => h) fun _ h => .inr h).bind fun st hst => hst.ticks

end Block

end MirageNode
