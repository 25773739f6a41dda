import MirageNode.SettlementTick

/-!
# How the creator functions can fail

The errors that mean that records are wrong (`CoreError.OfRecords`), and where each of
them could come from. A function that does not look at records avoids them all. One that
does avoids those whose source the caller rules out. The lemmas are over any set `bad` of
such errors, so each invariant names the errors that it is about.
-/

namespace MirageNode

open OrderedStore Fallible

/-! ## 1. Errors about records -/

/-- The errors of the guards, of `engagementValid` and of `applyAllocation`. -/
def CoreError.onRecord : CoreError → Bool
  | engagementTargetMissing .. | selfEngagement .. | replySourceHash | replySourceMissing _
  | replySourceMismatch _ | unknownEngagementKind _ | allocateTargetMissing .. => true
  | _ => false

def CoreError.OnRecord (err : CoreError) : Prop := err.onRecord = true

/-- The errors of the guards, an actor without a count, more allocated than there is and a
record count below zero. -/
def CoreError.ofRecords : CoreError → Bool
  | engagementCountMissing .. | allocatedExceedsPool .. | grossRecordsUnderflow => true
  | err => err.onRecord

def CoreError.OfRecords (err : CoreError) : Prop := err.ofRecords = true

section Avoidance

variable {bad : CoreError → Prop} (hbad : ∀ err, bad err → err.OfRecords)

include hbad

/-- The check fails with an error that is not about records. -/
theorem avoids_guard {c : Prop} [Decidable c] {err : CoreError} (h : err.ofRecords = false) :
    Avoids bad (failIf c err) :=
  .failIf fun _ hbe => Bool.false_ne_true (h.symm.trans (hbad err hbe))

theorem avoids_error {α : Type} {err : CoreError} (h : err.ofRecords = false) :
    Avoids bad (.error err : Except CoreError α) :=
  .error fun hbe => Bool.false_ne_true (h.symm.trans (hbad err hbe))

theorem checkedAddUint64_avoids (a b : ℕ) : Avoids bad (checkedAddUint64 a b) :=
  (avoids_guard hbad rfl).bind fun _ _ => .ok _

theorem checkedAddInt64_avoids (a b : ℤ) : Avoids bad (checkedAddInt64 a b) :=
  (avoids_guard hbad rfl).bind fun _ _ => (avoids_guard hbad rfl).bind fun _ _ => .ok _

/-! ## 2. Recording -/

theorem epochStart_avoids (sched : CreatorSchedule) (epoch : ℤ) :
    Avoids bad (sched.epochStart epoch) := by
  refine (avoids_guard hbad rfl).bind fun _ _ => (avoids_guard hbad rfl).bind fun _ _ =>
    (avoids_guard hbad rfl).bind fun _ _ => (avoids_guard hbad rfl).bind fun _ _ =>
    Avoids.bind ?_ fun _ _ => checkedAddInt64_avoids hbad _ _
  refine (avoids_guard hbad rfl).bind fun _ _ => ?_
  split
  · exact .ok _
  · exact (avoids_guard hbad rfl).bind fun _ _ => .ok _

theorem getOrNewEpoch_avoids (p : Params) (s : CreatorState) (epoch : ℤ) :
    Avoids bad (getOrNewEpoch p s epoch) := by
  unfold getOrNewEpoch
  split
  · exact .ok _
  · exact (epochStart_avoids hbad _ _).bind fun _ _ =>
      ((avoids_guard hbad rfl).bind fun _ _ => epochStart_avoids hbad _ _).bind fun _ _ => .ok _

theorem recordEngagement_avoids (p : Params) (paid : Bool) (s : CreatorState) (actor : Addr)
    (kind : ℕ) (target : Hash) (value : Option Hash) (reserve : CreatorState → CreatorState) :
    Avoids bad (recordEngagement p paid s actor kind target value reserve) := by
  unfold recordEngagement
  split
  · exact .ok _
  split
  · exact .ok _
  split
  · exact .ok _
  refine ((getOrNewEpoch_avoids hbad p s s.clock).bind fun _ _ => .ok _).bind fun ⟨s₁, ce⟩ _ => ?_
  show Avoids bad (ite _ _ _)
  split <;> exact .ok _

/-! ## 3. Settlement, record by record -/

variable {p : Params} {now : ℤ} {s : CreatorState} {ce : CreatorEpoch}

theorem flushCountActor_avoids (s : CreatorState) (ce : CreatorEpoch) :
    Avoids bad (flushCountActor s ce) := by
  unfold flushCountActor activeAfter
  split
  · exact .ok _
  · split
    · exact (checkedAddUint64_avoids hbad _ _).bind fun _ _ => .ok _
    · exact .ok _

/-- Counting a record fails only where the record is not valid. -/
theorem countRecord_avoids {st : CreatorState × CreatorEpoch} {r : EngagementKey × Option Hash}
    (hvalid : ∀ s₁, s₁.posts = st.1.posts → ∀ epoch,
      Avoids bad (engagementValid s₁ epoch r.1.actor r.1.kind r.1.target r.2)) :
    Avoids bad (countRecord st r) := by
  have hflush : Avoids bad (flushForActor st.1 st.2 r.1.actor) := by
    unfold flushForActor
    split
    · exact .ok _
    · exact flushCountActor_avoids hbad _ _
  refine hflush.bind fun st₁ hst₁ => (hvalid _ ?_ _).bind fun valid _ => ?_
  · unfold flushForActor at hst₁
    split at hst₁
    · cases hst₁
      rfl
    · obtain ⟨⟨_, heq⟩, -⟩ := flushCountActor_keeps hst₁
      rw [heq]
  · cases valid <;> exact .ok _

theorem creatorClaimDeadline_avoids (settled : ℤ) (days : ℕ) :
    Avoids bad (creatorClaimDeadline settled days) := by
  refine Avoids.bind ?_ fun window _ => (avoids_guard hbad rfl).bind fun _ _ =>
    checkedAddInt64_avoids hbad _ _
  unfold checkedMulUint64
  split
  · exact .ok _
  · exact (avoids_guard hbad rfl).bind fun _ _ => .ok _

/-- Allocating a record fails where its actor has no count or its target no metadata. -/
theorem allocateRecord_avoids {st : CreatorState × CreatorEpoch} {r : EngagementKey × Option Hash}
    (hcount : st.1.validMarks.has
        (keyEngagement st.2.epochId r.1.actor r.1.kind r.1.target) = true →
      actorUnits st.1 st.2.epochId r.1.actor = 0 →
      ¬ bad (.engagementCountMissing r.1.actor st.2.epochId))
    (htarget : st.1.posts.get r.1.target = none →
      ¬ bad (.allocateTargetMissing r.1.target st.2.epochId)) :
    Avoids bad (allocateRecord st r) := by
  unfold allocateRecord
  simp only
  split
  next hmark =>
    refine (Avoids.failIf (hcount hmark)).bind fun _ _ => Avoids.bind ?_ fun _ _ => .ok _
    unfold applyAllocation
    split
    next hnone => exact .error (htarget hnone)
    next =>
      refine Avoids.bind ?_ fun te _ => ?_
      · unfold TargetEarning.addUnit
        split <;> exact (checkedAddUint64_avoids hbad _ _).bind fun _ _ => .ok _
      · split <;> exact .ok _
  next => exact .ok _

theorem burnCreatorPool_avoids (s : CreatorState) (amount : ℤ) :
    Avoids bad (burnCreatorPool s amount) := by
  unfold burnCreatorPool
  split
  · refine Avoids.bind ?_ fun _ _ => (avoids_guard hbad rfl).bind fun _ _ => .ok _
    exact (avoids_guard hbad rfl).bind fun _ _ => (avoids_guard hbad rfl).bind fun _ _ => .ok _
  · exact .ok _

theorem expireEpochUnallocated_avoids (s : CreatorState) (ce : CreatorEpoch) (burn : ℤ) :
    Avoids bad (expireEpochUnallocated s ce burn) :=
  (burnCreatorPool_avoids hbad s burn).bind fun _ _ => .ok _

/-- The end of an allocation fails where too much was allocated. -/
theorem finishAllocate_avoids (hpool : ce.allocatedTotal > ce.pool →
      ¬ bad (.allocatedExceedsPool ce.epochId ce.allocatedTotal ce.pool)) :
    Avoids bad (finishAllocate p now s ce) := by
  refine (Avoids.failIf hpool).bind fun _ _ => ?_
  split
  · exact expireEpochUnallocated_avoids hbad _ _ _
  · exact (creatorClaimDeadline_avoids hbad _ _).bind fun _ _ => .ok _

/-! ## 4. Settlement, tick by tick -/

/-- A counting tick fails only where the record is not valid. -/
theorem countTick_avoids
    (hvalid : ∀ s₁, s₁.posts = s.posts → ∀ epoch (r : EngagementKey × Option Hash),
      Avoids bad (engagementValid s₁ epoch r.1.actor r.1.kind r.1.target r.2)) :
    Avoids bad (countTick s ce) := by
  unfold countTick
  split
  · exact (countRecord_avoids hbad fun s₁ hposts epoch => hvalid s₁ hposts epoch _).map _
  · refine (flushCountActor_avoids hbad _ _).bind fun ⟨s₁, ce₁⟩ _ => ?_
    show Avoids bad (endCount _ _)
    unfold endCount
    split
    · exact expireEpochUnallocated_avoids hbad _ _ _
    · exact .ok _

/-- An allocating tick fails at a record, or at the end if too much was allocated. -/
theorem allocateTick_avoids
    (hcount : ∀ key : EngagementKey,
      s.validMarks.has (keyEngagement ce.epochId key.actor key.kind key.target) = true →
      actorUnits s ce.epochId key.actor = 0 →
      ¬ bad (.engagementCountMissing key.actor ce.epochId))
    (htarget : ∀ target, s.posts.get target = none →
      ¬ bad (.allocateTargetMissing target ce.epochId))
    (hpool : ce.allocatedTotal > ce.pool →
      ¬ bad (.allocatedExceedsPool ce.epochId ce.allocatedTotal ce.pool)) :
    Avoids bad (allocateTick p now s ce) := by
  unfold allocateTick
  split
  · exact (allocateRecord_avoids hbad (hcount _) (htarget _)).map _
  · exact finishAllocate_avoids hbad hpool

theorem settleTick_avoids
    (hcount : ∀ e ce, s.epochs.get e = some ce → ce.status = .counting →
      Avoids bad (countTick s ce))
    (halloc : ∀ e ce, s.epochs.get e = some ce → ce.status = .allocating →
      Avoids bad (allocateTick p now s ce)) : Avoids bad (settleTick p now s) := by
  unfold settleTick
  split
  · exact .ok _
  unfold epochTick
  split
  · exact avoids_error hbad rfl
  next ce hget =>
  split
  · next hst =>
    split
    · exact avoids_error hbad rfl
    · exact hcount _ ce hget hst
  · next hst =>
    split
    · exact avoids_error hbad rfl
    · exact halloc _ ce hget hst
  · exact .ok _

/-- A block avoids the errors that all its ticks avoid. -/
theorem settlement_avoids (hkeyed : WellKeyed s)
    (hticks : ∀ s₁, Ticks p now s s₁ → Avoids bad (settleTick p now s₁)) :
    Avoids bad (processCreatorSettlement p now s) := by
  intro err herr hbe
  have h := @settlement_ticks p now s hkeyed
  rw [herr] at h
  rcases h with ⟨-, rfl⟩ | ⟨s₁, hreach, hfail⟩
  · exact Bool.false_ne_true (hbad _ hbe)
  · exact hticks s₁ hreach err hfail hbe

end Avoidance

end MirageNode
