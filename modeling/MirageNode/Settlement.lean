import MirageNode.Engagement

/-!
# Settlement of closed epochs

`keeper/creator_settle.go`. A closed epoch is settled in two passes over its
engagement records, each under a per-block budget and resumable anywhere. The
first pass marks the valid records and counts them for each actor. The second
one splits the pool evenly over the actors with a valid record, and each actor's
share evenly over that actor's valid records.
-/

namespace MirageNode

open OrderedStore Fallible

/-! ## 1. Reading engagement records -/

/-- `collectPrefixFrom` on an epoch's engagement records, without a limit: from
the start, or from a cursor, whose own record is skipped. -/
def engagementsFrom (s : CreatorState) (epoch : ℤ) (cursor : Option EngagementKey) :
    List (EngagementKey × Option Hash) :=
  match cursor with
  | none => s.engagements.scan fun k => k.epoch = epoch
  | some c => (s.engagements.scan fun k => c ≤ k ∧ k.epoch ≤ epoch).drop 1

def engagementValid (s : CreatorState) (epoch : ℤ) (actor : Addr) (kind : ℕ) (target : Hash)
    (value : Option Hash) : Except CoreError Bool :=
  match s.posts.get target with
  | none => .error (.engagementTargetMissing target epoch)
  | some post =>
    if post.author = actor then .error (.selfEngagement actor target)
    else if post.deletedEpoch ≠ 0 ∧ post.deletedEpoch ≤ epoch then .ok false
    else if kind = engagementKindUpvote then
      .ok (s.voteDirs.get (toLex (actor, target)) = some 1)
    else if kind = engagementKindDirectReply then
      match value with
      | none => .error .replySourceHash
      | some source =>
        match s.posts.get source with
        | none => .error (.replySourceMissing source)
        | some src =>
          if src.author ≠ actor ∨ src.parentHash ≠ some target then
            .error (.replySourceMismatch source)
          else .ok ¬ (src.deletedEpoch ≠ 0 ∧ src.deletedEpoch ≤ epoch)
    else .error (.unknownEngagementKind kind)

/-- Writes an epoch's record back. -/
def saveEpoch (s : CreatorState) (ce : CreatorEpoch) : CreatorState :=
  { s with epochs := s.epochs.set ce.epochId ce }

/-! ## 2. Leaving settlement -/

def burnCreatorPool (s : CreatorState) (amount : ℤ) : Except CoreError CreatorState :=
  if amount > 0 then do
    let bank ← s.bank.burnFromCreatorPool amount.toNat
    addCreatorLiability { s with bank := bank } (-amount)
  else .ok s

def expireEpochUnallocated (s : CreatorState) (ce : CreatorEpoch) (burn : ℤ) :
    Except CoreError CreatorState := do
  let s ← burnCreatorPool s burn
  let ce := { ce with status := .expired, prunePending := true, settlementCursor := none }
  return { s with
    epochs := s.epochs.set ce.epochId ce
    settleIdx := s.settleIdx.erase ce.epochId
    pruneIdx := s.pruneIdx.set ce.epochId () }

/-- `finishAllocate`, at block time `now`. -/
def finishAllocate (p : Params) (now : ℤ) (s : CreatorState) (ce : CreatorEpoch) :
    Except CoreError CreatorState := do
  failIf (ce.allocatedTotal > ce.pool) (.allocatedExceedsPool ce.epochId ce.allocatedTotal ce.pool)
  if ce.allocatedTotal ≤ 0 then expireEpochUnallocated s ce ce.pool
  else do
    let deadline ← creatorClaimDeadline now p.creatorClaimWindowDays
    let ce := { ce with
      finalizedEpoch := s.clock
      claimWindowDays := p.creatorClaimWindowDays
      claimDeadlineUnix := deadline
      status := .claimable
      settlementCursor := none }
    return { s with
      epochs := s.epochs.set ce.epochId ce
      settleIdx := s.settleIdx.erase ce.epochId
      deadlineIdx := s.deadlineIdx.set (toLex (deadline, ce.epochId)) () }

/-! ## 3. Allocating -/

def addTargetTotal (s : CreatorState) (target : Hash) (delta : ℤ) : CreatorState :=
  { s with targetTotals :=
      s.targetTotals.set target ((s.targetTotals.get target).getD 0 + delta) }

def addCreatorAccrual (s : CreatorState) (epoch : ℤ) (creator : Addr) (delta : ℤ) : CreatorState :=
  let acc := (s.accruals.get (toLex (epoch, creator))).getD ⟨epoch, creator, 0, 0, false, 0, 0⟩
  { s with accruals :=
      s.accruals.set (toLex (epoch, creator)) { acc with amount := acc.amount + delta } }

/-- The unit counted in a target's earnings, by kind. -/
def TargetEarning.addUnit (te : TargetEarning) (kind : ℕ) : Except CoreError TargetEarning :=
  if kind = engagementKindUpvote then do
    let units ← checkedAddUint64 te.upvoteUnits 1
    return { te with upvoteUnits := units }
  else do
    let units ← checkedAddUint64 te.directReplyUnits 1
    return { te with directReplyUnits := units }

def applyAllocation (s : CreatorState) (epoch : ℤ) (kind : ℕ) (target : Hash) (perUnit : ℤ) :
    Except CoreError CreatorState :=
  match s.posts.get target with
  | none => .error (.allocateTargetMissing target epoch)
  | some post => do
    let te := (s.targets.get (toLex (epoch, target))).getD ⟨epoch, target, post.author, 0, 0, 0⟩
    let te ← te.addUnit kind
    if perUnit > 0 then
      let s := addCreatorAccrual (addTargetTotal s target perUnit) epoch post.author perUnit
      return { s with
        targets := s.targets.set (toLex (epoch, target)) { te with amount := te.amount + perUnit } }
    else return { s with targets := s.targets.set (toLex (epoch, target)) te }

/-- The number of valid records counted for an actor. -/
def actorUnits (s : CreatorState) (epoch : ℤ) (actor : Addr) : ℕ :=
  (s.counts.get (toLex (epoch, actor))).getD 0

/-- What one of an actor's valid records is worth. -/
def perUnit (s : CreatorState) (ce : CreatorEpoch) (actor : Addr) : ℤ :=
  ce.engagerSlice.tdiv (actorUnits s ce.epochId actor)

/-- The record's progress after `amount` was allocated to the record `key`. -/
def CreatorEpoch.addAllocated (ce : CreatorEpoch) (amount : ℤ) (key : EngagementKey) :
    CreatorEpoch :=
  { ce with
    allocatedTotal := if amount > 0 then ce.allocatedTotal + amount else ce.allocatedTotal
    settlementCursor := some key }

/-- One pass of the loop in `allocateEpoch`. -/
def allocateRecord (st : CreatorState × CreatorEpoch) (record : EngagementKey × Option Hash) :
    Except CoreError (CreatorState × CreatorEpoch) :=
  let (s, ce) := st
  let key := record.1
  if s.validMarks.has (keyEngagement ce.epochId key.actor key.kind key.target) then do
    failIf (actorUnits s ce.epochId key.actor = 0) (.engagementCountMissing key.actor ce.epochId)
    let s' ← applyAllocation s ce.epochId key.kind key.target (perUnit s ce key.actor)
    return (s', ce.addAllocated (perUnit s ce key.actor) key)
  else .ok (s, { ce with settlementCursor := some key })

/-- `allocateEpoch`: the new state and what is left of the budget. -/
def allocateEpoch (p : Params) (now : ℤ) (s : CreatorState) (ce : CreatorEpoch) (budget : ℕ) :
    Except CoreError (CreatorState × ℕ) := do
  let records := (engagementsFrom s ce.epochId ce.settlementCursor).take (budget + 1)
  let (s, ce) ← (records.take budget).foldlM allocateRecord (s, ce)
  if records.length ≤ budget then do
    let s ← finishAllocate p now s ce
    return (s, budget - records.length)
  else return (saveEpoch s ce, 0)

/-! ## 4. Counting -/

/-- An actor's count when it is complete: one more active engager if it is not
zero. -/
def activeAfter (ce : CreatorEpoch) : Except CoreError ℕ :=
  if ce.partialCount > 0 then checkedAddUint64 ce.activeEngagers 1 else .ok ce.activeEngagers

def flushCountActor (s : CreatorState) (ce : CreatorEpoch) :
    Except CoreError (CreatorState × CreatorEpoch) :=
  match ce.partialActor with
  | none => .ok (s, ce)
  | some actor => do
    let active ← activeAfter ce
    return ({ s with counts := s.counts.set (toLex (ce.epochId, actor)) ce.partialCount },
      { ce with activeEngagers := active, partialActor := none, partialCount := 0 })

/-- The flush in `countEpoch` when the records move on to another actor. -/
def flushForActor (s : CreatorState) (ce : CreatorEpoch) (actor : Addr) :
    Except CoreError (CreatorState × CreatorEpoch) :=
  if ce.partialActor = some actor then .ok (s, ce) else flushCountActor s ce

/-- One pass of the loop in `countEpoch`. -/
def countRecord (st : CreatorState × CreatorEpoch) (record : EngagementKey × Option Hash) :
    Except CoreError (CreatorState × CreatorEpoch) := do
  let key := record.1
  let (s, ce) ← flushForActor st.1 st.2 key.actor
  let valid ← engagementValid s ce.epochId key.actor key.kind key.target record.2
  let mark := keyEngagement ce.epochId key.actor key.kind key.target
  let ce := { ce with partialActor := some key.actor, settlementCursor := some key }
  if valid then
    return ({ s with validMarks := s.validMarks.set mark () },
      { ce with partialCount := ce.partialCount + 1 })
  else return ({ s with validMarks := s.validMarks.erase mark }, ce)

/-- An epoch's record as its allocation starts. -/
def CreatorEpoch.allocating (ce : CreatorEpoch) : CreatorEpoch :=
  { ce with
    engagerSlice := ce.pool.tdiv ce.activeEngagers
    status := .allocating
    phase := .allocate
    settlementCursor := none
    partialActor := none
    partialCount := 0 }

def finishCount (p : Params) (now : ℤ) (s : CreatorState) (ce : CreatorEpoch) (remaining : ℕ) :
    Except CoreError (CreatorState × ℕ) :=
  if ce.activeEngagers = 0 then do
    let s ← expireEpochUnallocated s ce ce.pool
    return (s, remaining)
  else
    let s := saveEpoch s ce.allocating
    if remaining = 0 then .ok (s, 0) else allocateEpoch p now s ce.allocating remaining

/-- `countEpoch`: the new state and what is left of the budget. -/
def countEpoch (p : Params) (now : ℤ) (s : CreatorState) (ce : CreatorEpoch) (budget : ℕ) :
    Except CoreError (CreatorState × ℕ) := do
  let records := (engagementsFrom s ce.epochId ce.settlementCursor).take (budget + 1)
  let (s, ce) ← (records.take budget).foldlM countRecord (s, ce)
  if records.length ≤ budget then do
    let (s, ce) ← flushCountActor s ce
    finishCount p now s ce (budget - records.length)
  else return (saveEpoch s ce, 0)

/-! ## 5. A block's settlement -/

def settleOneEpoch (p : Params) (now : ℤ) (s : CreatorState) (epoch : ℤ) (budget : ℕ) :
    Except CoreError (CreatorState × ℕ) :=
  match s.epochs.get epoch with
  | none => .error (.settlementEpochMissing epoch)
  | some ce =>
    match ce.status with
    | .counting =>
      if ce.phase ≠ .count then .error (.statusPhaseMismatch epoch)
      else countEpoch p now s ce budget
    | .allocating =>
      if ce.phase ≠ .allocate then .error (.statusPhaseMismatch epoch)
      else allocateEpoch p now s ce budget
    | _ => .ok ({ s with settleIdx := s.settleIdx.erase epoch }, budget)

/-- One pass of the loop in `processCreatorSettlement`. -/
def settleNext (p : Params) (now : ℤ) (st : CreatorState × ℕ) (epoch : ℤ) :
    Except CoreError (CreatorState × ℕ) :=
  if st.2 = 0 then .ok st else settleOneEpoch p now st.1 epoch st.2

/-- The number of epochs one block looks at. -/
def settlementEpochsPerBlock : ℕ := 32

/-- `processCreatorSettlement`, at block time `now`. -/
def processCreatorSettlement (p : Params) (now : ℤ) (s : CreatorState) :
    Except CoreError CreatorState := do
  failIf (p.creatorSettlementRecordsPerBlock < 1) .settlementBudget
  let epochs := (s.settleIdx.entries.take settlementEpochsPerBlock).map Prod.fst
  let (s, _) ← epochs.foldlM (settleNext p now) (s, p.creatorSettlementRecordsPerBlock)
  return s

end MirageNode
