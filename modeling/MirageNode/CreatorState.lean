import MirageNode.CreatorStream
import MirageNode.CreatorSchedule
import MirageNode.Params
import MirageNode.Bank

/-!
# The creator store

The records behind creator rewards: the epoch grid and clock, the fee stream,
one record for each epoch that was ever touched, the indexes that drive
settlement, the engagement records and what they earned, and the coins behind
it all.

Store keys are typed: each prefix of `types/kv.go` is a map of its own, keyed by
the components the source concatenates, in the order it concatenates them.
Addresses and hashes are the numbers their bytes spell, which keeps the store's
iteration order. Amounts that the source keeps as decimal text are integers.
-/

namespace MirageNode

open OrderedStore Fallible

/-- A post or transaction hash, by the number its bytes spell. -/
abbrev Hash := ℕ

/-- A community name, by the number its bytes spell. -/
abbrev Slug := ℕ

/-! ## 1. Records -/

/-- `CreatorEpochStatus`. -/
inductive EpochStatus where
  | opened
  | counting
  | allocating
  | claimable
  | expired
deriving DecidableEq, Repr

/-- `CreatorSettlementPhase`. -/
inductive SettlementPhase where
  | count
  | allocate
deriving DecidableEq, Repr

/-- The key of an engagement record: epoch, actor, kind byte and target. -/
abbrev EngagementKey := ℤ ×ₗ Addr ×ₗ ℕ ×ₗ Hash

def engagementKindUpvote : ℕ := 1

def engagementKindDirectReply : ℕ := 2

def keyEngagement (epoch : ℤ) (actor : Addr) (kind : ℕ) (target : Hash) : EngagementKey :=
  toLex (epoch, toLex (actor, toLex (kind, target)))

namespace EngagementKey

def epoch (k : EngagementKey) : ℤ := (ofLex k).1

def actor (k : EngagementKey) : Addr := (ofLex (ofLex k).2).1

def kind (k : EngagementKey) : ℕ := (ofLex (ofLex (ofLex k).2).2).1

def target (k : EngagementKey) : Hash := (ofLex (ofLex (ofLex k).2).2).2

end EngagementKey

structure CreatorEpoch where
  epochId : ℤ
  pool : ℤ
  status : EpochStatus
  phase : SettlementPhase
  grossRecords : ℕ
  activeEngagers : ℕ
  engagerSlice : ℤ
  allocatedTotal : ℤ
  claimedTotal : ℤ
  finalizedEpoch : ℤ
  claimWindowDays : ℤ
  claimDeadlineUnix : ℤ
  startUnix : ℤ
  endUnix : ℤ
  settlementCursor : Option EngagementKey
  partialActor : Option Addr
  partialCount : ℕ
  prunePending : Bool
  pruneComplete : Bool
deriving DecidableEq

/-- `CreatorAccrual`, keyed by epoch and creator. -/
structure CreatorAccrual where
  epoch : ℤ
  creator : Addr
  amount : ℤ
  claimedAmount : ℤ
  claimed : Bool
  claimedHeight : ℤ
  claimedTxhash : ℕ
deriving DecidableEq, Repr

/-- `TargetEarning`, keyed by epoch and target. -/
structure TargetEarning where
  epochId : ℤ
  target : Hash
  creator : Addr
  upvoteUnits : ℕ
  directReplyUnits : ℕ
  amount : ℤ
deriving DecidableEq, Repr

/-- `PostMetadata`, the part that posting, engagements and their settlement
read. -/
structure PostMetadata where
  author : Addr
  community : Option Slug
  parentHash : Option Hash
  deletedHeight : ℤ
  deletedEpoch : ℤ
deriving DecidableEq, Repr

/-- `SubscriptionTrancheSource`. -/
inductive TrancheSource where
  | selfPurchase
  | gift
  | autoRenewal
  | governance
deriving DecidableEq, Repr

structure SubscriptionTranche where
  id : ℕ
  payer : Addr
  recipient : Addr
  source : TrancheSource
  startTime : ℤ
  endTime : ℤ
  periodCount : ℕ
  totalFee : ℕ
  burnAmount : ℕ
  creatorAmount : ℕ
  creatorBps : ℕ
  period : ℕ
  createdHeight : ℤ
deriving DecidableEq, Repr

/-- The block a call runs in. -/
structure BlockCtx where
  time : ℤ
  height : ℤ
  txBytes : ℕ
deriving DecidableEq, Repr

/-- The creator store. -/
structure CreatorState where
  /-- `creator_schedule` -/
  schedule : Option CreatorSchedule
  /-- `creator_clock` -/
  clock : ℤ
  /-- `creator_stream_*`, `cstrend|` -/
  stream : CreatorStream
  /-- `trancheseq` -/
  trancheSeq : ℕ
  /-- `tranche|` -/
  tranches : OrderedMap ℕ SubscriptionTranche
  /-- `creator_liability` -/
  liability : ℤ
  /-- `ce|` -/
  epochs : OrderedMap ℤ CreatorEpoch
  /-- `ceopen|` -/
  openIdx : OrderedMap ℤ Unit
  /-- `cesettle|` -/
  settleIdx : OrderedMap ℤ Unit
  /-- `cedeadline|` -/
  deadlineIdx : OrderedMap (ℤ ×ₗ ℤ) Unit
  /-- `ceprune|` -/
  pruneIdx : OrderedMap ℤ Unit
  /-- `ev|`: nothing for an upvote, the source post for a reply -/
  engagements : OrderedMap EngagementKey (Option Hash)
  /-- `evc|` -/
  counts : OrderedMap (ℤ ×ₗ Addr) ℕ
  /-- `evvalid|` -/
  validMarks : OrderedMap EngagementKey Unit
  /-- `vur|` -/
  upvoteReserved : OrderedMap (Addr ×ₗ Hash) ℤ
  /-- `rr|` -/
  replyReserved : OrderedMap (Addr ×ₗ Hash) (ℤ × Hash)
  /-- `vd|` -/
  voteDirs : OrderedMap (Addr ×ₗ Hash) ℤ
  /-- `ect|` -/
  targets : OrderedMap (ℤ ×ₗ Hash) TargetEarning
  /-- `targettotal|` -/
  targetTotals : OrderedMap Hash ℤ
  /-- `eca|` -/
  accruals : OrderedMap (ℤ ×ₗ Addr) CreatorAccrual
  /-- `eclaim|` -/
  claims : OrderedMap (ℤ ×ₗ Addr) Unit
  /-- `pm|` -/
  posts : OrderedMap Hash PostMetadata
  bank : Bank

/-- A store without any creator record. -/
def CreatorState.empty (bank : Bank) : CreatorState where
  schedule := none
  clock := 0
  stream := .empty
  trancheSeq := 0
  tranches := .empty
  liability := 0
  epochs := .empty
  openIdx := .empty
  settleIdx := .empty
  deadlineIdx := .empty
  pruneIdx := .empty
  engagements := .empty
  counts := .empty
  validMarks := .empty
  upvoteReserved := .empty
  replyReserved := .empty
  voteDirs := .empty
  targets := .empty
  targetTotals := .empty
  accruals := .empty
  claims := .empty
  posts := .empty
  bank := bank

/-! ## 2. Grid, liability and epoch records -/

def getCreatorSchedule (p : Params) (s : CreatorState) : CreatorSchedule :=
  s.schedule.getD ⟨0, 0, p.creatorEpochSeconds⟩

def setCreatorSchedule (s : CreatorState) (sched : CreatorSchedule) :
    Except CoreError CreatorState := do
  failIf (sched.originEpoch < 0 ∨ sched.originUnix < 0) .scheduleOriginNegative
  failIf (sched.epochSeconds = 0) .scheduleSecondsUnset
  return { s with schedule := some sched }

def addCreatorLiability (s : CreatorState) (delta : ℤ) : Except CoreError CreatorState := do
  failIf (s.liability + delta < 0) .creatorLiabilityUnderflow
  return { s with liability := s.liability + delta }

/-- The record of an epoch that nothing has touched yet. -/
def CreatorEpoch.fresh (epoch start stop : ℤ) : CreatorEpoch where
  epochId := epoch
  pool := 0
  status := .opened
  phase := .count
  grossRecords := 0
  activeEngagers := 0
  engagerSlice := 0
  allocatedTotal := 0
  claimedTotal := 0
  finalizedEpoch := 0
  claimWindowDays := 0
  claimDeadlineUnix := 0
  startUnix := start
  endUnix := stop
  settlementCursor := none
  partialActor := none
  partialCount := 0
  prunePending := false
  pruneComplete := false

def newCreatorEpoch (p : Params) (s : CreatorState) (epoch : ℤ) :
    Except CoreError CreatorEpoch := do
  let sched := getCreatorSchedule p s
  let start ← sched.epochStart epoch
  let stop ← sched.epochEnd epoch
  return .fresh epoch start stop

/-- The epoch's record, or a new one when there is none. -/
def getOrNewEpoch (p : Params) (s : CreatorState) (epoch : ℤ) : Except CoreError CreatorEpoch :=
  match s.epochs.get epoch with
  | some ce => .ok ce
  | none => newCreatorEpoch p s epoch

/-- `ensureOpenEpoch`: marks the epoch open and returns its record, which the
caller writes back. -/
def ensureOpenEpoch (p : Params) (s : CreatorState) (epoch : ℤ) :
    Except CoreError (CreatorState × CreatorEpoch) := do
  let ce ← getOrNewEpoch p s epoch
  return ({ s with openIdx := s.openIdx.set epoch () }, ce)

def addEpochPool (p : Params) (s : CreatorState) (epoch amount : ℤ) :
    Except CoreError CreatorState := do
  let ce ← getOrNewEpoch p s epoch
  return { s with
    epochs := s.epochs.set epoch { ce with pool := ce.pool + amount }
    openIdx := s.openIdx.set epoch () }

def truncateCreatorEpochEnd (s : CreatorState) (epoch at_ : ℤ) : CreatorState :=
  match s.epochs.get epoch with
  | none => s
  | some ce =>
    if ce.endUnix ≤ at_ then s
    else { s with epochs := s.epochs.set epoch { ce with endUnix := at_ } }

/-- An epoch's record as it enters settlement. -/
def CreatorEpoch.closed (ce : CreatorEpoch) : CreatorEpoch :=
  { ce with
    status := .counting
    phase := .count
    settlementCursor := none
    partialActor := none
    partialCount := 0 }

def closeCreatorEpoch (s : CreatorState) (epoch : ℤ) : Except CoreError CreatorState :=
  if s.openIdx.has epoch then
    match s.epochs.get epoch with
    | none => .error (.creatorEpochMissing epoch)
    | some ce =>
      .ok { s with
        openIdx := s.openIdx.erase epoch
        settleIdx := s.settleIdx.set epoch ()
        epochs := s.epochs.set epoch ce.closed }
  else .ok s

/-! ## 3. What the epoch operations do -/

theorem getOrNewEpoch_cases {p : Params} {s : CreatorState} {epoch : ℤ} {ce : CreatorEpoch}
    (h : getOrNewEpoch p s epoch = .ok ce) :
    s.epochs.get epoch = some ce ∨
      s.epochs.get epoch = none ∧ ∃ start stop,
        (getCreatorSchedule p s).epochStart epoch = .ok start ∧
        (getCreatorSchedule p s).epochEnd epoch = .ok stop ∧ ce = .fresh epoch start stop := by
  unfold getOrNewEpoch at h
  cases hget : s.epochs.get epoch with
  | some ce' =>
    rw [hget] at h
    exact .inl (congrArg some (Except.ok.inj h))
  | none =>
    simp only [hget, newCreatorEpoch, bind_eq_ok, pure_eq_ok] at h
    obtain ⟨start, hstart, stop, hstop, rfl⟩ := h
    exact .inr ⟨rfl, start, stop, hstart, hstop, rfl⟩

theorem addEpochPool_eq_ok {p : Params} {s s' : CreatorState} {epoch amount : ℤ} :
    addEpochPool p s epoch amount = .ok s' ↔
      ∃ ce, getOrNewEpoch p s epoch = .ok ce ∧
        s' = { s with
          epochs := s.epochs.set epoch { ce with pool := ce.pool + amount }
          openIdx := s.openIdx.set epoch () } := by
  simp only [addEpochPool, bind_eq_ok, pure_eq_ok, @eq_comm _ s']

theorem closeCreatorEpoch_cases {s s' : CreatorState} {epoch : ℤ}
    (h : closeCreatorEpoch s epoch = .ok s') :
    s.openIdx.has epoch = false ∧ s' = s ∨
      s.openIdx.has epoch = true ∧ ∃ ce, s.epochs.get epoch = some ce ∧
        s' = { s with
          openIdx := s.openIdx.erase epoch
          settleIdx := s.settleIdx.set epoch ()
          epochs := s.epochs.set epoch ce.closed } := by
  unfold closeCreatorEpoch at h
  split at h
  · next hopen =>
    cases hget : s.epochs.get epoch with
    | none =>
      rw [hget] at h
      cases h
    | some ce =>
      rw [hget] at h
      exact .inr ⟨hopen, ce, rfl, (Except.ok.inj h).symm⟩
  · next hopen => exact .inl ⟨by simpa using hopen, (Except.ok.inj h).symm⟩

end MirageNode
