import MirageNode.Curation
import MirageNode.ProfileLists
import MirageNode.CreatorSystem

/-!
# The chain state and its subscriptions

The whole store of the core module as one record, and what `keeper/paid.go`,
`keeper/tranche.go` and the block processing of `keeper/upgrade_v139.go` do to it:
activating and ending subscriptions, buying periods, renewing and expiring them.
-/

namespace MirageNode

open OrderedStore Fallible

/-! ## 1. State -/

structure SubscriberQuota where
  utcEpoch : ℤ
  count : ℕ
deriving DecidableEq, Repr

/-- `SubscriptionRenewalState`. -/
structure RenewalState where
  expiry : ℤ
  nextAttemptUnix : ℤ
  warningSent : Bool
  generation : ℕ
deriving DecidableEq, Repr

/-- The components of `KeySubRenewalQueue`: attempt, account, expiry and generation. -/
abbrev RenewalKey := ℤ ×ₗ Addr ×ₗ ℤ ×ₗ ℕ

/-- `KeySubRenewalQueue`. -/
def renewalKey (attempt : ℤ) (owner : Addr) (expiry : ℤ) (generation : ℕ) : RenewalKey :=
  toLex (attempt, toLex (owner, toLex (expiry, generation)))

namespace RenewalKey

def attempt (k : RenewalKey) : ℤ := (ofLex k).1

def owner (k : RenewalKey) : Addr := (ofLex (ofLex k).2).1

end RenewalKey

/-- The store of the core module. -/
structure ChainState where
  params : Params
  /-- `profiles/` -/
  profiles : Profiles
  /-- `usernames/` -/
  usernames : OrderedMap Name Addr
  followedUsers : ListStore
  blockedUsers : ListStore
  blockedPosts : ListStore
  blockedCommunities : BlockedCommunities
  /-- Topics followed before v1.39.0 -/
  followedTopics : ListStore
  /-- Topics blocked before v1.39.0 -/
  blockedTopics : ListStore
  /-- `sq|` -/
  quotas : OrderedMap Addr SubscriberQuota
  curation : CurationState
  /-- `subs/`, with the level -/
  subs : OrderedMap (ℤ ×ₗ Addr) ℤ
  /-- `sra|` -/
  renewals : OrderedMap Addr RenewalState
  /-- `sr|` -/
  renewalQueue : OrderedMap RenewalKey Unit
  creator : CreatorState
  /-- Coins of an account that the bank does not let it spend -/
  locked : OrderedMap Addr ℕ
  /-- `postseq` -/
  postSeq : ℕ
  /-- `UpgradeV139FounderSubsKey` -/
  foundersPinned : Bool
  /-- `UpgradeV139CompleteKey` -/
  upgraded : Bool

/-- `GetBalance`, which counts the coins that cannot be spent. -/
def ChainState.balance (s : ChainState) (owner : Addr) : ℕ :=
  s.creator.bank.spendable owner + s.locked.count owner

def ChainState.saveProfile (s : ChainState) (owner : Addr) (core : ProfileCore) : ChainState :=
  { s with profiles := s.profiles.set owner core }

/-- A call that works on the creator store. -/
def onCreator (s : ChainState) (f : CreatorState → Except CoreError CreatorState) :
    Except ChainError ChainState := do
  let creator ← liftCore (f s.creator)
  return { s with creator := creator }

/-- A call that works on the curation store. -/
def onCuration (s : ChainState) (f : CurationState → Except ChainError CurationState) :
    Except ChainError ChainState := do
  let curation ← f s.curation
  return { s with curation := curation }

def utcEpoch (unix : ℤ) : ℤ := if unix < 0 then 0 else unix / secondsPerUTCDay

/-- `GetSubscriberQuota`. -/
def ChainState.quota (s : ChainState) (owner : Addr) : SubscriberQuota :=
  (s.quotas.get owner).getD ⟨0, 0⟩

/-- `ConsumeSubscriberQuota`, when a block is finalized. -/
def consumeSubscriberQuota (ctx : BlockCtx) (s : ChainState) (owner : Addr) :
    Except ChainError ChainState :=
  match s.profiles.get owner with
  | none => .ok s
  | some core =>
    if s.params.dailyRelayLimit core.level = 0 then .ok s
    else do
      let epoch := utcEpoch ctx.time
      let used := if (s.quota owner).utcEpoch ≠ epoch then 0 else (s.quota owner).count
      failIf (used ≥ s.params.dailyRelayLimit core.level)
        (.dailyLimitReached epoch (s.params.dailyRelayLimit core.level) used)
      return { s with quotas := s.quotas.set owner ⟨epoch, used + 1⟩ }

/-! ## 2. Subscription index and renewal schedule -/

def setSubscription (s : ChainState) (owner : Addr) (level expiry : ℤ) :
    Except ChainError ChainState := do
  failIf (expiry ≤ 0) (.expiryNotPositive expiry)
  return { s with subs := s.subs.set (toLex (expiry, owner)) level }

def removeSubscription (s : ChainState) (owner : Addr) (expiry : ℤ) : ChainState :=
  { s with subs := s.subs.erase (toLex (expiry, owner)) }

/-- The queue without the entry that the account's renewal state names. -/
def ChainState.dequeued (s : ChainState) (owner : Addr) : OrderedMap RenewalKey Unit :=
  match s.renewals.get owner with
  | none => s.renewalQueue
  | some st =>
    s.renewalQueue.erase (renewalKey st.nextAttemptUnix owner st.expiry st.generation)

def replaceSubscriptionRenewalSchedule (now : ℤ) (s : ChainState) (owner : Addr) : ChainState :=
  let queue := s.dequeued owner
  let unscheduled := { s with renewalQueue := queue, renewals := s.renewals.erase owner }
  match s.profiles.get owner with
  | none => unscheduled
  | some core =>
    if core.subscriptionExpiry ≤ 0 then unscheduled
    else
      let early : ℤ := core.subscriptionExpiry - s.params.subscriptionEarlyRenewalDays * 86400
      let attempt := if early < now then now else early
      let generation := ((s.renewals.get owner).map RenewalState.generation).getD 0 + 1
      { s with
        renewals := s.renewals.set owner ⟨core.subscriptionExpiry, attempt, false, generation⟩
        renewalQueue :=
          queue.set (renewalKey attempt owner core.subscriptionExpiry generation) () }

/-! ## 3. Paid state -/

/-- A profile whose subscription starts. -/
def ProfileCore.activated (core : ProfileCore) : ProfileCore :=
  { core with
    effectivePaid := true
    level := if core.level = levelFree then levelSubscriber else core.level }

/-- A profile whose subscription ends. -/
def ProfileCore.deactivated (core : ProfileCore) : ProfileCore :=
  { core with
    effectivePaid := false
    level := if core.level = levelSubscriber then levelFree else core.level
    subscriptionExpiry := 0
    autoRenew := false }

/-- Stores a profile and moves the curation records to its new eligibility. -/
def saveAndTransition (rules : TextRules) (ctx : BlockCtx) (s : ChainState) (owner : Addr)
    (before after : ProfileCore) : Except ChainError ChainState := do
  let s := s.saveProfile owner after
  onCuration s fun c => transitionCurationEligibility rules s.params ctx.height s.profiles c owner
    (canCurate before) (canCurate after)

/-- `TransitionPaidState` with `activate`. -/
def activatePaidState (rules : TextRules) (ctx : BlockCtx) (s : ChainState) (owner : Addr) :
    Except ChainError ChainState :=
  match s.profiles.get owner with
  | none => .error (.paidProfileMissing owner)
  | some core =>
    if core.effectivePaid then .ok s
    else do
      failIf (core.subscriptionExpiry ≤ ctx.time) .activateWithoutExpiry
      saveAndTransition rules ctx s owner core core.activated

/-- `TransitionPaidState` without `activate`. -/
def deactivatePaidState (rules : TextRules) (ctx : BlockCtx) (s : ChainState) (owner : Addr) :
    Except ChainError ChainState :=
  match s.profiles.get owner with
  | none => .error (.paidProfileMissing owner)
  | some core => do
    let s ← saveAndTransition rules ctx s owner core core.deactivated
    return replaceSubscriptionRenewalSchedule ctx.time s owner

/-! ## 4. Buying periods -/

def splitCreatorFee (periodFee creatorBps : ℕ) : Except CoreError (ℕ × ℕ) := do
  failIf (creatorBps > basisPointsDenominator) (.creatorBpsOutOfRange creatorBps)
  if periodFee = 0 ∨ creatorBps = 0 then return (periodFee, 0)
  else do
    failIf (periodFee > maxUint64 / creatorBps) (.periodFeeOverflows periodFee creatorBps)
    let creator := periodFee * creatorBps / basisPointsDenominator
    return (periodFee - creator, creator)

/-- `int64(n)` of a `uint64`. -/
def int64 (n : ℕ) : ℤ := (n : ℤ).bmod (2 ^ 64)

/-- The tranche that `CreateTranche` sells: its window, its fee and how the fee is split. -/
def quoteTranche (ctx : BlockCtx) (p : Params) (id : ℕ) (payer recipient : Addr)
    (source : TrancheSource) (periodCount : ℕ) (expiry : ℤ) :
    Except ChainError SubscriptionTranche :=
  match p.getTierConfig levelSubscriber with
  | none => .error .subscriberTierMissing
  | some tier => do
    let onePeriod ← liftCore (checkedMulUint64 p.subscriptionPeriod 60)
    let duration ← liftCore (checkedMulUint64 onePeriod periodCount)
    let start := if expiry > ctx.time then expiry else ctx.time
    let stop ← liftCore (checkedAddInt64 start (int64 duration))
    let fee ← liftCore (checkedMulUint64 tier.periodFee periodCount)
    let split ← liftCore (splitCreatorFee fee p.subscriptionCreatorBps)
    return {
      id := id
      payer := payer
      recipient := recipient
      source := source
      startTime := start
      endTime := stop
      periodCount := periodCount
      totalFee := fee
      burnAmount := split.1
      creatorAmount := split.2
      creatorBps := p.subscriptionCreatorBps
      period := p.subscriptionPeriod
      createdHeight := ctx.height }

/-- The index without the entry that the profile names. -/
def dropSubscription (s : ChainState) (owner : Addr) (core : ProfileCore) : ChainState :=
  if core.subscriptionExpiry > 0 then removeSubscription s owner core.subscriptionExpiry else s

/-- What `CreateTranche` and `GovSetSubscriptionState` do to a subscription: the old index
entry goes, the profile gets the new expiry and is activated, and index and schedule
follow. -/
def extendSubscription (rules : TextRules) (ctx : BlockCtx) (s : ChainState) (recipient : Addr)
    (core : ProfileCore) (autoRenew : Bool) (stop : ℤ) : Except ChainError ChainState := do
  let s := (dropSubscription s recipient core).saveProfile recipient
    { core with subscriptionExpiry := stop, autoRenew := autoRenew }
  let s ← activatePaidState rules ctx s recipient
  let s ← setSubscription s recipient levelSubscriber stop
  return replaceSubscriptionRenewalSchedule ctx.time s recipient

def createTranche (rules : TextRules) (ctx : BlockCtx) (s : ChainState) (payer recipient : Addr)
    (source : TrancheSource) (periodCount : ℕ) : Except ChainError ChainState := do
  failIf (periodCount < 1 ∨ periodCount > s.params.maxSubscriptionPeriodsPerPurchase)
    (.periodCount s.params.maxSubscriptionPeriodsPerPurchase)
  let id ← (checkedAddUint64 s.creator.trancheSeq 1).mapError ChainError.trancheSequence
  match s.profiles.get recipient with
  | none => .error .recipientMissing
  | some core => do
    let tr ← quoteTranche ctx s.params id payer recipient source periodCount core.subscriptionExpiry
    let s ← onCreator s fun c => takeTrancheFee c payer tr.burnAmount tr.creatorAmount
    let s ← extendSubscription rules ctx s recipient core
      (core.autoRenew || source = .selfPurchase) tr.endTime
    onCreator s fun c => recordTranche ctx.time c tr

/-! ## 5. Block processing -/

def attemptRenewalFromQueueKey (rules : TextRules) (ctx : BlockCtx) (s : ChainState)
    (key : RenewalKey) : Except ChainError ChainState :=
  let dequeued := { s with renewalQueue := s.renewalQueue.erase key }
  match s.profiles.get key.owner with
  | none => .ok dequeued
  | some core =>
    if ¬ core.autoRenew ∨ core.subscriptionExpiry ≤ 0 then
      .ok (replaceSubscriptionRenewalSchedule ctx.time dequeued key.owner)
    else match s.params.getTierConfig levelSubscriber with
      | none => .error .subscriberTierMissing
      | some tier =>
        if s.balance key.owner < tier.periodFee then
          .ok (replaceSubscriptionRenewalSchedule ctx.time dequeued key.owner)
        else createTranche rules ctx dequeued key.owner key.owner .autoRenewal 1

/-- The queue entries that `processEarlyRenewals` picks: of the first few those that are
due, up to the limit. -/
def dueRenewals (now : ℤ) (s : ChainState) : List RenewalKey :=
  let limit := s.params.subscriptionRenewalAttemptsPerBlock
  (((s.renewalQueue.entries.map Prod.fst).take (limit + 8)).filter
    fun k => k.attempt ≤ now).take limit

def processEarlyRenewals (rules : TextRules) (ctx : BlockCtx) (s : ChainState) :
    Except ChainError ChainState :=
  (dueRenewals ctx.time s).foldlM (attemptRenewalFromQueueKey rules ctx) s

def getExpiredSubscriptions (now : ℤ) (s : ChainState) : Except ChainError (List (ℤ × Addr)) := do
  failIf (now < 0) (.expiryScanNegative now)
  let _ ← (checkedAddInt64 now 1).mapError ChainError.expiryScanEnd
  return (s.subs.entries.map fun e => ofLex e.1).filter fun e => e.1 ≤ now

/-- The loop body of `processSubscriptionExpiries`. -/
def expireSubscription (rules : TextRules) (ctx : BlockCtx) (s : ChainState) (sub : ℤ × Addr) :
    Except ChainError ChainState :=
  deactivatePaidState rules ctx (removeSubscription s sub.2 sub.1) sub.2

def processSubscriptionExpiries (rules : TextRules) (ctx : BlockCtx) (s : ChainState) :
    Except ChainError ChainState := do
  let expired ← getExpiredSubscriptions ctx.time s
  (expired.take s.params.subscriptionTransitionsPerBlock).foldlM (expireSubscription rules ctx) s

/-- The loop in `EnsureCurationTeamFoundersSubscribed`. It stops without setting the marker
at the first owner who cannot curate. -/
def pinFounders (rules : TextRules) (p : Params) (profiles : Profiles) (c : CurationState) :
    List CurationTeam → Except ChainError (CurationState × Bool)
  | [] => .ok (c, true)
  | team :: rest =>
    match profiles.get team.owner with
    | none => .ok (c, false)
    | some core =>
      if ¬ canCurate core then .ok (c, false)
      else match p.getTierConfig core.level with
        | none => .error (.founderTierMissing team.owner)
        | some tier => do
          let c ← (joinCommunity rules p c team.owner team.community
            (uint32 tier.maxJoinedCommunities)).mapError
            (ChainError.founderJoin team.owner team.community)
          let c ← (setCurationPreference c team.owner team.community 1 team.teamId true).mapError
            (ChainError.founderPin team.owner team.community team.teamId)
          pinFounders rules p profiles c rest

def ensureCurationTeamFoundersSubscribed (rules : TextRules) (s : ChainState) :
    Except ChainError ChainState :=
  if s.foundersPinned then .ok s
  else do
    let teams := (s.curation.teams.entries.map Prod.snd).filter
      fun team => team.live && team.teamId ≠ 0
    let r ← pinFounders rules s.params s.profiles s.curation teams
    return { s with curation := r.1, foundersPinned := r.2 }

def processBeginBlockV139 (rules : TextRules) (ctx : BlockCtx) (s : ChainState) :
    Except ChainError ChainState :=
  if ¬ s.upgraded then .ok s
  else do
    let s ← ensureCurationTeamFoundersSubscribed rules s
    let s ← onCreator s (advanceCreatorClock s.params ctx.time)
    let s ← processEarlyRenewals rules ctx s
    let s ← processSubscriptionExpiries rules ctx s
    let s ← onCreator s (processCreatorSettlement s.params ctx.time)
    let s ← onCreator s (processCreatorExpiries s.params ctx.time)
    onCreator s (processCreatorPruning s.params)

end MirageNode
