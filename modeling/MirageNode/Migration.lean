import MirageNode.Chain

/-!
# The v1.39.0 migration

`MigrateV139` of `keeper/upgrade_v139.go`: the one-shot rewrite of a store from before
v1.39.0. The reserves of the profiles are burned, paid levels become the paid flag, followed
and blocked topics become joined and blocked communities, the subscribers of the teams are
counted again, and the renewal schedules and the creator grid are set up.

Maps that the source builds on the way are built here too. Where it iterates over one of them
the order does not show in the store, and the model takes the order of the keys.
-/

namespace MirageNode

open OrderedStore Fallible

/-- The errors of the migration. -/
inductive MigrationError where
  | duplicateIndex (owner : Addr)
  | paidIndexMissing (owner : Addr) (expiry : ℤ) (hasIdx : Bool)
  | indexMismatch (owner : Addr)
  | orphanIndexes (n : ℕ)
  | reserveUncovered (balance reserve : ℕ)
  | reserveTooLarge
  | burnReserve (e : CoreError)
  | joinExists (owner : Addr) (slug : Slug)
  | blockExists (owner : Addr)
  | blockSequence (owner : Addr) (e : CoreError)
  | teamIdentity
  | duplicateTeam (slug : Slug) (team : ℕ)
  | recount (slug : Slug) (team : ℕ) (e : CoreError)
  | params (e : CoreError)
  | creator (e : CoreError)
deriving Repr

/-! ## 1. Profiles and reserves -/

def levelAgent : ℤ := 10

/-- `validPaid`: a subscriber or agent whose subscription has not ended. -/
def ProfileCore.validPaid (core : ProfileCore) (now : ℤ) : Bool :=
  decide (core.subscriptionExpiry > now) &&
    (decide (core.level = levelSubscriber) || decide (core.level = levelAgent))

/-- `indexByOwner`, one record. -/
def indexOwner (idx : OrderedMap Addr ℤ) (e : (ℤ ×ₗ Addr) × ℤ) :
    Except MigrationError (OrderedMap Addr ℤ) := do
  failIf (idx.has (ofLex e.1).2 = true) (.duplicateIndex (ofLex e.1).2)
  return idx.set (ofLex e.1).2 (ofLex e.1).1

/-- The check of one profile against the expiry index. -/
def checkPaidIndex (now : ℤ) (idx : OrderedMap Addr ℤ) (e : Addr × ProfileCore) :
    Except MigrationError (OrderedMap Addr ℤ) := do
  if e.2.validPaid now then
    failIf (idx.get e.1 ≠ some e.2.subscriptionExpiry)
      (.paidIndexMissing e.1 e.2.subscriptionExpiry (idx.has e.1))
  else
    failIf (idx.has e.1 = true ∧ e.2.subscriptionExpiry > 0 ∧
      idx.get e.1 ≠ some e.2.subscriptionExpiry) (.indexMismatch e.1)
  return idx.erase e.1

/-- The checks on profiles and expiry index. -/
def checkSubscriptions (now : ℤ) (profiles : Profiles) (subs : OrderedMap (ℤ ×ₗ Addr) ℤ) :
    Except MigrationError Unit := do
  let idx ← subs.entries.foldlM indexOwner .empty
  let rest ← profiles.entries.foldlM (checkPaidIndex now) idx
  failIf (rest.size > 0) (.orphanIndexes rest.size)

def reserveTotal (profiles : Profiles) : ℕ := profiles.sum fun _ core => core.reserveFunds

/-- The burn of the aggregate reserve. -/
def burnReserve (bank : Bank) (reserve : ℕ) : Except MigrationError Bank := do
  failIf (bank.core < reserve) (.reserveUncovered bank.core reserve)
  if reserve > 0 then do
    failIf (reserve > maxUint64) .reserveTooLarge
    (bank.burnCoinsTracked reserve).mapError MigrationError.burnReserve
  else return bank

/-- A profile after the migration. -/
def ProfileCore.migrated (core : ProfileCore) (now : ℤ) : ProfileCore :=
  if core.validPaid now then
    { core with
      reserveFunds := 0
      effectivePaid := true
      level := if core.level = levelAgent then levelSubscriber else core.level }
  else
    { core with
      reserveFunds := 0
      effectivePaid := false
      level := if core.level = levelAgent ∨ core.level = levelSubscriber then levelFree
        else core.level }

/-! ## 2. Topics -/

/-- How often each account occurs in a list, in `uint32` arithmetic. -/
def countOwners (owners : List Addr) : OrderedMap Addr ℕ :=
  owners.foldl (fun m owner => m.set owner (uint32 (m.count owner + 1))) .empty

/-- The loop body of `migrateFollowedTopics`. -/
def migrateFollowedTopic (c : CurationState) (join : Addr × Slug) :
    Except MigrationError CurationState := do
  failIf (c.joins.has (toLex join) = true) (.joinExists join.1 join.2)
  return { c with
    joins := c.joins.set (toLex join) .default
    joinRev := c.joinRev.set (toLex (join.2, join.1)) () }

/-- The accounts and names of a list family, in the order of an iteration. -/
def ListStore.pairs (l : ListStore) : List (Addr × ℕ) := l.entries.entries.map fun e => ofLex e.1

def migrateFollowedTopics (topics : ListStore) (c : CurationState) :
    Except MigrationError CurationState := do
  let c ← topics.pairs.foldlM migrateFollowedTopic c
  return { c with
    joinCount := (countOwners (topics.pairs.map Prod.fst)).entries.foldl
      (fun m e => m.set e.1 e.2) c.joinCount }

/-- `maxSeq` of `migrateBlockedTopics`, one topic. -/
def raiseSeq (m : OrderedMap Addr ℕ) (e : (Addr ×ₗ ℕ) × ℕ) : OrderedMap Addr ℕ :=
  if e.2 > m.count (ofLex e.1).1 then m.set (ofLex e.1).1 e.2 else m

/-- `maxSeq` of `migrateBlockedTopics`. -/
def maxSeqs (entries : List ((Addr ×ₗ ℕ) × ℕ)) : OrderedMap Addr ℕ :=
  entries.foldl raiseSeq .empty

/-- The first loop body of `migrateBlockedTopics`. -/
def migrateBlockedTopic (b : BlockedCommunities) (e : (Addr ×ₗ ℕ) × ℕ) :
    Except MigrationError BlockedCommunities := do
  let owner := (ofLex e.1).1
  let pattern := (ofLex e.1).2
  failIf (b.entries.has (toLex (owner, toLex (e.2, pattern))) = true) (.blockExists owner)
  return { b with
    entries := b.entries.set (toLex (owner, toLex (e.2, pattern))) ()
    idx := b.idx.set e.1 e.2 }

/-- The second loop body of `migrateBlockedTopics`. -/
def migrateBlockedCount (maxSeq : OrderedMap Addr ℕ) (b : BlockedCommunities) (e : Addr × ℕ) :
    Except MigrationError BlockedCommunities := do
  let next ← (checkedAddUint64 (maxSeq.count e.1) 1).mapError (MigrationError.blockSequence e.1)
  return { b with
    counts := b.counts.set e.1 e.2
    next := b.next.set e.1 next }

def migrateBlockedTopics (topics : ListStore) (b : BlockedCommunities) :
    Except MigrationError BlockedCommunities := do
  let b ← topics.entries.entries.foldlM migrateBlockedTopic b
  (countOwners (topics.pairs.map Prod.fst)).entries.foldlM
    (migrateBlockedCount (maxSeqs topics.entries.entries)) b

/-! ## 3. Teams -/

/-- A team with its order filled in and its subscribers not counted yet. -/
def CurationTeam.uncounted (team : CurationTeam) : CurationTeam :=
  { team with
    createdOrder := if team.createdOrder = 0 then team.teamId else team.createdOrder
    subscriberCount := 0 }

/-- `teams`, one record. It is filed under the identity that the record itself names. -/
def collectTeam (teams : OrderedMap (Slug ×ₗ ℕ) CurationTeam) (team : CurationTeam) :
    Except MigrationError (OrderedMap (Slug ×ₗ ℕ) CurationTeam) := do
  failIf (team.community = 0 ∨ team.teamId = 0) .teamIdentity
  failIf (teams.has (toLex (team.community, team.teamId)) = true)
    (.duplicateTeam team.community team.teamId)
  return teams.set (toLex (team.community, team.teamId)) team.uncounted

/-- The recount, one joined community. -/
def recountJoin (eligible : Addr → Bool) (teams : OrderedMap (Slug ×ₗ ℕ) CurationTeam)
    (e : (Addr ×ₗ Slug) × CommunityPreference) :
    Except MigrationError (OrderedMap (Slug ×ₗ ℕ) CurationTeam) :=
  let slug := (ofLex e.1).2
  let id := e.2.pinnedTeamId
  if ¬ eligible (ofLex e.1).1 ∨ e.2.mode ≠ .pinned then .ok teams
  else match teams.get (toLex (slug, id)) with
    | none => .ok teams
    | some team =>
      if team.deletedHeight ≠ 0 then .ok teams
      else do
        let next ← (checkedAddUint64 team.subscriberCount 1).mapError
          (MigrationError.recount slug id)
        return teams.set (toLex (slug, id)) { team with subscriberCount := next }

def migrateCuratorDefinedCommunities (eligible : Addr → Bool) (c : CurationState) :
    Except MigrationError CurationState := do
  let teams ← (c.teams.entries.map Prod.snd).foldlM collectTeam .empty
  let teams ← c.joins.entries.foldlM (recountJoin eligible) teams
  return (teams.entries.map Prod.snd).foldl CurationState.setCurationTeam c

/-! ## 4. The migration -/

/-- The stored parameters with the settings of v1.39.0 at their defaults. -/
def Params.migrated (p : Params) : Params :=
  { p with
    tiers := defaultParams.tiers
    subscriptionCreatorBps := defaultParams.subscriptionCreatorBps
    maxCuratorsPerTeam := defaultParams.maxCuratorsPerTeam
    maxPendingCuratorInvitesPerTeam := defaultParams.maxPendingCuratorInvitesPerTeam
    maxPendingCuratorInvitesPerUser := defaultParams.maxPendingCuratorInvitesPerUser
    maxCurationTeamNameLength := defaultParams.maxCurationTeamNameLength
    maxCurationTeamDescriptionLength := defaultParams.maxCurationTeamDescriptionLength
    subscriptionTransitionsPerBlock := defaultParams.subscriptionTransitionsPerBlock
    creatorEpochClosuresPerBlock := defaultParams.creatorEpochClosuresPerBlock
    creatorSettlementRecordsPerBlock := defaultParams.creatorSettlementRecordsPerBlock
    creatorPruneKeysPerBlock := defaultParams.creatorPruneKeysPerBlock
    creatorClaimWindowDays := defaultParams.creatorClaimWindowDays
    maxCreatorClaimEpochs := defaultParams.maxCreatorClaimEpochs
    maxCreatorEngagementsPerEpoch := defaultParams.maxCreatorEngagementsPerEpoch
    creatorEpochExpiriesPerBlock := defaultParams.creatorEpochExpiriesPerBlock
    subscriptionEarlyRenewalDays := defaultParams.subscriptionEarlyRenewalDays
    subscriptionRenewalAttemptsPerBlock := defaultParams.subscriptionRenewalAttemptsPerBlock
    subscriberDailyRelayLimit := defaultParams.subscriberDailyRelayLimit
    maxSubscriptionPeriodsPerPurchase := defaultParams.maxSubscriptionPeriodsPerPurchase
    creatorEpochSeconds := defaultParams.creatorEpochSeconds }

/-- The renewal schedule of one migrated profile. -/
def scheduleRenewal (now : ℤ) (s : ChainState) (e : Addr × ProfileCore) : ChainState :=
  if e.2.effectivePaid ∧ e.2.subscriptionExpiry > 0 then
    replaceSubscriptionRenewalSchedule now s e.1
  else s

/-- The creator grid, clock and stream that the migration starts. -/
def startCreatorGrid (now : ℤ) (seconds : ℕ) (c : CreatorState) :
    Except CoreError CreatorState := do
  let epoch ← creatorEpochFromUnix now seconds
  let c ← setCreatorSchedule c ⟨0, 0, seconds⟩
  let stream ← anchorCreatorStream c.stream now
  return { c with clock := epoch, stream := stream }

/-- The part of `MigrateV139` that rewrites the records of the users and the parameters. -/
def migrateRecords (now : ℤ) (s : ChainState) : Except MigrationError ChainState := do
  checkSubscriptions now s.profiles s.subs
  let bank ← burnReserve s.creator.bank (reserveTotal s.profiles)
  let profiles := s.profiles.mapVal fun core => core.migrated now
  let curation ← migrateFollowedTopics s.followedTopics s.curation
  let blocked ← migrateBlockedTopics s.blockedTopics s.blockedCommunities
  let curation ← migrateCuratorDefinedCommunities (Profiles.eligible profiles) curation
  s.params.migrated.validateV139.mapError MigrationError.params
  return { s with
    params := s.params.migrated
    profiles := profiles
    blockedCommunities := blocked
    followedTopics := .empty
    blockedTopics := .empty
    curation := curation
    creator := { s.creator with bank := bank } }

def migrateV139 (ctx : BlockCtx) (s : ChainState) : Except MigrationError ChainState :=
  if s.upgraded then .ok s
  else do
    let s ← migrateRecords ctx.time s
    let s := s.profiles.entries.foldl (scheduleRenewal ctx.time) s
    let creator ← (startCreatorGrid ctx.time s.params.creatorEpochSeconds s.creator).mapError
      MigrationError.creator
    return { s with creator := creator, upgraded := true }

end MirageNode
