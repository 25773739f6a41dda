import MirageNode.SafeMath

/-!
# Module parameters

The parameters of `types/params.go` that the modelled functions read, with the
checks a governance update has to pass (`ValidateV139`).
-/

namespace MirageNode

open Fallible

/-- The tier settings used here (`TierConfig`). -/
structure TierConfig where
  periodFee : ℕ
  maxFollowedUsers : ℕ
  maxJoinedCommunities : ℕ
  maxBlockedUsers : ℕ
  maxBlockedPosts : ℕ
  maxBlockedCommunities : ℕ
  maxTitleLength : ℕ
  maxContentLength : ℕ
  canHaveBiography : Bool
  maxBiographyLength : ℕ
  maxCurationMemberships : ℕ
  maxDailyRelays : ℕ
deriving DecidableEq, Repr

/-- `AwardConfig`, with the number that the bytes of the name spell. -/
structure AwardConfig where
  name : ℕ
  cost : ℕ
deriving DecidableEq, Repr

/-- The parameters used here (`Params`). -/
structure Params where
  minUsernameSize : ℕ
  maxUsernameSize : ℕ
  minCommunitySize : ℕ
  maxCommunitySize : ℕ
  subscriptionPeriod : ℕ
  tiers : List TierConfig
  awardConfigs : List AwardConfig
  subscriptionCreatorBps : ℕ
  maxCuratorsPerTeam : ℕ
  maxPendingCuratorInvitesPerTeam : ℕ
  maxPendingCuratorInvitesPerUser : ℕ
  maxCurationTeamNameLength : ℕ
  maxCurationTeamDescriptionLength : ℕ
  subscriptionTransitionsPerBlock : ℕ
  creatorEpochClosuresPerBlock : ℕ
  creatorSettlementRecordsPerBlock : ℕ
  creatorPruneKeysPerBlock : ℕ
  creatorClaimWindowDays : ℕ
  maxCreatorClaimEpochs : ℕ
  maxCreatorEngagementsPerEpoch : ℕ
  creatorEpochExpiriesPerBlock : ℕ
  subscriptionEarlyRenewalDays : ℕ
  subscriptionRenewalAttemptsPerBlock : ℕ
  subscriberDailyRelayLimit : ℕ
  maxSubscriptionPeriodsPerPurchase : ℕ
  creatorEpochSeconds : ℕ
deriving DecidableEq, Repr

def basisPointsDenominator : ℕ := 10000

def levelFree : ℤ := 0

def levelSubscriber : ℤ := 1

def levelAdminMin : ℤ := 100

/-- `LevelToTierIndex`, with `none` for the source's `-1`. -/
def levelToTierIndex (level : ℤ) : Option ℕ :=
  if level = levelFree then some 0
  else if level = levelSubscriber then some 1
  else if level ≥ levelAdminMin then some 2
  else none

def Params.getTierConfig (p : Params) (level : ℤ) : Option TierConfig :=
  (levelToTierIndex level).bind fun idx => p.tiers[idx]?

def Params.dailyRelayLimit (p : Params) (level : ℤ) : ℕ :=
  match p.getTierConfig level with
  | none => 0
  | some tier => tier.maxDailyRelays

def Params.getAwardConfig (p : Params) (name : ℕ) : Option AwardConfig :=
  p.awardConfigs.find? fun ac => ac.name = name

def defaultTiers : List TierConfig :=
  [⟨0, 25, 25, 25, 25, 25, 150, 1000, false, 0, 0, 0⟩,
   ⟨100000000000, 500, 500, 500, 500, 500, 300, 20000, true, 512, 10, 1000⟩,
   ⟨0, 500, 500, 500, 500, 500, 300, 20000, true, 512, 1000, 10000⟩]

def defaultAwardConfigs : List AwardConfig :=
  [⟨0x7175616c6974795f706f7374, 10000000000⟩,
   ⟨0x6f726967696e616c5f636f6e74656e74, 5000000000⟩,
   ⟨0x6261736564, 5000000000⟩,
   ⟨0x7265636569707473, 5000000000⟩]

/-- `DefaultParams`, with the settings used here. -/
def defaultParams : Params where
  minUsernameSize := 3
  maxUsernameSize := 30
  minCommunitySize := 2
  maxCommunitySize := 35
  subscriptionPeriod := 43200
  tiers := defaultTiers
  awardConfigs := defaultAwardConfigs
  subscriptionCreatorBps := 5000
  maxCuratorsPerTeam := 10
  maxPendingCuratorInvitesPerTeam := 10
  maxPendingCuratorInvitesPerUser := 100
  maxCurationTeamNameLength := 30
  maxCurationTeamDescriptionLength := 800
  subscriptionTransitionsPerBlock := 100
  creatorEpochClosuresPerBlock := 4
  creatorSettlementRecordsPerBlock := 1000
  creatorPruneKeysPerBlock := 1000
  creatorClaimWindowDays := 30
  maxCreatorClaimEpochs := 30
  maxCreatorEngagementsPerEpoch := 1000000
  creatorEpochExpiriesPerBlock := 4
  subscriptionEarlyRenewalDays := 7
  subscriptionRenewalAttemptsPerBlock := 100
  subscriberDailyRelayLimit := 1000
  maxSubscriptionPeriodsPerPurchase := 12
  creatorEpochSeconds := 21600

def maxSubscriptionPeriodMinutes : ℕ := 525600

def maxProfileListEntries : ℕ := 2 ^ 32 - 1

def minCreatorEpochSeconds : ℕ := 300

def maxAwardConfigCost : ℕ := 1000000000000

/-- The table of list limits in `Validate`. -/
def TierConfig.listLimits (tier : TierConfig) : List (String × ℕ) :=
  [("max_followed_users", tier.maxFollowedUsers),
   ("max_joined_communities", tier.maxJoinedCommunities),
   ("max_blocked_users", tier.maxBlockedUsers),
   ("max_blocked_posts", tier.maxBlockedPosts),
   ("max_blocked_communities", tier.maxBlockedCommunities),
   ("max_curation_memberships", tier.maxCurationMemberships)]

/-- The checks on one tier in `Validate`. -/
def TierConfig.validate (tier : TierConfig) (i : ℕ) : Except CoreError Unit := do
  failIf (tier.maxTitleLength = 0) (.tierZero i "max_title_length")
  failIf (tier.maxContentLength = 0) (.tierZero i "max_content_length")
  tier.listLimits.forM fun limit => failIf (limit.2 > maxProfileListEntries)
    (.tierLimit i limit.1 limit.2 maxProfileListEntries)

/-- The checks on the awards in `Validate`, which walk the list with the names seen
so far. -/
def validateAwards (seen : List ℕ) : List AwardConfig → ℕ → Except CoreError Unit
  | [], _ => .ok ()
  | ac :: rest, i => do
    failIf (ac.name = 0) (.awardUnnamed i)
    failIf (ac.name ∈ seen) (.awardDuplicate i ac.name)
    failIf (ac.cost > maxAwardConfigCost) (.awardCost i ac.cost maxAwardConfigCost)
    validateAwards (ac.name :: seen) rest (i + 1)

/-- `Validate`, the checks on the parameters used here. -/
def Params.validate (p : Params) : Except CoreError Unit := do
  failIf (p.maxUsernameSize = 0 ∨ p.maxUsernameSize > 128)
    (.paramOutOfRange "max_username_size" 1 128)
  failIf (p.maxCommunitySize > 100) (.paramAboveMax "max_community_size" 100)
  failIf (p.minCommunitySize > 0 ∧ p.maxCommunitySize > 0 ∧ p.minCommunitySize > p.maxCommunitySize)
    (.paramOrder "min_community_size" "max_community_size")
  failIf (p.minCommunitySize > 100) (.paramAboveMax "min_community_size" 100)
  failIf (p.minUsernameSize = 0 ∨ p.minUsernameSize > 64)
    (.paramOutOfRange "min_username_size" 1 64)
  failIf (p.minUsernameSize > p.maxUsernameSize)
    (.paramOrder "min_username_size" "max_username_size")
  failIf (p.subscriptionPeriod > maxSubscriptionPeriodMinutes)
    (.paramAboveMax "subscription_period" maxSubscriptionPeriodMinutes)
  failIf (p.tiers.length ≠ 2 ∧ p.tiers.length ≠ 3) .tierCount
  failIf ((p.tiers[0]?.map TierConfig.periodFee) ≠ some 0) .freeTierFee
  p.tiers.zipIdx.forM fun e => e.1.validate e.2
  failIf (p.awardConfigs = []) .awardsEmpty
  validateAwards [] p.awardConfigs 0
  failIf (p.subscriptionCreatorBps > basisPointsDenominator)
    (.paramAboveMax "subscription_creator_bps" basisPointsDenominator)

/-- The table of ranges in `ValidateV139`: name, value, minimum and maximum. -/
def Params.requiredRanges (p : Params) : List (String × ℕ × ℕ × ℕ) :=
  [("max_curators_per_team", p.maxCuratorsPerTeam, 1, 10),
   ("max_pending_curator_invites_per_team", p.maxPendingCuratorInvitesPerTeam, 1,
      p.maxCuratorsPerTeam),
   ("max_pending_curator_invites_per_user", p.maxPendingCuratorInvitesPerUser, 1, 1000),
   ("max_curation_team_name_length", p.maxCurationTeamNameLength, 1, 100000),
   ("max_curation_team_description_length", p.maxCurationTeamDescriptionLength, 1, 100000),
   ("subscription_transitions_per_block", p.subscriptionTransitionsPerBlock, 1, 100000),
   ("creator_epoch_closures_per_block", p.creatorEpochClosuresPerBlock, 1, 100000),
   ("creator_settlement_records_per_block", p.creatorSettlementRecordsPerBlock, 1, 100000),
   ("creator_prune_keys_per_block", p.creatorPruneKeysPerBlock, 1, 100000),
   ("creator_epoch_expiries_per_block", p.creatorEpochExpiriesPerBlock, 1, 100000),
   ("subscription_renewal_attempts_per_block", p.subscriptionRenewalAttemptsPerBlock, 1, 100000),
   ("creator_claim_window_days", p.creatorClaimWindowDays, 1, 365),
   ("max_creator_claim_epochs", p.maxCreatorClaimEpochs, 1, 30),
   ("max_creator_engagements_per_epoch", p.maxCreatorEngagementsPerEpoch, 1, 10000000)]

/-- `Tiers[i].MaxDailyRelays`. -/
def Params.tierRelays (p : Params) (i : ℕ) : ℕ := (p.tiers[i]?.map TierConfig.maxDailyRelays).getD 0

/-- `ValidateV139`, the checks on the parameters used here. -/
def Params.validateV139 (p : Params) : Except CoreError Unit := do
  p.validate
  failIf (p.tiers.length ≠ 3) .tierCountV139
  failIf ((p.tiers[2]?.map TierConfig.periodFee) ≠ some 0) .adminTierFee
  failIf (p.minCommunitySize = 0 ∨ p.maxCommunitySize = 0 ∨
    p.minCommunitySize > p.maxCommunitySize ∨ p.maxCommunitySize > 100) .communitySizes
  failIf (p.subscriptionCreatorBps ≠ 5000) (.paramFixed "subscription_creator_bps" 5000)
  failIf (p.subscriptionPeriod < 1 ∨ p.subscriptionPeriod > maxSubscriptionPeriodMinutes)
    (.paramOutOfRange "subscription_period" 1 maxSubscriptionPeriodMinutes)
  failIf (p.subscriptionEarlyRenewalDays > 30) (.paramAboveMax "subscription_early_renewal_days" 30)
  failIf (p.subscriptionEarlyRenewalDays * 1440 ≥ p.subscriptionPeriod) .earlyRenewalTooLong
  failIf (p.subscriberDailyRelayLimit < 1 ∨ p.subscriberDailyRelayLimit > 10000)
    (.paramOutOfRange "subscriber_daily_relay_limit" 1 10000)
  failIf (p.tierRelays 0 ≠ 0) .freeTierRelays
  failIf (p.tierRelays 1 < 1 ∨ p.tierRelays 1 > 10000) (.tierRelaysOutOfRange "subscriber")
  failIf (p.tierRelays 1 ≠ p.subscriberDailyRelayLimit) .relayLimitsDiffer
  failIf (p.tierRelays 2 < 1 ∨ p.tierRelays 2 > 10000) (.tierRelaysOutOfRange "admin")
  failIf (p.maxSubscriptionPeriodsPerPurchase < 1 ∨ p.maxSubscriptionPeriodsPerPurchase > 12)
    (.paramOutOfRange "max_subscription_periods_per_purchase" 1 12)
  failIf (p.subscriptionPeriod > 527040 / p.maxSubscriptionPeriodsPerPurchase) .purchaseTooLong
  failIf (p.creatorEpochSeconds < minCreatorEpochSeconds ∨ p.creatorEpochSeconds > 86400)
    (.paramOutOfRange "creator_epoch_seconds" minCreatorEpochSeconds 86400)
  failIf (86400 % p.creatorEpochSeconds ≠ 0) .epochSecondsNotDividing
  p.requiredRanges.forM fun r => failIf (r.2.1 < r.2.2.1 ∨ r.2.1 > r.2.2.2)
    (.paramOutOfRange r.1 r.2.2.1 r.2.2.2)
  failIf ((p.tiers[0]?.map TierConfig.maxCurationMemberships) ≠ some 0) .freeTierMemberships

/-- `ValidateGovernanceUpdate`, the checks on the parameters used here. -/
def Params.validateGovernanceUpdate (p : Params) : Except CoreError Unit := do
  p.validateV139
  p.tiers.zipIdx.forM fun e => failIf (e.1.canHaveBiography = true ∧ e.1.maxBiographyLength = 0)
    (.biographyLength e.2)

/-- The budgets are positive. -/
structure Params.Budgeted (p : Params) : Prop where
  records : 0 < p.creatorSettlementRecordsPerBlock
  engagements : 0 < p.maxCreatorEngagementsPerEpoch

/-- A valid parameter lies in its range. -/
theorem Params.range_of_validateV139 {p : Params} (h : p.validateV139 = .ok ())
    {r : String × ℕ × ℕ × ℕ} (hr : r ∈ p.requiredRanges) : r.2.2.1 ≤ r.2.1 ∧ r.2.1 ≤ r.2.2.2 := by
  simp only [validateV139, bind_eq_ok, failIf_eq_ok, exists_const] at h
  obtain ⟨_, -, -, -, -, -, -, -, -, -, -, -, -, -, -, -, -, -, ⟨⟩, hranges, -⟩ := h
  have := forM_eq_ok.mp hranges r hr
  rw [failIf_eq_ok] at this
  omega

theorem Params.budgeted_of_validateV139 {p : Params} (h : p.validateV139 = .ok ()) :
    p.Budgeted := by
  have hrange : ∀ r ∈ p.requiredRanges, r.2.2.1 ≤ r.2.1 :=
    fun r hr => (range_of_validateV139 h hr).1
  exact ⟨hrange ("creator_settlement_records_per_block", p.creatorSettlementRecordsPerBlock, 1,
      100000) (by simp [requiredRanges]),
    hrange ("max_creator_engagements_per_epoch", p.maxCreatorEngagementsPerEpoch, 1, 10000000)
      (by simp [requiredRanges])⟩

/-- What valid parameters say about the periods that are sold. -/
structure Params.Sellable (p : Params) : Prop where
  period_pos : 1 ≤ p.subscriptionPeriod
  period_le : p.subscriptionPeriod ≤ maxSubscriptionPeriodMinutes
  window_lt : p.subscriptionEarlyRenewalDays * 1440 < p.subscriptionPeriod
  periods_pos : 1 ≤ p.maxSubscriptionPeriodsPerPurchase
  periods_le : p.maxSubscriptionPeriodsPerPurchase ≤ 12

theorem Params.sellable_of_validateV139 {p : Params} (h : p.validateV139 = .ok ()) :
    p.Sellable := by
  simp only [validateV139, bind_eq_ok, failIf_eq_ok, exists_const] at h
  obtain ⟨_, -, -, -, -, -, hperiod, -, hwindow, -, -, -, -, -, hperiods, -⟩ := h
  exact ⟨by omega, by omega, by omega, by omega, by omega⟩

/-- The defaults pass their own checks. -/
theorem defaultParams_validateV139 : defaultParams.validateV139 = .ok () := by decide +kernel

end MirageNode
