import MirageNode.Chain
import MirageNode.RelayMessage

/-!
# Message handlers

The handlers of `module/module.go`, `module/community.go`, `module/legacy_mobile.go` and
`module/gov_community.go`. A message holds its fields as the handler uses them: texts
trimmed and in lower case where the handler does that, addresses and hashes decoded.

A relay message is sent by a user through an envelope or by governance (`Actor`); a
governance message only by governance.
-/

namespace MirageNode

open OrderedStore Fallible

/-! ## 1. Messages -/

/-- The text rules and the address of the governance account. -/
structure ChainEnv extends TextRules where
  govAuthority : Addr

/-- Who sends a message: governance, or the user who signed the envelope, with the
`envelope_pow` of the envelope. -/
inductive Actor where
  | governance
  | user (addr : Addr) (pow : ℕ)
deriving DecidableEq, Repr

/-- `MsgPost`. -/
structure PostDraft where
  protocolVersion : ℕ
  community : Option Slug
  target : Option Hash
  contentBlank : Bool
  contentLength : ℕ
  titleLength : ℕ
  fields : Text
  tag : Text
  media : Text
deriving DecidableEq, Repr

/-- `MsgEdit`. -/
structure EditDraft where
  override : Hash
  community : Option Slug
  target : Option Hash
  contentLength : ℕ
  titleLength : ℕ
  fields : Text
  tag : Text
deriving DecidableEq, Repr

/-- The relay messages. -/
inductive RelayMsg where
  | post (draft : PostDraft)
  | vote (target : Hash) (direction : ℤ)
  | setUsername (target : Addr) (username : Name)
  | followUser (target user : Addr)
  | unfollowUser (target user : Addr)
  | followTopic (target : Option Addr) (topic : Slug)
  | unfollowTopic (target : Option Addr) (topic : Slug)
  | blockTopic (target : Option Text) (pattern : Text)
  | unblockTopic (target : Option Text) (pattern : Text)
  | joinCommunity (slug : Slug) (mode : ℤ) (team : ℕ)
  | leaveCommunity (slug : Slug)
  | blockPost (target : Hash)
  | unblockPost (target : Hash)
  | blockUser (target : Addr)
  | unblockUser (target : Addr)
  | blockCommunity (pattern : Text)
  | unblockCommunity (pattern : Text)
  | delete (target : Hash)
  | deleteUser (target : Addr)
  | sendTokens (sender target : Addr) (amount : ℕ)
  | edit (draft : EditDraft)
  | subscribe (target : Option Addr) (level periodCount : ℕ)
  | setAutoRenewal (autoRenew : Bool)
  | award (target : Hash) (awardType : Name)
  | setBiography (target : Addr) (biography : Text) (length : ℕ)
  | createCurationTeam (slug : Slug) (name : Name) (description : Text)
  | setCurationTeamProfile (slug : Slug) (team : ℕ) (name : Name) (description : Text)
  | inviteCurator (slug : Slug) (team : ℕ) (target : Addr)
  | revokeCuratorInvite (slug : Slug) (team : ℕ) (target : Addr)
  | acceptCuratorInvite (slug : Slug) (team : ℕ)
  | declineCuratorInvite (slug : Slug) (team : ℕ)
  | leaveCurationTeam (slug : Slug) (team : ℕ)
  | removeCurator (slug : Slug) (team : ℕ) (target : Addr)
  | transferCurationTeam (slug : Slug) (team : ℕ) (newOwner : Addr)
  | deleteCurationTeam (slug : Slug) (team : ℕ)
  | setCurationPreference (slug : Slug) (mode : ℤ) (team : ℕ)
  | setCurationPostHidden (slug : Slug) (team : ℕ) (target : Hash) (hidden : Bool)
  | setCurationUserHidden (slug : Slug) (team : ℕ) (target : Addr) (hidden : Bool)
  | setCurationThreadLocked (slug : Slug) (team : ℕ) (root : Hash) (locked : Bool)
  | setCurationSubscriberOnly (slug : Slug) (team : ℕ) (enabled : Bool)
  | setCurationTag (slug : Slug) (team : ℕ) (tag : Text)
  | setCurationPostTag (slug : Slug) (team : ℕ) (target : Hash) (tag : Text) (clear : Bool)
  | claimCreatorRewards (epochs : List ℤ)
deriving DecidableEq, Repr

/-- `CuratorInvitationAction`. -/
inductive InvitationAction where
  | create
  | revoke
  | decline
deriving DecidableEq, Repr

/-- The governance messages. `UpdateParams` comes with the parameters that the mask
selects already merged into the stored ones. -/
inductive GovMsg where
  | updateParams (updated : Params)
  | setLevel (target : Addr) (level : ℤ)
  | mintTokens (target : Addr) (amount : ℕ)
  | burnTokens (target : Addr) (amount : ℕ)
  | createCurationTeam (owner : Addr) (slug : Slug) (name : Name) (description : Text)
  | setCurationTeamOwner (slug : Slug) (team : ℕ) (newOwner : Addr)
  | setCuratorMembership (slug : Slug) (team : ℕ) (target : Addr) (present : Bool)
  | setCommunityPreference (owner : Addr) (slug : Slug) (mode : ℤ) (team : ℕ) (present : Bool)
  | setCommunityBlock (owner : Addr) (pattern : Text) (blocked : Bool)
  | setCuratorInvitation (slug : Slug) (team : ℕ) (invitee : Addr) (action : InvitationAction)
  | setSubscriptionState (user : Addr) (subscribed : Bool) (nominalExpiry : ℤ) (autoRenew : Bool)
  | claimCreatorRewards (creator : Addr) (epochs : List ℤ)
deriving DecidableEq, Repr

/-! ## 2. Shared checks -/

variable (env : ChainEnv) (ctx : BlockCtx)

def requireUsername (s : ChainState) (owner : Addr) (action : String) :
    Except ChainError ProfileCore :=
  match s.profiles.get owner with
  | none => .error (.noProfile owner)
  | some core => do
    failIf (core.username = none) (.noUsername action)
    return core

def requireCuratorEligible (s : ChainState) (owner : Addr) (action : String) :
    Except ChainError ProfileCore := do
  let core ← requireUsername s owner action
  failIf (¬ canCurate core) (.requiresCurator action)
  return core

/-- `envelopeOwner`: governance sends no envelope. -/
def envelopeOwner : Actor → Except ChainError Addr
  | .governance => .error .envelopePubkey
  | .user addr _ => .ok addr

/-- The account a message acts for. -/
def Actor.account : Actor → Addr
  | .governance => env.govAuthority
  | .user addr _ => addr

/-- The tier level of the sender, who needs a username; governance counts as level 0. -/
def actorLevel (s : ChainState) (actor : Actor) (action : String) : Except ChainError ℤ :=
  match actor with
  | .governance => .ok levelFree
  | .user addr _ => do
    let core ← requireUsername s addr action
    return core.level

/-- The account that a message with a target acts for: governance for any account, a user
for their own. -/
def targetOwner (actor : Actor) (target : Addr) : Except ChainError Addr :=
  match actor with
  | .governance => .ok target
  | .user addr _ => do
    failIf (addr ≠ target) .notTarget
    return target

/-- The quota charge of the handlers that spare governance. -/
def chargeUser (s : ChainState) (actor : Actor) : Except ChainError ChainState :=
  match actor with
  | .governance => .ok s
  | .user addr _ => consumeSubscriberQuota ctx s addr

/-- The tier of a level, or the error of the handlers. -/
def tierOf (p : Params) (level : ℤ) : Except ChainError TierConfig :=
  match p.getTierConfig level with
  | none => .error (.levelTierMissing level)
  | some tier => .ok tier

/-- The tier of a level, or the error of the community handlers. -/
def communityTier (p : Params) (level : ℤ) : Except ChainError TierConfig :=
  match p.getTierConfig level with
  | none => .error .tierConfigMissing
  | some tier => .ok tier

def ChainState.isEffectivePaid (s : ChainState) (owner : Addr) : Bool :=
  match s.profiles.get owner with
  | none => false
  | some core => core.effectivePaid

def claimUsername (s : ChainState) (username : Name) (owner : Addr) :
    Except ChainError ChainState := do
  let key := env.usernameKey username
  failIf (∃ a ∈ s.usernames.get key, a ≠ owner) .usernameTaken
  return { s with usernames := s.usernames.set key owner }

def releaseUsername (s : ChainState) (username : Name) (owner : Addr) : ChainState :=
  if s.usernames.get (env.usernameKey username) = some owner then
    { s with usernames := s.usernames.erase (env.usernameKey username) }
  else s

def updateProfileCore (s : ChainState) (owner : Addr) (f : ProfileCore → ProfileCore) :
    Except ChainError ChainState := do
  let core := f ((s.profiles.get owner).getD .blank)
  let _ ← tierOf s.params core.level
  liftText (env.profileBasic s.params core.username)
  return s.saveProfile owner core

/-- `SendCoins` of the bank, after the spendable-balance check. -/
def Bank.sendCoins (b : Bank) (sender target : Addr) (amount : ℕ) : Except CoreError Bank := do
  let b ← b.debit sender amount
  return { b with accounts := b.accounts.set target (b.spendable target + amount) }

/-! ## 3. Posts, votes and awards -/

/-- The checks that `Post` and `Edit` make on lengths. -/
def checkLengths (p : Params) (level : ℤ) (isComment : Bool) (contentLength titleLength : ℕ) :
    Except ChainError Unit := do
  let tier ← tierOf p level
  failIf (contentLength > tier.maxContentLength)
    (.contentLimit contentLength tier.maxContentLength level)
  failIf (¬ isComment ∧ titleLength > tier.maxTitleLength)
    (.titleLimit titleLength tier.maxTitleLength level)

/-- The checks that `Post` and `Edit` make on the community: a comment names none, a root
post a valid one. -/
def checkCommunity (p : Params) (isComment : Bool) (community : Option Slug) :
    Except ChainError Unit :=
  if isComment then failIf (community ≠ none) .commentCommunity
  else match community with
    | none => .error .rootCommunity
    | some slug => liftText (env.communitySlug p slug)

/-- `Post`. -/
def handlePost (s : ChainState) (actor : Actor) (d : PostDraft) : Except ChainError ChainState := do
  let owner := actor.account env
  let level ← actorLevel s actor "Post"
  failIf (d.protocolVersion ≠ 0 ∧ d.protocolVersion ≠ 1) .protocolVersion
  failIf (ctx.txBytes = 0) .postNeedsTx
  liftText (env.safeFields d.fields)
  checkCommunity env s.params d.target.isSome d.community
  failIf (d.target.isSome ∧ d.contentBlank) .commentEmpty
  liftText (env.tag d.tag)
  liftText (env.media d.media)
  checkLengths s.params level d.target.isSome d.contentLength d.titleLength
  let seq ← liftCore (checkedAddUint64 s.postSeq 1)
  let s ← onCreator { s with postSeq := seq } fun c =>
    post s.params (s.isEffectivePaid owner) c owner ctx.txBytes d.target (d.community.getD 0)
  consumeSubscriberQuota ctx s owner

/-- `Vote`. -/
def handleVote (s : ChainState) (actor : Actor) (target : Hash) (direction : ℤ) :
    Except ChainError ChainState :=
  match actor with
  | .governance => .ok s
  | .user owner _ => do
    let _ ← requireUsername s owner "Vote"
    let s ← onCreator s fun c =>
      recordUpvoteEngagement s.params (s.isEffectivePaid owner) c owner target direction
    consumeSubscriberQuota ctx s owner

/-- `Edit`, which the chain only checks. -/
def handleEdit (s : ChainState) (actor : Actor) (d : EditDraft) : Except ChainError ChainState := do
  let level ← actorLevel s actor "Edit"
  liftText (env.safeFields d.fields)
  checkLengths s.params level d.target.isSome d.contentLength d.titleLength
  checkCommunity env s.params d.target.isSome d.community
  liftText (env.tag d.tag)
  consumeSubscriberQuota ctx s (actor.account env)

/-- `Delete`. -/
def handleDelete (s : ChainState) (actor : Actor) (target : Hash) :
    Except ChainError ChainState := do
  let _ ← actorLevel s actor "Delete"
  let s ← onCreator s fun c =>
    deletePost ctx.height c (actor.account env) (actor = .governance) target
  consumeSubscriberQuota ctx s (actor.account env)

/-- `Award`. -/
def handleAward (s : ChainState) (actor : Actor) (awardType : Name) :
    Except ChainError ChainState := do
  let level ← actorLevel s actor "Award"
  failIf (awardType = 0) .awardTypeEmpty
  match s.params.getAwardConfig awardType with
  | none => .error (.awardTypeUnknown awardType)
  | some award => do
    let _ ← communityTier s.params level
    let cost := if level ≥ levelAdminMin then 0 else award.cost
    let bank ← (s.creator.bank.burnFromAccount (actor.account env) cost).mapError
      ChainError.awardBurn
    chargeUser ctx { s with creator := { s.creator with bank := bank } } actor

/-! ## 4. Profiles and lists -/

/-- `SetUsername`. -/
def handleSetUsername (s : ChainState) (actor : Actor) (target : Addr) (username : Name) :
    Except ChainError ChainState := do
  let owner ← targetOwner actor target
  liftText (env.username username)
  let s := match (s.profiles.get owner).bind ProfileCore.username with
    | none => s
    | some old => if env.sameUsername old username then s else releaseUsername env s old owner
  let s ← claimUsername env s username owner
  let s ← updateProfileCore env s owner fun core => { core with username := some username }
  consumeSubscriberQuota ctx s owner

/-- The checks on a biography that is not empty. -/
def checkBiography (p : Params) (level : ℤ) (length : ℕ) : Except ChainError Unit :=
  match p.getTierConfig level with
  | none => .error (.biographyUnavailable level)
  | some tier => do
    failIf (¬ tier.canHaveBiography) (.biographyUnavailable level)
    failIf (tier.maxBiographyLength = 0) (.biographyNoLength level)
    failIf (length > tier.maxBiographyLength) (.biographyLimit length tier.maxBiographyLength)

/-- The length check of `SetBiography`, which spares governance and an empty text. -/
def checkBiographyOf (p : Params) (actor : Actor) (level : ℤ) (length : ℕ) :
    Except ChainError Unit :=
  if length ≠ 0 ∧ actor ≠ .governance then checkBiography p level length else .ok ()

/-- `SetBiography`. The biography itself is not part of the modelled profile. -/
def handleSetBiography (s : ChainState) (actor : Actor) (target : Addr) (biography : Text)
    (length : ℕ) : Except ChainError ChainState := do
  let owner ← targetOwner actor target
  let level ← actorLevel s actor "SetBiography"
  liftText (env.biography biography)
  checkBiographyOf s.params actor level length
  let s ← updateProfileCore env s owner id
  consumeSubscriberQuota ctx s owner

/-- `BlockPost`. -/
def handleBlockPost (s : ChainState) (actor : Actor) (target : Hash) :
    Except ChainError ChainState := do
  let level ← actorLevel s actor "BlockPost"
  let tier ← tierOf s.params level
  failIf (tier.maxBlockedPosts = 0) (.blockedLimitZero "blocked post" level)
  let list ← s.blockedPosts.addDequeEntry (actor.account env) target (uint32 tier.maxBlockedPosts)
  chargeUser ctx { s with blockedPosts := list } actor

/-- `UnblockPost`. -/
def handleUnblockPost (s : ChainState) (actor : Actor) (target : Hash) :
    Except ChainError ChainState := do
  let _ ← actorLevel s actor "UnblockPost"
  chargeUser ctx
    { s with blockedPosts := s.blockedPosts.removeSetEntry (actor.account env) target } actor

/-- `BlockUser`. -/
def handleBlockUser (s : ChainState) (actor : Actor) (target : Addr) :
    Except ChainError ChainState := do
  let owner := actor.account env
  let level ← actorLevel s actor "BlockUser"
  failIf (owner = target) .blockSelf
  let tier ← tierOf s.params level
  failIf (tier.maxBlockedUsers = 0) (.blockedLimitZero "blocked user" level)
  let list ← s.blockedUsers.addDequeEntry owner target (uint32 tier.maxBlockedUsers)
  chargeUser ctx { s with
    followedUsers := s.followedUsers.removeSetEntry owner target
    blockedUsers := list } actor

/-- `UnblockUser`. -/
def handleUnblockUser (s : ChainState) (actor : Actor) (target : Addr) :
    Except ChainError ChainState := do
  let _ ← actorLevel s actor "UnblockUser"
  chargeUser ctx
    { s with blockedUsers := s.blockedUsers.removeSetEntry (actor.account env) target } actor

/-- The profile that `FollowUser` creates for an account without one. -/
def ensureProfile (s : ChainState) (owner : Addr) : Except ChainError ChainState :=
  if s.profiles.has owner then .ok s else updateProfileCore env s owner id

/-- `FollowUser`. Following somebody twice succeeds without the charge at the end. -/
def handleFollowUser (s : ChainState) (actor : Actor) (target user : Addr) :
    Except ChainError ChainState := do
  let owner ← targetOwner actor target
  failIf (owner = user) .followSelf
  let level ← actorLevel s actor "FollowUser"
  let s := { s with blockedUsers := s.blockedUsers.removeSetEntry owner user }
  let tier ← tierOf s.params level
  if s.followedUsers.hasEntry owner user then return s
  else do
    failIf (s.followedUsers.counts.count owner ≥ tier.maxFollowedUsers)
      (.followLimit tier.maxFollowedUsers)
    let list ← s.followedUsers.addSetEntry owner user
    let s ← ensureProfile env { s with followedUsers := list } owner
    chargeUser ctx s actor

/-- `UnfollowUser`. -/
def handleUnfollowUser (s : ChainState) (actor : Actor) (target user : Addr) :
    Except ChainError ChainState := do
  let owner ← targetOwner actor target
  let _ ← actorLevel s actor "UnfollowUser"
  chargeUser ctx { s with followedUsers := s.followedUsers.removeSetEntry owner user } actor

def deleteUserState (s : ChainState) (owner : Addr) (core : ProfileCore) :
    Except ChainError ChainState := do
  let s := { s with
    profiles := s.profiles.erase owner
    followedUsers := s.followedUsers.deleteAllSetEntries owner
    followedTopics := s.followedTopics.deleteAllSetEntries owner
    blockedUsers := s.blockedUsers.deleteAllSetEntries owner
    blockedPosts := s.blockedPosts.deleteAllSetEntries owner
    blockedTopics := s.blockedTopics.deleteAllSetEntries owner }
  let s := match core.username with
    | none => s
    | some username => releaseUsername env s username owner
  let s := dropSubscription s owner core
  let bank ← liftCore (s.creator.bank.debit owner (s.creator.bank.spendable owner))
  return { s with creator := { s.creator with bank := bank } }

/-- The check of `DeleteUser` on its sender. -/
def checkDeleteTarget (actor : Actor) (target : Addr) : Except ChainError Unit :=
  match actor with
  | .governance => .ok ()
  | .user addr _ => failIf (addr ≠ target) .notDeleteTarget

/-- `DeleteUser`. -/
def handleDeleteUser (s : ChainState) (actor : Actor) (target : Addr) :
    Except ChainError ChainState := do
  checkDeleteTarget actor target
  match s.profiles.get target with
  | none => .error (.profileGone target)
  | some core => do
    failIf (core.username = none) (.noUsername "DeleteUser")
    let s ← chargeUser ctx s actor
    deleteUserState env s target core

/-- The check of `SendTokens` on its sender. -/
def checkSender (actor : Actor) (sender : Addr) : Except ChainError Unit :=
  match actor with
  | .governance => .ok ()
  | .user addr _ => failIf (addr ≠ sender) .notSender

/-- `SendTokens`. -/
def handleSendTokens (s : ChainState) (actor : Actor) (sender target : Addr) (amount : ℕ) :
    Except ChainError ChainState := do
  checkSender actor sender
  let _ ← actorLevel s actor "SendTokens"
  failIf (amount = 0) .amountZero
  failIf (s.balance sender < amount) (.insufficientBalance (s.balance sender) amount)
  let bank ← (s.creator.bank.sendCoins sender target amount).mapError ChainError.sendFailed
  consumeSubscriberQuota ctx { s with creator := { s.creator with bank := bank } } sender

/-! ## 5. Subscriptions -/

/-- The payer, the recipient and the source of a purchase. -/
def subscriptionParties (actor : Actor) (target : Option Addr) :
    Except ChainError (Addr × Addr × TrancheSource) :=
  match actor, target with
  | .governance, none => .error .badTarget
  | .governance, some t => .ok (t, t, .governance)
  | .user payer _, none => .ok (payer, payer, .selfPurchase)
  | .user payer _, some t =>
    if t = payer then .ok (payer, payer, .selfPurchase) else .ok (payer, t, .gift)

/-- The `envelope_pow` of a message, which governance leaves out. -/
def Actor.envelopePow : Actor → ℕ
  | .governance => 0
  | .user _ pow => pow

/-- `Subscribe`. -/
def handleSubscribe (s : ChainState) (actor : Actor) (target : Option Addr)
    (level periodCount : ℕ) : Except ChainError ChainState := do
  let parties ← subscriptionParties actor target
  failIf (actor.envelopePow > 0) .subscribePoW
  failIf (level ≠ 1 ∧ level ≠ 10) (.subscribeLevel level)
  failIf (level = 10 ∧ periodCount ≠ 0) .legacyPeriodCount
  let _ ← requireUsername s parties.2.1 "Subscribe"
  let s ← createTranche env.toTextRules ctx s parties.1 parties.2.1 parties.2.2
    (if periodCount = 0 then 1 else periodCount)
  consumeSubscriberQuota ctx s parties.1

/-- `SetAutoRenewal`. -/
def handleSetAutoRenewal (s : ChainState) (actor : Actor) (autoRenew : Bool) :
    Except ChainError ChainState := do
  let owner ← envelopeOwner actor
  let core ← requireUsername s owner "SetAutoRenewal"
  failIf (actor.envelopePow > 0) .renewalPoW
  failIf (¬ core.effectivePaid) .renewalUnpaid
  failIf (autoRenew ∧ core.level ≤ 0) .renewalFreeTier
  failIf (autoRenew ∧ core.subscriptionExpiry ≤ 0) .renewalNoSubscription
  if core.autoRenew = autoRenew then consumeSubscriberQuota ctx s owner
  else do
    let s := s.saveProfile owner { core with autoRenew := autoRenew }
    consumeSubscriberQuota ctx (replaceSubscriptionRenewalSchedule ctx.time s owner) owner

/-! ## 6. Communities -/

/-- `JoinCommunity`. -/
def handleJoinCommunity (s : ChainState) (actor : Actor) (slug : Slug) (mode : ℤ) (team : ℕ) :
    Except ChainError ChainState := do
  let owner ← envelopeOwner actor
  let core ← requireUsername s owner "JoinCommunity"
  let s ← consumeSubscriberQuota ctx s owner
  let tier ← communityTier s.params core.level
  liftText (env.communitySlug s.params slug)
  onCuration s fun c => joinCommunityWithLens env.toTextRules s.params c owner slug
    (uint32 tier.maxJoinedCommunities) mode team (canCurate core)

/-- The call of `LeaveCommunity` in the handlers, which counts a subscriber by the paid
state alone. -/
def leaveAs (s : ChainState) (owner : Addr) (core : ProfileCore) (slug : Slug) :
    Except ChainError ChainState :=
  onCuration s fun c => leaveCommunity env.toTextRules s.params ctx.height s.profiles c owner slug
    core.effectivePaid

/-- `LeaveCommunity`. -/
def handleLeaveCommunity (s : ChainState) (actor : Actor) (slug : Slug) :
    Except ChainError ChainState := do
  let owner ← envelopeOwner actor
  let core ← requireUsername s owner "LeaveCommunity"
  let s ← consumeSubscriberQuota ctx s owner
  leaveAs env ctx s owner core slug

/-- Adds a blocked community for an account of a tier. -/
def blockCommunityAs (s : ChainState) (owner : Addr) (core : ProfileCore) (pattern : Text)
    (tier : TierConfig) : Except ChainError ChainState := do
  failIf (tier.maxBlockedCommunities = 0) (.blockedLimitZero "blocked community" core.level)
  let blocked ← s.blockedCommunities.add owner pattern (uint32 tier.maxBlockedCommunities)
  return { s with blockedCommunities := blocked }

/-- `BlockCommunity`. -/
def handleBlockCommunity (s : ChainState) (actor : Actor) (pattern : Text) :
    Except ChainError ChainState := do
  let owner ← envelopeOwner actor
  let core ← requireUsername s owner "BlockCommunity"
  let s ← consumeSubscriberQuota ctx s owner
  let tier ← communityTier s.params core.level
  liftText (env.blockPattern s.params pattern)
  blockCommunityAs s owner core pattern tier

/-- `UnblockCommunity`. -/
def handleUnblockCommunity (s : ChainState) (actor : Actor) (pattern : Text) :
    Except ChainError ChainState := do
  let owner ← envelopeOwner actor
  let _ ← requireUsername s owner "UnblockCommunity"
  let s ← consumeSubscriberQuota ctx s owner
  let blocked ← s.blockedCommunities.remove owner pattern
  return { s with blockedCommunities := blocked }

def requireLegacyOwnerTarget (actor : Actor) (target : Option Addr) : Except ChainError Addr := do
  let owner ← envelopeOwner actor
  failIf (target = none) .legacyTargetEmpty
  failIf (target ≠ some owner) .notTarget
  return owner

def requireLegacyEmptyTarget (actor : Actor) (target : Option Text) : Except ChainError Addr := do
  let owner ← envelopeOwner actor
  failIf (target ≠ none) .legacyTargetNotEmpty
  return owner

def removeLegacyBlocksMatchingCommunity (s : ChainState) (owner : Addr) (slug : Slug) :
    Except ChainError ChainState := do
  let blocked ← ((s.blockedCommunities.patterns owner).filter (env.matchesPattern slug)).foldlM
    (fun b pattern => b.remove owner pattern) s.blockedCommunities
  return { s with blockedCommunities := blocked }

/-- `FollowTopic`. -/
def handleFollowTopic (s : ChainState) (actor : Actor) (target : Option Addr) (topic : Slug) :
    Except ChainError ChainState := do
  let owner ← requireLegacyOwnerTarget actor target
  let core ← requireUsername s owner "FollowTopic"
  let s ← consumeSubscriberQuota ctx s owner
  liftText (env.communitySlug s.params topic)
  let tier ← communityTier s.params core.level
  let s ← removeLegacyBlocksMatchingCommunity env s owner topic
  onCuration s fun c => joinCommunityWithLens env.toTextRules s.params c owner topic
    (uint32 tier.maxJoinedCommunities) 0 0 (canCurate core)

/-- `UnfollowTopic`. -/
def handleUnfollowTopic (s : ChainState) (actor : Actor) (target : Option Addr) (topic : Slug) :
    Except ChainError ChainState := do
  let owner ← requireLegacyOwnerTarget actor target
  let core ← requireUsername s owner "UnfollowTopic"
  let s ← consumeSubscriberQuota ctx s owner
  liftText (env.communitySlug s.params topic)
  leaveAs env ctx s owner core topic

def leaveLegacyCommunitiesMatchingPattern (s : ChainState) (owner : Addr) (core : ProfileCore)
    (pattern : Text) : Except ChainError ChainState :=
  ((s.curation.joinedCommunities owner).filter fun slug => env.matchesPattern slug pattern).foldlM
    (fun s slug => leaveAs env ctx s owner core slug) s

/-- `BlockTopic`. -/
def handleBlockTopic (s : ChainState) (actor : Actor) (target : Option Text) (pattern : Text) :
    Except ChainError ChainState := do
  let owner ← requireLegacyEmptyTarget actor target
  let core ← requireUsername s owner "BlockTopic"
  let s ← consumeSubscriberQuota ctx s owner
  liftText (env.blockPattern s.params pattern)
  let tier ← communityTier s.params core.level
  let s ← blockCommunityAs s owner core pattern tier
  leaveLegacyCommunitiesMatchingPattern env ctx s owner core pattern

/-- `UnblockTopic`. -/
def handleUnblockTopic (s : ChainState) (actor : Actor) (target : Option Text) (pattern : Text) :
    Except ChainError ChainState := do
  let owner ← requireLegacyEmptyTarget actor target
  let _ ← requireUsername s owner "UnblockTopic"
  let s ← consumeSubscriberQuota ctx s owner
  liftText (env.blockPattern s.params pattern)
  let blocked ← s.blockedCommunities.remove owner pattern
  return { s with blockedCommunities := blocked }

/-! ## 7. Curation -/

/-- The handlers that charge the sender and then call one curation function. -/
def chargedCuration (s : ChainState) (actor : Actor)
    (f : ChainState → Addr → Except ChainError CurationState) : Except ChainError ChainState := do
  let owner ← envelopeOwner actor
  let s ← consumeSubscriberQuota ctx s owner
  let curation ← f s owner
  return { s with curation := curation }

/-- `CreateCurationTeam`. -/
def handleCreateCurationTeam (s : ChainState) (actor : Actor) (slug : Slug) (name : Name)
    (description : Text) : Except ChainError ChainState := do
  let owner ← envelopeOwner actor
  let _ ← requireCuratorEligible s owner "CreateCurationTeam"
  chargedCuration ctx s actor fun s owner =>
    createCurationTeam env.toTextRules s.params ctx.height s.profiles s.curation owner slug name
      description

/-- `SetCurationTeamProfile`. -/
def handleSetCurationTeamProfile (s : ChainState) (actor : Actor) (slug : Slug) (team : ℕ)
    (name : Name) (description : Text) : Except ChainError ChainState :=
  match actor with
  | .governance => .error .govTeamProfile
  | .user _ _ => chargedCuration ctx s actor fun s owner =>
    updateCurationTeamProfile env.toTextRules s.params s.profiles s.curation owner slug team name
      description

/-- `InviteCurator`. -/
def handleInviteCurator (s : ChainState) (actor : Actor) (slug : Slug) (team : ℕ) (target : Addr) :
    Except ChainError ChainState :=
  chargedCuration ctx s actor fun s owner =>
    inviteCurator s.params s.profiles s.curation owner slug team target

/-- `RevokeCuratorInvite`. -/
def handleRevokeCuratorInvite (s : ChainState) (actor : Actor) (slug : Slug) (team : ℕ)
    (target : Addr) : Except ChainError ChainState :=
  chargedCuration ctx s actor fun s owner => do
    let _ ← requireTeamOwner s.profiles s.curation owner slug team
    clearPendingInvite s.curation slug team target

/-- `AcceptCuratorInvite`. -/
def handleAcceptCuratorInvite (s : ChainState) (actor : Actor) (slug : Slug) (team : ℕ) :
    Except ChainError ChainState :=
  chargedCuration ctx s actor fun s owner =>
    acceptCuratorInvite env.toTextRules s.params s.profiles s.curation owner slug team

/-- `DeclineCuratorInvite`. -/
def handleDeclineCuratorInvite (s : ChainState) (actor : Actor) (slug : Slug) (team : ℕ) :
    Except ChainError ChainState :=
  chargedCuration ctx s actor fun s owner => clearPendingInvite s.curation slug team owner

/-- `LeaveCurationTeam`. -/
def handleLeaveCurationTeam (s : ChainState) (actor : Actor) (slug : Slug) (team : ℕ) :
    Except ChainError ChainState :=
  chargedCuration ctx s actor fun s owner =>
    match s.curation.getCurationTeam slug team with
    | none => .error .teamNotFound
    | some t => do
      failIf (t.owner = owner) .ownerCannotLeave
      removeCuratorFromTeam s.params s.curation t.community t.teamId owner

/-- `RemoveCurator`. -/
def handleRemoveCurator (s : ChainState) (actor : Actor) (slug : Slug) (team : ℕ) (target : Addr) :
    Except ChainError ChainState :=
  chargedCuration ctx s actor fun s owner => do
    failIf (target = owner) .ownerRemovesSelf
    let _ ← requireTeamOwner s.profiles s.curation owner slug team
    removeCuratorFromTeam s.params s.curation slug team target

/-- `TransferCurationTeam`. -/
def handleTransferCurationTeam (s : ChainState) (actor : Actor) (slug : Slug) (team : ℕ)
    (newOwner : Addr) : Except ChainError ChainState :=
  chargedCuration ctx s actor fun s owner =>
    transferCurationTeamOwner s.profiles s.curation owner slug team newOwner

/-- `DeleteCurationTeam`. -/
def handleDeleteCurationTeam (s : ChainState) (actor : Actor) (slug : Slug) (team : ℕ) :
    Except ChainError ChainState :=
  chargedCuration ctx s actor fun s owner => do
    let _ ← requireTeamOwner s.profiles s.curation owner slug team
    deleteCurationTeam env.toTextRules s.params ctx.height s.curation slug team

/-- `SetCurationPreference`. -/
def handleSetCurationPreference (s : ChainState) (actor : Actor) (slug : Slug) (mode : ℤ)
    (team : ℕ) : Except ChainError ChainState := do
  let owner ← envelopeOwner actor
  let core ← requireUsername s owner "SetCurationPreference"
  chargedCuration ctx s actor fun s owner =>
    setCurationPreference s.curation owner slug mode team (canCurate core)

/-- `curationActor` and the call after it. -/
def chargedCurator (s : ChainState) (actor : Actor) (slug : Slug) (team : ℕ)
    (f : ChainState → Addr → Except ChainError CurationState) : Except ChainError ChainState :=
  chargedCuration ctx s actor fun s owner => do
    let _ ← requireTeamCurator s.profiles s.curation owner slug team
    f s owner

/-- The checks of `SetCurationPostHidden` on a post that is to be hidden. -/
def checkHidePost (s : ChainState) (slug : Slug) (target : Hash) (hidden : Bool) :
    Except ChainError Unit :=
  match hidden, s.creator.posts.get target with
  | false, _ => .ok ()
  | true, none => .ok ()
  | true, some meta_ => do
    failIf (meta_.community ≠ some slug) .postOfOtherCommunity
    let isCurator ← isCommunityCurator s.curation meta_.author slug
    failIf isCurator .curatorPost

/-- `SetCurationPostHidden`. -/
def handleSetCurationPostHidden (s : ChainState) (actor : Actor) (slug : Slug) (team : ℕ)
    (target : Hash) (hidden : Bool) : Except ChainError ChainState :=
  chargedCurator ctx s actor slug team fun s owner => do
    checkHidePost s slug target hidden
    return setCurationActionHiddenPost s.curation slug team target owner hidden

/-- `SetCurationPostTag`. -/
def handleSetCurationPostTag (s : ChainState) (actor : Actor) (slug : Slug) (team : ℕ)
    (target : Hash) (tag : Text) (clear : Bool) : Except ChainError ChainState :=
  chargedCurator ctx s actor slug team fun s owner => do
    failIf (clear ∧ tag ≠ 0) .clearWithTag
    liftText (env.tag tag)
    return setCurationPostTag ctx.height s.curation slug team target tag owner clear

/-- `SetCurationUserHidden`. -/
def handleSetCurationUserHidden (s : ChainState) (actor : Actor) (slug : Slug) (team : ℕ)
    (target : Addr) (hidden : Bool) : Except ChainError ChainState :=
  chargedCurator ctx s actor slug team fun s owner =>
    if hidden then do
      let isCurator ← isCommunityCurator s.curation target slug
      failIf isCurator .curatorBan
      rerouteBannedUserPreference s.profiles
        (setCurationActionHiddenUser s.curation slug team target owner true) slug team target
    else .ok (setCurationActionHiddenUser s.curation slug team target owner false)

/-- `SetCurationThreadLocked`. -/
def handleSetCurationThreadLocked (s : ChainState) (actor : Actor) (slug : Slug) (team : ℕ)
    (root : Hash) (locked : Bool) : Except ChainError ChainState :=
  chargedCurator ctx s actor slug team fun s _ =>
    setCurationThreadLocked s.postSeq s.curation slug team root locked

/-- `SetCurationSubscriberOnly`. -/
def handleSetCurationSubscriberOnly (s : ChainState) (actor : Actor) (slug : Slug) (team : ℕ)
    (enabled : Bool) : Except ChainError ChainState :=
  chargedCuration ctx s actor fun s owner => do
    let t ← requireTeamOwner s.profiles s.curation owner slug team
    return s.curation.setCurationTeam { t with subscriberOnly := enabled }

/-- `SetCurationTag`. -/
def handleSetCurationTag (s : ChainState) (actor : Actor) (slug : Slug) (team : ℕ) (tag : Text) :
    Except ChainError ChainState :=
  chargedCuration ctx s actor fun s owner => do
    let _ ← requireTeamOwner s.profiles s.curation owner slug team
    liftText (env.tag tag)
    setCurationTeamTag s.curation slug team tag

/-- `ClaimCreatorRewards`. -/
def handleClaimCreatorRewards (s : ChainState) (actor : Actor) (epochs : List ℤ) :
    Except ChainError ChainState := do
  let owner ← envelopeOwner actor
  let s ← consumeSubscriberQuota ctx s owner
  onCreator s fun c => claimCreatorRewards s.params ctx c owner epochs

/-- Runs a relay message. -/
def RelayMsg.exec (s : ChainState) (actor : Actor) : RelayMsg → Except ChainError ChainState
  | post d => handlePost env ctx s actor d
  | vote target direction => handleVote ctx s actor target direction
  | setUsername target username => handleSetUsername env ctx s actor target username
  | followUser target user => handleFollowUser env ctx s actor target user
  | unfollowUser target user => handleUnfollowUser ctx s actor target user
  | followTopic target topic => handleFollowTopic env ctx s actor target topic
  | unfollowTopic target topic => handleUnfollowTopic env ctx s actor target topic
  | blockTopic target pattern => handleBlockTopic env ctx s actor target pattern
  | unblockTopic target pattern => handleUnblockTopic env ctx s actor target pattern
  | joinCommunity slug mode team => handleJoinCommunity env ctx s actor slug mode team
  | leaveCommunity slug => handleLeaveCommunity env ctx s actor slug
  | blockPost target => handleBlockPost env ctx s actor target
  | unblockPost target => handleUnblockPost env ctx s actor target
  | blockUser target => handleBlockUser env ctx s actor target
  | unblockUser target => handleUnblockUser env ctx s actor target
  | blockCommunity pattern => handleBlockCommunity env ctx s actor pattern
  | unblockCommunity pattern => handleUnblockCommunity ctx s actor pattern
  | delete target => handleDelete env ctx s actor target
  | deleteUser target => handleDeleteUser env ctx s actor target
  | sendTokens sender target amount => handleSendTokens ctx s actor sender target amount
  | edit d => handleEdit env ctx s actor d
  | subscribe target level periodCount => handleSubscribe env ctx s actor target level periodCount
  | setAutoRenewal autoRenew => handleSetAutoRenewal ctx s actor autoRenew
  | award _ awardType => handleAward env ctx s actor awardType
  | setBiography target biography length =>
    handleSetBiography env ctx s actor target biography length
  | createCurationTeam slug name description =>
    handleCreateCurationTeam env ctx s actor slug name description
  | setCurationTeamProfile slug team name description =>
    handleSetCurationTeamProfile env ctx s actor slug team name description
  | inviteCurator slug team target => handleInviteCurator ctx s actor slug team target
  | revokeCuratorInvite slug team target => handleRevokeCuratorInvite ctx s actor slug team target
  | acceptCuratorInvite slug team => handleAcceptCuratorInvite env ctx s actor slug team
  | declineCuratorInvite slug team => handleDeclineCuratorInvite ctx s actor slug team
  | leaveCurationTeam slug team => handleLeaveCurationTeam ctx s actor slug team
  | removeCurator slug team target => handleRemoveCurator ctx s actor slug team target
  | transferCurationTeam slug team newOwner =>
    handleTransferCurationTeam ctx s actor slug team newOwner
  | deleteCurationTeam slug team => handleDeleteCurationTeam env ctx s actor slug team
  | setCurationPreference slug mode team => handleSetCurationPreference ctx s actor slug mode team
  | setCurationPostHidden slug team target hidden =>
    handleSetCurationPostHidden ctx s actor slug team target hidden
  | setCurationUserHidden slug team target hidden =>
    handleSetCurationUserHidden ctx s actor slug team target hidden
  | setCurationThreadLocked slug team root locked =>
    handleSetCurationThreadLocked ctx s actor slug team root locked
  | setCurationSubscriberOnly slug team enabled =>
    handleSetCurationSubscriberOnly ctx s actor slug team enabled
  | setCurationTag slug team tag => handleSetCurationTag env ctx s actor slug team tag
  | setCurationPostTag slug team target tag clear =>
    handleSetCurationPostTag env ctx s actor slug team target tag clear
  | claimCreatorRewards epochs => handleClaimCreatorRewards ctx s actor epochs

/-! ## 8. Governance -/

/-- The checks of `UpdateParams` on the new parameters. -/
def checkParams (upgraded : Bool) (updated : Params) : Except CoreError Unit := do
  updated.validate
  if upgraded then updated.validateV139
  updated.validateGovernanceUpdate

/-- The new epoch grid that `UpdateParams` lays when the interval changes. -/
def regridIfChanged (s : ChainState) (seconds : ℕ) : Except ChainError ChainState :=
  if s.params.creatorEpochSeconds ≠ seconds then
    onCreator s fun c => applyCreatorEpochSeconds s.params ctx.time c seconds
  else .ok s

/-- `UpdateParams`, after the mask. -/
def handleUpdateParams (s : ChainState) (updated : Params) : Except ChainError ChainState := do
  (checkParams s.upgraded updated).mapError ChainError.invalidParams
  let s ← regridIfChanged ctx s updated.creatorEpochSeconds
  return { s with params := updated }

/-- `SetLevel`. -/
def handleSetLevel (s : ChainState) (target : Addr) (level : ℤ) : Except ChainError ChainState :=
  match s.profiles.get target with
  | none => .error (.levelNoProfile target)
  | some core => do
    failIf (level ≠ levelFree ∧ level < levelAdminMin) (.levelInvalid level)
    let newLevel := if level = levelFree ∧ core.effectivePaid then levelSubscriber else level
    (saveAndTransition env.toTextRules ctx s target core { core with level := newLevel }).mapError
      ChainError.levelTransition

/-- `MintTokens`. -/
def handleMintTokens (s : ChainState) (target : Addr) (amount : ℕ) :
    Except ChainError ChainState := do
  failIf (amount = 0) .amountZero
  let bank := s.creator.bank
  return { s with creator := { s.creator with
    bank := { bank with accounts := bank.accounts.set target (bank.spendable target + amount) } } }

/-- `BurnTokens`. -/
def handleBurnTokens (s : ChainState) (target : Addr) (amount : ℕ) :
    Except ChainError ChainState := do
  failIf (amount = 0) .amountZero
  let bank ← liftCore (s.creator.bank.burnFromAccount target amount)
  return { s with creator := { s.creator with bank := bank } }

/-- The invitation by governance in the name of the team's owner. -/
def inviteAsOwner (s : ChainState) (slug : Slug) (team : ℕ) (target : Addr) :
    Except ChainError ChainState :=
  match s.curation.getCurationTeam slug team with
  | none => .error .teamNotFound
  | some t => onCuration s fun c => inviteCurator s.params s.profiles c t.owner slug team target

/-- `GovSetCuratorMembership`. -/
def handleGovSetCuratorMembership (s : ChainState) (slug : Slug) (team : ℕ) (target : Addr)
    (present : Bool) : Except ChainError ChainState :=
  if present then do
    let s ← inviteAsOwner s slug team target
    onCuration s fun c => acceptCuratorInvite env.toTextRules s.params s.profiles c target slug team
  else onCuration s fun c => removeCuratorFromTeam s.params c slug team target

/-- The join that `GovSetCommunityPreference` makes for an account outside the community. -/
def ensureJoined (s : ChainState) (owner : Addr) (core : ProfileCore) (slug : Slug) :
    Except ChainError ChainState :=
  if s.curation.joins.has (toLex (owner, slug)) then .ok s
  else do
    let tier ← communityTier s.params core.level
    onCuration s fun c => joinCommunity env.toTextRules s.params c owner slug
      (uint32 tier.maxJoinedCommunities)

/-- `GovSetCommunityPreference`. -/
def handleGovSetCommunityPreference (s : ChainState) (owner : Addr) (slug : Slug) (mode : ℤ)
    (team : ℕ) (present : Bool) : Except ChainError ChainState :=
  match s.profiles.get owner with
  | none => .error .profileNotFound
  | some core =>
    if present then do
      let s ← ensureJoined env s owner core slug
      onCuration s fun c => setCurationPreference c owner slug mode team core.effectivePaid
    else leaveAs env ctx s owner core slug

/-- `GovSetCommunityBlock`. A level without a tier makes the source fail on a nil tier. -/
def handleGovSetCommunityBlock (s : ChainState) (owner : Addr) (pattern : Text) (blocked : Bool) :
    Except ChainError ChainState :=
  if blocked then
    match s.profiles.get owner with
    | none => .error .profileNotFound
    | some core => do
      let tier ← communityTier s.params core.level
      let list ← s.blockedCommunities.add owner pattern (uint32 tier.maxBlockedCommunities)
      return { s with blockedCommunities := list }
  else do
    let list ← s.blockedCommunities.remove owner pattern
    return { s with blockedCommunities := list }

/-- `GovSetCuratorInvitation`. -/
def handleGovSetCuratorInvitation (s : ChainState) (slug : Slug) (team : ℕ) (invitee : Addr) :
    InvitationAction → Except ChainError ChainState
  | .create => inviteAsOwner s slug team invitee
  | .revoke | .decline => onCuration s fun c => clearPendingInvite c slug team invitee

/-- `GovSetSubscriptionState`. -/
def handleGovSetSubscriptionState (s : ChainState) (user : Addr) (subscribed : Bool)
    (nominalExpiry : ℤ) (autoRenew : Bool) : Except ChainError ChainState :=
  match s.profiles.get user with
  | none => .error .profileNotFound
  | some core =>
    if subscribed then do
      failIf (nominalExpiry ≤ ctx.time) .subscribedExpiry
      extendSubscription env.toTextRules ctx s user core autoRenew nominalExpiry
    else do
      failIf (nominalExpiry ≠ 0 ∨ autoRenew) .unsubscribedFields
      deactivatePaidState env.toTextRules ctx s user

/-- Runs a governance message. -/
def GovMsg.exec (s : ChainState) : GovMsg → Except ChainError ChainState
  | updateParams updated => handleUpdateParams ctx s updated
  | setLevel target level => handleSetLevel env ctx s target level
  | mintTokens target amount => handleMintTokens s target amount
  | burnTokens target amount => handleBurnTokens s target amount
  | createCurationTeam owner slug name description => onCuration s fun c =>
    MirageNode.createCurationTeam env.toTextRules s.params ctx.height s.profiles c owner slug name
      description
  | setCurationTeamOwner slug team newOwner => onCuration s fun c =>
    MirageNode.setCurationTeamOwner s.profiles c slug team newOwner
  | setCuratorMembership slug team target present =>
    handleGovSetCuratorMembership env s slug team target present
  | setCommunityPreference owner slug mode team present =>
    handleGovSetCommunityPreference env ctx s owner slug mode team present
  | setCommunityBlock owner pattern blocked => handleGovSetCommunityBlock s owner pattern blocked
  | setCuratorInvitation slug team invitee action =>
    handleGovSetCuratorInvitation s slug team invitee action
  | setSubscriptionState user subscribed nominalExpiry autoRenew =>
    handleGovSetSubscriptionState env ctx s user subscribed nominalExpiry autoRenew
  | claimCreatorRewards creator epochs => onCreator s fun c =>
    MirageNode.claimCreatorRewards s.params ctx c creator epochs

end MirageNode
