import MirageNode.Lib.CountedIndex
import MirageNode.CreatorState

/-!
# Profiles

The core record of an account (`ProfileCore`), what its level entitles it to, and the
errors of the handlers and keeper functions that work on accounts, communities and
subscriptions.

Texts are the numbers their bytes spell, like addresses and hashes. The checks on
their form and their normal forms are the parameter `TextRules`.
-/

namespace MirageNode

open OrderedStore Fallible

/-- A username or team name, by the number its bytes spell. -/
abbrev Name := ℕ

/-- Any other text of a message, by the number its bytes spell. -/
abbrev Text := ℕ

/-! ## 1. Errors -/

/-- The errors of the account, community and subscription functions. -/
inductive ChainError where
  | core (e : CoreError)
  /-- An error of a check on the form of a text. -/
  | rejected (message : String)
  -- keeper/bin.go
  | counterRange (current : ℕ) (delta : ℤ)
  -- keeper/community.go
  | joinCapZero
  | joinCapReached (cap : ℕ)
  | rawLensTeam
  | pinnedLensTeam
  | defaultLensTeam
  | invalidLens (mode : ℤ)
  | pinUnknownTeam
  | pinBanned
  | notJoined (slug : Slug)
  | joinReverseMissing (owner : Addr) (slug : Slug)
  | pinnedNeedsTeam
  | modeWithTeam (mode : ℤ)
  | invalidMode (mode : ℤ)
  | adjustUnknownTeam
  | subscriberUnderflow (slug : Slug) (team : ℕ)
  | dailyLimitReached (epoch : ℤ) (limit used : ℕ)
  -- keeper/paid.go
  | joinPreferenceMissing (owner : Addr) (slug : Slug)
  | paidProfileMissing (owner : Addr)
  | activateWithoutExpiry
  -- keeper/team.go
  | createIneligible
  | alreadyCurator
  | teamNameUsed
  | tierConfigMissing
  | membershipCap
  | teamNotFound
  | inviteNotOwner
  | inviteOwner
  | inviteeIneligible
  | inviteeOccupied
  | invitePending
  | membersAboveMaximum
  | invitesAboveMaximum
  | teamFull
  | teamInvitesFull
  | teamCapacity
  | userInvitesFull
  | noInvitation
  | membershipTeamMissing (slug : Slug) (team : ℕ)
  | alreadyTeamOwner
  | newOwnerIneligible
  | newOwnerNotCurator
  | actorIneligible
  | memberOrderZero
  | notTeamMember
  | notTeamOwner
  | notTeamCurator
  | joinedProfileMissing (owner : Addr)
  | threadLockLimit
  | blockCapZero
  | blockSequence (e : CoreError)
  -- keeper/tranche.go, keeper/upgrade_v139.go, keeper/keeper.go
  | periodCount (max : ℕ)
  | trancheSequence (e : CoreError)
  | recipientMissing
  | subscriberTierMissing
  | expiryNotPositive (expiry : ℤ)
  | expiryScanNegative (time : ℤ)
  | expiryScanEnd (e : CoreError)
  | founderTierMissing (owner : Addr)
  | founderJoin (owner : Addr) (slug : Slug) (e : ChainError)
  | founderPin (owner : Addr) (slug : Slug) (team : ℕ) (e : ChainError)
  | usernameTaken
  | listCount
  | listSequence (e : CoreError)
  -- module handlers
  | envelopePubkey
  | noProfile (owner : Addr)
  | noUsername (action : String)
  | levelTierMissing (level : ℤ)
  | requiresCurator (action : String)
  | notTarget
  | badTarget
  | notSender
  | notDeleteTarget
  | protocolVersion
  | postNeedsTx
  | commentCommunity
  | commentEmpty
  | rootCommunity
  | contentLimit (length max : ℕ) (level : ℤ)
  | titleLimit (length max : ℕ) (level : ℤ)
  | biographyUnavailable (level : ℤ)
  | biographyNoLength (level : ℤ)
  | biographyLimit (length max : ℕ)
  | blockedLimitZero (list : String) (level : ℤ)
  | blockSelf
  | followSelf
  | followLimit (max : ℕ)
  | legacyTargetEmpty
  | legacyTargetNotEmpty
  | profileGone (target : Addr)
  | amountZero
  | insufficientBalance (have_ need : ℕ)
  | sendFailed (e : CoreError)
  | subscribePoW
  | subscribeLevel (level : ℕ)
  | legacyPeriodCount
  | renewalPoW
  | renewalUnpaid
  | renewalFreeTier
  | renewalNoSubscription
  | awardTypeEmpty
  | awardTypeUnknown (name : Name)
  | awardBurn (e : CoreError)
  | invalidParams (e : CoreError)
  | levelInvalid (level : ℤ)
  | levelNoProfile (target : Addr)
  | levelTransition (e : ChainError)
  | profileNotFound
  | govTeamProfile
  | ownerCannotLeave
  | ownerRemovesSelf
  | postOfOtherCommunity
  | curatorPost
  | curatorBan
  | clearWithTag
  | subscribedExpiry
  | unsubscribedFields
deriving Repr

/-- A core function called from here. -/
def liftCore {α : Type} (x : Except CoreError α) : Except ChainError α := x.mapError .core

/-- A text check called from here. -/
def liftText {α : Type} (x : Except String α) : Except ChainError α := x.mapError .rejected

variable {α : Type} {addr : Addr} {m : OrderedMap Addr ℕ}

@[simp] theorem liftCore_eq_ok {x : Except CoreError α} {a : α} :
    liftCore x = .ok a ↔ x = .ok a := mapError_eq_ok

theorem liftCore_avoids {bad : ChainError → Prop} (x : Except CoreError α)
    (h : ∀ e, ¬ bad (.core e)) : Avoids bad (liftCore x) := .mapError fun e _ => h e

theorem liftText_avoids {bad : ChainError → Prop} (x : Except String α)
    (h : ∀ m, ¬ bad (.rejected m)) : Avoids bad (liftText x) := .mapError fun e _ => h e

@[simp] theorem liftText_eq_ok {x : Except String α} {a : α} :
    liftText x = .ok a ↔ x = .ok a := mapError_eq_ok

/-- The checks on the form of texts and the normal forms that index keys use. -/
structure TextRules where
  /-- `ValidateCommunitySlug` -/
  communitySlug : Params → Slug → Except String Unit
  /-- `validateBlockedCommunityPattern` -/
  blockPattern : Params → Text → Except String Unit
  /-- `legacyCommunityMatchesPattern` -/
  matchesPattern : Slug → Text → Bool
  /-- `ValidateCurationTeamName` -/
  teamName : Params → Name → Except String Unit
  /-- `NormalizeCurationTeamDescription` -/
  teamDescription : Params → Text → Except String Text
  /-- `NormalizeTeamNameKey` -/
  teamNameKey : Name → Name
  /-- `validateSafeText` and `ValidateUsernameFormat` -/
  username : Name → Except String Unit
  /-- `strings.ToLower` in the username index -/
  usernameKey : Name → Name
  /-- `strings.EqualFold` on usernames -/
  sameUsername : Name → Name → Bool
  /-- `Profile.ValidateBasic`, which checks the size of the username -/
  profileBasic : Params → Option Name → Except String Unit
  /-- `validateTag` -/
  tag : Text → Except String Unit
  /-- `rejectUnsafeFields` -/
  safeFields : Text → Except String Unit
  /-- `validateMsgPostMedia` -/
  media : Text → Except String Unit
  /-- `validateSafeText` of a biography -/
  biography : Text → Except String Unit

/-! ## 2. The core record -/

/-- `ProfileCore`, without the fields that no function here reads. -/
structure ProfileCore where
  username : Option Name
  level : ℤ
  subscriptionExpiry : ℤ
  autoRenew : Bool
  effectivePaid : Bool
  reserveFunds : ℕ
deriving DecidableEq, Repr

/-- The profile that a missing record stands for. -/
def ProfileCore.blank : ProfileCore := ⟨none, levelFree, 0, false, false, 0⟩

def canCurate (core : ProfileCore) : Bool :=
  core.effectivePaid || decide (core.level ≥ levelAdminMin)

/-- The profile store. -/
abbrev Profiles := OrderedMap Addr ProfileCore

/-- `found && CanCurate(core)` of a loaded profile. -/
def Profiles.eligible (profiles : Profiles) (addr : Addr) : Bool :=
  match profiles.get addr with
  | none => false
  | some core => canCurate core

theorem Profiles.eligible_iff {profiles : Profiles} :
    profiles.eligible addr = true ↔ ∃ core, profiles.get addr = some core ∧
      canCurate core = true := by
  unfold Profiles.eligible
  cases profiles.get addr <;> simp

def addCheckedU32 (m : OrderedMap Addr ℕ) (addr : Addr) (delta : ℤ) :
    Except ChainError (OrderedMap Addr ℕ) := do
  let next : ℤ := m.count addr + delta
  failIf (next < 0 ∨ next > 2 ^ 32 - 1) (.counterRange (m.count addr) delta)
  return m.setCount addr next.toNat

theorem addCheckedU32_inc {m' : OrderedMap Addr ℕ} (h : addCheckedU32 m addr 1 = .ok m') :
    m.count addr + 1 < 2 ^ 32 ∧ m' = m.setCount addr (m.count addr + 1) := by
  simp only [addCheckedU32, bind_eq_ok, failIf_eq_ok, pure_eq_ok, exists_const] at h
  obtain ⟨hrange, rfl⟩ := h
  exact ⟨by omega, by congr 1⟩

theorem addCheckedU32_dec {m' : OrderedMap Addr ℕ} (h : addCheckedU32 m addr (-1) = .ok m') :
    0 < m.count addr ∧ m' = m.setCount addr (m.count addr - 1) := by
  simp only [addCheckedU32, bind_eq_ok, failIf_eq_ok, pure_eq_ok, exists_const] at h
  obtain ⟨hrange, rfl⟩ := h
  exact ⟨by omega, by congr 1; omega⟩

theorem addCheckedU32_avoids {bad : ChainError → Prop} {delta : ℤ}
    (h : ¬ bad (.counterRange (m.count addr) delta)) : Avoids bad (addCheckedU32 m addr delta) :=
  (Avoids.failIf fun _ => h).bind fun _ _ => .ok _

/-- A counter below its end can be raised. -/
theorem addCheckedU32_inc_ok (hroom : m.count addr < 2 ^ 32 - 1) :
    addCheckedU32 m addr 1 = .ok (m.setCount addr (m.count addr + 1)) := by
  unfold addCheckedU32
  simp only
  rw [failIf_of_not _ (by omega), ok_bind]
  rfl

/-- A positive counter can be lowered. -/
theorem addCheckedU32_dec_ok (hpos : 0 < m.count addr) (hfits : m.count addr < 2 ^ 32) :
    addCheckedU32 m addr (-1) = .ok (m.setCount addr (m.count addr - 1)) := by
  unfold addCheckedU32
  simp only
  rw [failIf_of_not _ (by omega), ok_bind]
  show Except.ok _ = Except.ok _
  congr 2
  omega

end MirageNode
