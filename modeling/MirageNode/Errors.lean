import Mathlib.Data.Int.Notation
import Mathlib.Data.Nat.Notation

/-!
# Errors of the core module

One constructor for each error the modelled keeper functions return, with the
values the source prints into it.
-/

namespace MirageNode

inductive CoreError where
  -- the panic of an `sdkmath.Int` above 256 bits
  | intOverflow
  -- types/safe_math.go
  | valueOverflowsInt64 (v : ℕ)
  | mulOverflowsUint64 (a b : ℕ)
  | addOverflowsUint64 (a b : ℕ)
  | mulNegativeOperands (a b : ℤ)
  | mulOverflowsInt64 (a b : ℤ)
  | addNegativeOperands (a b : ℤ)
  | addOverflowsInt64 (a b : ℤ)
  -- types/params.go
  | paramAboveMax (name : String) (max : ℕ)
  | paramOutOfRange (name : String) (min max : ℕ)
  | paramFixed (name : String) (value : ℕ)
  | paramOrder (low high : String)
  | communitySizes
  | tierZero (tier : ℕ) (name : String)
  | freeTierRelays
  | tierRelaysOutOfRange (tier : String)
  | relayLimitsDiffer
  | awardsEmpty
  | awardUnnamed (i : ℕ)
  | awardDuplicate (i name : ℕ)
  | awardCost (i cost max : ℕ)
  | biographyLength (tier : ℕ)
  | tierCount
  | tierCountV139
  | freeTierFee
  | tierLimit (tier : ℕ) (name : String) (value max : ℕ)
  | adminTierFee
  | earlyRenewalTooLong
  | purchaseTooLong
  | epochSecondsNotDividing
  | freeTierMemberships
  -- types/creator_epoch.go
  | epochTimeNegative
  | scheduleOriginNegative
  | epochTimeBeforeOrigin
  | epochSecondsOutOfRange (seconds : ℕ)
  | epochNegative
  | epochBeforeOrigin
  | epochEndOverflow
  | claimWindowOverflow
  -- keeper/creator_stream.go
  | streamCursorNegative
  | creatorAmountNegative
  | trancheEmptyWindow
  | streamDeficit (id : ℕ)
  | streamRegression (cursor upto : ℤ)
  | streamRateNegative (at_ : ℤ)
  | streamPaidRegression (earned paid : ℤ)
  -- keeper/creator_schedule.go
  | epochSecondsUnset
  | scheduleSecondsUnset
  | tooManyPendingBoundaries
  -- keeper/upgrade_v139.go
  | clockRegression (have_ new : ℤ)
  | creatorEpochMissing (epoch : ℤ)
  -- keeper/tranche.go, keeper/keeper.go
  | creatorLiabilityUnderflow
  | insufficientFunds (amount : ℤ)
  | bankUnexpectedFunds (operation : String)
  | creatorBpsOutOfRange (bps : ℕ)
  | periodFeeOverflows (fee bps : ℕ)
  -- keeper/creator.go
  | grossRecordsUnderflow
  | claimCount (max : ℕ)
  | claimNotIncreasing
  | claimNoAccrual (epoch : ℤ)
  | claimEpochMissing (epoch : ℤ)
  | claimNotClaimable (epoch : ℤ)
  | claimWindowClosed (epoch : ℤ)
  | claimAlreadyClaimed (epoch : ℤ)
  | claimNothing (epoch : ℤ)
  -- keeper/creator_settle.go
  | settlementBudget
  | pruneBudget
  | settlementEpochMissing (epoch : ℤ)
  | statusPhaseMismatch (epoch : ℤ)
  | engagementCountMissing (actor : ℕ) (epoch : ℤ)
  | allocateTargetMissing (target : ℕ) (epoch : ℤ)
  | allocatedExceedsPool (epoch allocated pool : ℤ)
  | claimedExceedsPool (epoch claimed pool : ℤ)
  | engagementTargetMissing (target : ℕ) (epoch : ℤ)
  | selfEngagement (actor target : ℕ)
  | replySourceHash
  | replySourceMissing (source : ℕ)
  | replySourceMismatch (source : ℕ)
  | unknownEngagementKind (kind : ℕ)
  -- module/module.go
  | legacyThreadReadOnly
  | notPostAuthor
deriving DecidableEq, Repr

end MirageNode
