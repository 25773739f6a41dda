import MirageNode.Lib.TaggedFields
import Mathlib.Data.List.Nodup

/-!
# Relay messages

The message types that travel in a signed envelope (`relayMessagePrototypes` of
app/relay_messages.go) with the fields of their protobuf definitions. A payload is
generic in its text type: on chain a string is a sequence of bytes, in the Python
tools it is a text.
-/

namespace MirageNode

open TaggedFields

/-- A Go string or byte slice. Its length is an `int`. -/
@[ext] structure GoString where
  data : Bytes
  fits : data.length < 2 ^ 63
  deriving DecidableEq

theorem GoString.nil_fits : ([] : Bytes).length < 2 ^ 63 := by decide

/-- The types of relay messages, in the order of the registry. -/
inductive MsgType where
  | post | vote | setUsername | followUser | unfollowUser | followTopic | unfollowTopic
  | blockTopic | unblockTopic | joinCommunity | leaveCommunity | blockPost | unblockPost
  | blockUser | unblockUser | blockCommunity | unblockCommunity | delete | deleteUser
  | sendTokens | edit | subscribe | setAutoRenewal | award | setBiography
  | createCurationTeam | setCurationTeamProfile | inviteCurator | revokeCuratorInvite
  | acceptCuratorInvite | declineCuratorInvite | leaveCurationTeam | removeCurator
  | transferCurationTeam | deleteCurationTeam | setCurationPreference
  | setCurationPostHidden | setCurationUserHidden | setCurationThreadLocked
  | setCurationSubscriberOnly | setCurationTag | setCurationPostTag | claimCreatorRewards
  deriving DecidableEq, Repr

namespace MsgType

/-- The name that stands in the canonical bytes, which is the protobuf message name. -/
def name : MsgType → String
  | post => "MsgPost"
  | vote => "MsgVote"
  | setUsername => "MsgSetUsername"
  | followUser => "MsgFollowUser"
  | unfollowUser => "MsgUnfollowUser"
  | followTopic => "MsgFollowTopic"
  | unfollowTopic => "MsgUnfollowTopic"
  | blockTopic => "MsgBlockTopic"
  | unblockTopic => "MsgUnblockTopic"
  | joinCommunity => "MsgJoinCommunity"
  | leaveCommunity => "MsgLeaveCommunity"
  | blockPost => "MsgBlockPost"
  | unblockPost => "MsgUnblockPost"
  | blockUser => "MsgBlockUser"
  | unblockUser => "MsgUnblockUser"
  | blockCommunity => "MsgBlockCommunity"
  | unblockCommunity => "MsgUnblockCommunity"
  | delete => "MsgDelete"
  | deleteUser => "MsgDeleteUser"
  | sendTokens => "MsgSendTokens"
  | edit => "MsgEdit"
  | subscribe => "MsgSubscribe"
  | setAutoRenewal => "MsgSetAutoRenewal"
  | award => "MsgAward"
  | setBiography => "MsgSetBiography"
  | createCurationTeam => "MsgCreateCurationTeam"
  | setCurationTeamProfile => "MsgSetCurationTeamProfile"
  | inviteCurator => "MsgInviteCurator"
  | revokeCuratorInvite => "MsgRevokeCuratorInvite"
  | acceptCuratorInvite => "MsgAcceptCuratorInvite"
  | declineCuratorInvite => "MsgDeclineCuratorInvite"
  | leaveCurationTeam => "MsgLeaveCurationTeam"
  | removeCurator => "MsgRemoveCurator"
  | transferCurationTeam => "MsgTransferCurationTeam"
  | deleteCurationTeam => "MsgDeleteCurationTeam"
  | setCurationPreference => "MsgSetCurationPreference"
  | setCurationPostHidden => "MsgSetCurationPostHidden"
  | setCurationUserHidden => "MsgSetCurationUserHidden"
  | setCurationThreadLocked => "MsgSetCurationThreadLocked"
  | setCurationSubscriberOnly => "MsgSetCurationSubscriberOnly"
  | setCurationTag => "MsgSetCurationTag"
  | setCurationPostTag => "MsgSetCurationPostTag"
  | claimCreatorRewards => "MsgClaimCreatorRewards"

/-- `relayMessagePrototypes`. -/
def prototypes : List MsgType :=
  [post, vote, setUsername, followUser, unfollowUser, followTopic, unfollowTopic, blockTopic,
    unblockTopic, joinCommunity, leaveCommunity, blockPost, unblockPost, blockUser, unblockUser,
    blockCommunity, unblockCommunity, delete, deleteUser, sendTokens, edit, subscribe,
    setAutoRenewal, award, setBiography, createCurationTeam, setCurationTeamProfile,
    inviteCurator, revokeCuratorInvite, acceptCuratorInvite, declineCuratorInvite,
    leaveCurationTeam, removeCurator, transferCurationTeam, deleteCurationTeam,
    setCurationPreference, setCurationPostHidden, setCurationUserHidden,
    setCurationThreadLocked, setCurationSubscriberOnly, setCurationTag, setCurationPostTag,
    claimCreatorRewards]

theorem mem_prototypes (t : MsgType) : t ∈ prototypes := by
  cases t <;> decide

end MsgType

/-- `[]byte(s)`. -/
def textBytes (s : String) : Bytes := s.toUTF8.data.toList

/-- The fields from tag 100 on. `mode` is a protobuf enum, hence an int32. -/
inductive Payload (σ : Type) : MsgType → Type where
  | post (target community title content tag : σ) (media : List σ) (protocolVersion : UInt32) :
      Payload σ .post
  | vote (target : σ) (direction : Int32) : Payload σ .vote
  | setUsername (target username : σ) : Payload σ .setUsername
  | followUser (target user : σ) : Payload σ .followUser
  | unfollowUser (target user : σ) : Payload σ .unfollowUser
  | followTopic (target topic : σ) : Payload σ .followTopic
  | unfollowTopic (target topic : σ) : Payload σ .unfollowTopic
  | blockTopic (target topic : σ) : Payload σ .blockTopic
  | unblockTopic (target topic : σ) : Payload σ .unblockTopic
  | joinCommunity (community : σ) (mode : Int32) (pinnedTeamId : UInt64) : Payload σ .joinCommunity
  | leaveCommunity (community : σ) : Payload σ .leaveCommunity
  | blockPost (target : σ) : Payload σ .blockPost
  | unblockPost (target : σ) : Payload σ .unblockPost
  | blockUser (target : σ) : Payload σ .blockUser
  | unblockUser (target : σ) : Payload σ .unblockUser
  | blockCommunity (target community : σ) : Payload σ .blockCommunity
  | unblockCommunity (target community : σ) : Payload σ .unblockCommunity
  | delete (target : σ) : Payload σ .delete
  | deleteUser (target : σ) : Payload σ .deleteUser
  | sendTokens (sender target : σ) (amount : UInt64) : Payload σ .sendTokens
  | edit (target community title content tag override : σ) (media : List σ) : Payload σ .edit
  | subscribe (level : UInt32) (target : σ) (periodCount : UInt32) : Payload σ .subscribe
  | setAutoRenewal (autoRenew : Bool) : Payload σ .setAutoRenewal
  | award (target awardType : σ) : Payload σ .award
  | setBiography (target biography : σ) : Payload σ .setBiography
  | createCurationTeam (community name description : σ) : Payload σ .createCurationTeam
  | setCurationTeamProfile (community : σ) (teamId : UInt64) (name description : σ) :
      Payload σ .setCurationTeamProfile
  | inviteCurator (community : σ) (teamId : UInt64) (target : σ) : Payload σ .inviteCurator
  | revokeCuratorInvite (community : σ) (teamId : UInt64) (target : σ) :
      Payload σ .revokeCuratorInvite
  | acceptCuratorInvite (community : σ) (teamId : UInt64) : Payload σ .acceptCuratorInvite
  | declineCuratorInvite (community : σ) (teamId : UInt64) : Payload σ .declineCuratorInvite
  | leaveCurationTeam (community : σ) (teamId : UInt64) : Payload σ .leaveCurationTeam
  | removeCurator (community : σ) (teamId : UInt64) (target : σ) : Payload σ .removeCurator
  | transferCurationTeam (community : σ) (teamId : UInt64) (newOwner : σ) :
      Payload σ .transferCurationTeam
  | deleteCurationTeam (community : σ) (teamId : UInt64) : Payload σ .deleteCurationTeam
  | setCurationPreference (community : σ) (mode : Int32) (pinnedTeamId : UInt64) :
      Payload σ .setCurationPreference
  | setCurationPostHidden (community : σ) (teamId : UInt64) (target : σ) (hidden : Bool) :
      Payload σ .setCurationPostHidden
  | setCurationUserHidden (community : σ) (teamId : UInt64) (target : σ) (hidden : Bool) :
      Payload σ .setCurationUserHidden
  | setCurationThreadLocked (community : σ) (teamId : UInt64) (rootHash : σ) (locked : Bool) :
      Payload σ .setCurationThreadLocked
  | setCurationSubscriberOnly (community : σ) (teamId : UInt64) (enabled : Bool) :
      Payload σ .setCurationSubscriberOnly
  | setCurationTag (community : σ) (teamId : UInt64) (tag : σ) : Payload σ .setCurationTag
  | setCurationPostTag (community : σ) (teamId : UInt64) (target tag : σ) (clear : Bool) :
      Payload σ .setCurationPostTag
  | claimCreatorRewards (epochIds : List Int64) : Payload σ .claimCreatorRewards

namespace Payload

/-- The same payload with every text replaced by its image. -/
def map {σ τ : Type} (f : σ → τ) : {t : MsgType} → Payload σ t → Payload τ t
  | _, post target community title content tag media version =>
    .post (f target) (f community) (f title) (f content) (f tag) (media.map f) version
  | _, vote target direction => .vote (f target) direction
  | _, setUsername target username => .setUsername (f target) (f username)
  | _, followUser target user => .followUser (f target) (f user)
  | _, unfollowUser target user => .unfollowUser (f target) (f user)
  | _, followTopic target topic => .followTopic (f target) (f topic)
  | _, unfollowTopic target topic => .unfollowTopic (f target) (f topic)
  | _, blockTopic target topic => .blockTopic (f target) (f topic)
  | _, unblockTopic target topic => .unblockTopic (f target) (f topic)
  | _, joinCommunity community mode pinned => .joinCommunity (f community) mode pinned
  | _, leaveCommunity community => .leaveCommunity (f community)
  | _, blockPost target => .blockPost (f target)
  | _, unblockPost target => .unblockPost (f target)
  | _, blockUser target => .blockUser (f target)
  | _, unblockUser target => .unblockUser (f target)
  | _, blockCommunity target community => .blockCommunity (f target) (f community)
  | _, unblockCommunity target community => .unblockCommunity (f target) (f community)
  | _, delete target => .delete (f target)
  | _, deleteUser target => .deleteUser (f target)
  | _, sendTokens sender target amount => .sendTokens (f sender) (f target) amount
  | _, edit target community title content tag override media =>
    .edit (f target) (f community) (f title) (f content) (f tag) (f override) (media.map f)
  | _, subscribe level target count => .subscribe level (f target) count
  | _, setAutoRenewal autoRenew => .setAutoRenewal autoRenew
  | _, award target awardType => .award (f target) (f awardType)
  | _, setBiography target biography => .setBiography (f target) (f biography)
  | _, createCurationTeam community name description =>
    .createCurationTeam (f community) (f name) (f description)
  | _, setCurationTeamProfile community teamId name description =>
    .setCurationTeamProfile (f community) teamId (f name) (f description)
  | _, inviteCurator community teamId target => .inviteCurator (f community) teamId (f target)
  | _, revokeCuratorInvite community teamId target =>
    .revokeCuratorInvite (f community) teamId (f target)
  | _, acceptCuratorInvite community teamId => .acceptCuratorInvite (f community) teamId
  | _, declineCuratorInvite community teamId => .declineCuratorInvite (f community) teamId
  | _, leaveCurationTeam community teamId => .leaveCurationTeam (f community) teamId
  | _, removeCurator community teamId target => .removeCurator (f community) teamId (f target)
  | _, transferCurationTeam community teamId newOwner =>
    .transferCurationTeam (f community) teamId (f newOwner)
  | _, deleteCurationTeam community teamId => .deleteCurationTeam (f community) teamId
  | _, setCurationPreference community mode pinned =>
    .setCurationPreference (f community) mode pinned
  | _, setCurationPostHidden community teamId target hidden =>
    .setCurationPostHidden (f community) teamId (f target) hidden
  | _, setCurationUserHidden community teamId target hidden =>
    .setCurationUserHidden (f community) teamId (f target) hidden
  | _, setCurationThreadLocked community teamId rootHash locked =>
    .setCurationThreadLocked (f community) teamId (f rootHash) locked
  | _, setCurationSubscriberOnly community teamId enabled =>
    .setCurationSubscriberOnly (f community) teamId enabled
  | _, setCurationTag community teamId tag => .setCurationTag (f community) teamId (f tag)
  | _, setCurationPostTag community teamId target tag clear =>
    .setCurationPostTag (f community) teamId (f target) (f tag) clear
  | _, claimCreatorRewards epochIds => .claimCreatorRewards epochIds

end Payload

/-- Fields 1 to 10 of every relay message. `authority` is set by the relaying node and,
like the signature, is not part of what is signed. -/
@[ext] structure Envelope where
  authority : GoString
  pubkey : GoString
  blockHash : GoString
  difficulty : UInt64
  pow : UInt64
  timestamp : UInt64
  nonce : UInt64
  signature : GoString
  deriving DecidableEq

structure RelayMessage (σ : Type) where
  type : MsgType
  env : Envelope
  payload : Payload σ type

namespace RelayMessage

/-- A message as the chain decodes it. -/
abbrev OnChain := RelayMessage GoString

/-- The message without the fields the signature does not cover. -/
def unsigned {σ : Type} (m : RelayMessage σ) : RelayMessage σ :=
  { m with env := { m.env with
    authority := ⟨[], GoString.nil_fits⟩, signature := ⟨[], GoString.nil_fits⟩ } }

end RelayMessage

end MirageNode
