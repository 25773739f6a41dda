import MirageNode.Profiles

/-!
# Communities and curation teams

`keeper/community.go`, `keeper/team.go` and the curation part of `keeper/paid.go`:
who joined which community with which lens, the teams that curate it, their rosters
and invitations, and the users a team has banned.

The functions take the parameters and the profiles they read as arguments and return
the new curation store.
-/

namespace MirageNode

open OrderedStore OrderedMap Fallible

/-! ## 1. Records and store -/

/-- `CurationPreferenceMode`. -/
inductive PreferenceMode where
  | liveDefault
  | pinned
  | raw
deriving DecidableEq, Repr

/-- The mode that a number in a message stands for. -/
def PreferenceMode.ofInt (n : ℤ) : Option PreferenceMode :=
  if n = 0 then some liveDefault
  else if n = 1 then some pinned
  else if n = 2 then some raw else none

structure CommunityPreference where
  mode : PreferenceMode
  pinnedTeamId : ℕ
deriving DecidableEq, Repr

/-- The preference a plain join stores. -/
def CommunityPreference.default : CommunityPreference := ⟨.liveDefault, 0⟩

structure CurationTeam where
  community : Slug
  teamId : ℕ
  owner : Addr
  name : Name
  description : Text
  createdHeight : ℤ
  createdOrder : ℕ
  nextMemberOrder : ℕ
  subscriberCount : ℕ
  deletedHeight : ℤ
  tag : Text
  subscriberOnly : Bool
deriving DecidableEq, Repr

/-- `teamLive` of a stored team. -/
def CurationTeam.live (team : CurationTeam) : Bool := team.deletedHeight = 0

structure CurationTeamMember where
  address : Addr
  acceptedOrder : ℕ
deriving DecidableEq, Repr

structure CurationPostTag where
  tag : Text
  actor : Addr
  updatedHeight : ℤ
deriving DecidableEq, Repr

/-- The key of a record of one account on one team. -/
abbrev RosterKey := Slug ×ₗ ℕ ×ₗ Addr

/-- The components of `KeyCurationTeamMember` and `KeyCurationInvite`. -/
def rosterKey (slug : Slug) (team : ℕ) (addr : Addr) : RosterKey := toLex (slug, toLex (team, addr))

/-- The curation store. -/
structure CurationState where
  /-- `jc|` -/
  joins : OrderedMap (Addr ×ₗ Slug) CommunityPreference
  /-- `cj|` -/
  joinRev : OrderedMap (Slug ×ₗ Addr) Unit
  /-- `jcc|` -/
  joinCount : OrderedMap Addr ℕ
  /-- `ct|` -/
  teams : OrderedMap (Slug ×ₗ ℕ) CurationTeam
  /-- `ctnext|` -/
  teamNext : OrderedMap Slug ℕ
  /-- `ctname|` -/
  teamName : OrderedMap (Slug ×ₗ Name) ℕ
  /-- `ctm|` -/
  members : OrderedMap RosterKey CurationTeamMember
  /-- `ctu|` -/
  teamUser : OrderedMap (Addr ×ₗ Slug) ℕ
  /-- `ctuc|` -/
  teamUserCount : OrderedMap Addr ℕ
  /-- `cti|`, with the inviter -/
  invites : OrderedMap RosterKey Addr
  /-- `ctir|` -/
  inviteRev : OrderedMap (Addr ×ₗ Slug ×ₗ ℕ) Unit
  /-- `ctirc|` -/
  inviteCount : OrderedMap Addr ℕ
  /-- `chu|`, with the curator who banned the user -/
  hiddenUsers : OrderedMap RosterKey Addr
  /-- `chp|`, with the curator who hid the post -/
  hiddenPosts : OrderedMap (Slug ×ₗ ℕ ×ₗ Hash) Addr
  /-- `cpt|` -/
  postTags : OrderedMap (Slug ×ₗ ℕ ×ₗ Hash) CurationPostTag
  /-- `chl|`, with the post sequence at which the thread was locked -/
  threadLocks : OrderedMap (Slug ×ₗ ℕ ×ₗ Hash) ℕ
  /-- `chlc|` -/
  threadLockCount : OrderedMap (Slug ×ₗ ℕ ×ₗ Hash) ℕ

/-- A store without communities. -/
def CurationState.empty : CurationState where
  joins := .empty
  joinRev := .empty
  joinCount := .empty
  teams := .empty
  teamNext := .empty
  teamName := .empty
  members := .empty
  teamUser := .empty
  teamUserCount := .empty
  invites := .empty
  inviteRev := .empty
  inviteCount := .empty
  hiddenUsers := .empty
  hiddenPosts := .empty
  postTags := .empty
  threadLocks := .empty
  threadLockCount := .empty

namespace CurationState

def getPreference (s : CurationState) (owner : Addr) (slug : Slug) : Option CommunityPreference :=
  s.joins.get (toLex (owner, slug))

def getCurationTeam (s : CurationState) (slug : Slug) (team : ℕ) : Option CurationTeam :=
  s.teams.get (toLex (slug, team))

def setCurationTeam (s : CurationState) (team : CurationTeam) : CurationState :=
  { s with teams := s.teams.set (toLex (team.community, team.teamId)) team }

/-- A team that is there and not deleted. -/
def liveTeam (s : CurationState) (slug : Slug) (team : ℕ) : Option CurationTeam :=
  (s.getCurationTeam slug team).filter CurationTeam.live

/-- The roster records of a team, in the order of an iteration. -/
def roster (s : CurationState) (slug : Slug) (team : ℕ) : OrderedMap Addr CurationTeamMember :=
  (s.members.slice slug).slice team

/-- The invitations of a team, in the order of an iteration. -/
def teamInvites (s : CurationState) (slug : Slug) (team : ℕ) : OrderedMap Addr Addr :=
  (s.invites.slice slug).slice team

/-- `ListJoinedCommunities`. -/
def joinedCommunities (s : CurationState) (owner : Addr) : List Slug :=
  (s.joins.slice owner).entries.map Prod.fst

theorem mem_joinedCommunities {s : CurationState} {owner : Addr} {slug : Slug} :
    slug ∈ s.joinedCommunities owner ↔ s.joins.has (toLex (owner, slug)) = true := by
  simp only [joinedCommunities, List.mem_map, Prod.exists, exists_and_right, exists_eq_right,
    mem_entries_iff, get_slice, has_iff]

/-- The pending invitations of an account, read from the reverse records. -/
def pendingInvites (s : CurationState) (target : Addr) : List (Slug × ℕ) :=
  (s.inviteRev.slice target).entries.map fun e => ofLex e.1

end CurationState

/-- `uint32(n)`. -/
def uint32 (n : ℕ) : ℕ := n % 2 ^ 32

/-! ## 2. Subscriber counts -/

/-- `adjustTeamSubscriberCount` with `delta = 1`. -/
def countSubscriber (s : CurationState) (slug : Slug) (team : ℕ) :
    Except ChainError CurationState :=
  match s.liveTeam slug team with
  | none => .error .adjustUnknownTeam
  | some t => do
    let sum ← liftCore (checkedAddUint64 t.subscriberCount 1)
    return s.setCurationTeam { t with subscriberCount := sum }

/-- `adjustTeamSubscriberCount` with `delta = -1`. -/
def uncountSubscriber (s : CurationState) (slug : Slug) (team : ℕ) :
    Except ChainError CurationState :=
  match s.liveTeam slug team with
  | none => .error .adjustUnknownTeam
  | some t => do
    failIf (t.subscriberCount < 1) (.subscriberUnderflow t.community t.teamId)
    return s.setCurationTeam { t with subscriberCount := t.subscriberCount - 1 }

/-- The live team that a preference counts for. -/
def CurationState.countedTeam (s : CurationState) (slug : Slug) (pref : CommunityPreference) :
    Option CurationTeam :=
  if pref.mode = .pinned then s.liveTeam slug pref.pinnedTeamId else none

/-- A joined community whose eligible owner is pinned to a team. -/
def pinnedTo (eligible : Addr → Bool) (slug : Slug) (team : ℕ)
    (e : (Addr ×ₗ Slug) × CommunityPreference) : Bool :=
  eligible (ofLex e.1).1 && decide (e.2.mode = .pinned) && decide ((ofLex e.1).2 = slug) &&
    decide (e.2.pinnedTeamId = team)

/-- The number of eligible accounts that are pinned to a team. -/
def CurationState.subscribers (s : CurationState) (eligible : Addr → Bool) (slug : Slug)
    (team : ℕ) : ℕ :=
  s.joins.entries.countP (pinnedTo eligible slug team)

def removeSubscriberContribution (s : CurationState) (slug : Slug) (pref : CommunityPreference) :
    Except ChainError CurationState :=
  match s.countedTeam slug pref with
  | none => .ok s
  | some _ => uncountSubscriber s slug pref.pinnedTeamId

def addSubscriberContribution (s : CurationState) (slug : Slug) (pref : CommunityPreference) :
    Except ChainError CurationState :=
  match s.countedTeam slug pref with
  | none => .ok s
  | some _ => countSubscriber s slug pref.pinnedTeamId

/-! ## 3. Joining and choosing a lens -/

def joinCommunity (rules : TextRules) (p : Params) (s : CurationState) (owner : Addr) (slug : Slug)
    (cap : ℕ) : Except ChainError CurationState := do
  liftText (rules.communitySlug p slug)
  if s.joins.has (toLex (owner, slug)) then return s
  else do
    failIf (cap = 0) .joinCapZero
    failIf (s.joinCount.count owner ≥ cap) (.joinCapReached cap)
    let joinCount ← addCheckedU32 s.joinCount owner 1
    return { s with
      joins := s.joins.set (toLex (owner, slug)) .default
      joinRev := s.joinRev.set (toLex (slug, owner)) ()
      joinCount := joinCount }

/-- The checks on the mode and team in `SetCurationPreference`. -/
def checkPreference (s : CurationState) (owner : Addr) (slug : Slug) (mode : ℤ) (team : ℕ) :
    Except ChainError PreferenceMode :=
  match PreferenceMode.ofInt mode with
  | some .pinned => do
    failIf (team = 0) .pinnedNeedsTeam
    failIf (s.liveTeam slug team = none) .pinUnknownTeam
    failIf (s.hiddenUsers.has (rosterKey slug team owner)) .pinBanned
    return .pinned
  | some m => do
    failIf (team ≠ 0) (.modeWithTeam mode)
    return m
  | none => .error (.invalidMode mode)

/-- The contribution taken back before a preference changes or a join goes. -/
def removePaidContribution (s : CurationState) (slug : Slug) (pref : CommunityPreference)
    (paid : Bool) : Except ChainError CurationState :=
  if paid then removeSubscriberContribution s slug pref else .ok s

/-- The contribution made once a preference has changed. -/
def addPaidContribution (s : CurationState) (slug : Slug) (pref : CommunityPreference)
    (paid : Bool) : Except ChainError CurationState :=
  if paid then addSubscriberContribution s slug pref else .ok s

def setCurationPreference (s : CurationState) (owner : Addr) (slug : Slug) (mode : ℤ) (team : ℕ)
    (paid : Bool) : Except ChainError CurationState :=
  match s.getPreference owner slug with
  | none => .error (.notJoined slug)
  | some old => do
    let m ← checkPreference s owner slug mode team
    if old.mode = m ∧ old.pinnedTeamId = team then return s
    else do
      let s ← removePaidContribution s slug old paid
      let s ← addPaidContribution s slug ⟨m, team⟩ paid
      return { s with joins := s.joins.set (toLex (owner, slug)) ⟨m, team⟩ }

/-- The order in `bestCurationTeamForUser`: more subscribers, then the older team, then
the lower number. -/
def CurationTeam.beats (team best : CurationTeam) : Bool :=
  team.subscriberCount > best.subscriberCount ||
  (team.subscriberCount = best.subscriberCount && team.createdOrder < best.createdOrder) ||
  (team.subscriberCount = best.subscriberCount && team.createdOrder = best.createdOrder &&
    team.teamId < best.teamId)

/-- The loop body of `bestCurationTeamForUser`. -/
def pickTeam (s : CurationState) (slug : Slug) (target : Addr) (allowHidden : ℕ)
    (best : Option CurationTeam) (team : CurationTeam) : Option CurationTeam :=
  if !team.live then best
  else if team.teamId ≠ allowHidden ∧
      s.hiddenUsers.has (rosterKey slug team.teamId target) then best
  else match best with
    | none => some team
    | some b => if team.beats b then some team else best

def bestCurationTeamForUser (s : CurationState) (slug : Slug) (target : Addr) (allowHidden : ℕ) :
    Option CurationTeam :=
  ((s.teams.slice slug).entries.map Prod.snd).foldl (pickTeam s slug target allowHidden) none

def resolveJoinLens (s : CurationState) (owner : Addr) (slug : Slug) (mode : ℤ) (team : ℕ) :
    Except ChainError (ℤ × ℕ) :=
  match PreferenceMode.ofInt mode with
  | some .raw => do
    failIf (team ≠ 0) .rawLensTeam
    return (2, 0)
  | some .pinned => do
    failIf (team = 0) .pinnedLensTeam
    failIf (s.liveTeam slug team = none) .pinUnknownTeam
    failIf (s.hiddenUsers.has (rosterKey slug team owner)) .pinBanned
    return (1, team)
  | some .liveDefault => do
    failIf (team ≠ 0) .defaultLensTeam
    match bestCurationTeamForUser s slug owner 0 with
    | none => return (2, 0)
    | some best => return (1, best.teamId)
  | none => .error (.invalidLens mode)

def joinCommunityWithLens (rules : TextRules) (p : Params) (s : CurationState) (owner : Addr)
    (slug : Slug) (cap : ℕ) (mode : ℤ) (team : ℕ) (paid : Bool) :
    Except ChainError CurationState :=
  if s.joins.has (toLex (owner, slug)) then .ok s
  else do
    let lens ← resolveJoinLens s owner slug mode team
    let s ← joinCommunity rules p s owner slug cap
    setCurationPreference s owner slug lens.1 lens.2 paid

/-! ## 4. Rosters and invitations -/

def countTeamMembers (s : CurationState) (slug : Slug) (team max : ℕ) : Except ChainError ℕ := do
  failIf ((s.roster slug team).size > max) .membersAboveMaximum
  return (s.roster slug team).size

def countTeamInvites (s : CurationState) (slug : Slug) (team max : ℕ) : Except ChainError ℕ := do
  failIf ((s.teamInvites slug team).size > max) .invitesAboveMaximum
  return (s.teamInvites slug team).size

def clearInvite (s : CurationState) (slug : Slug) (team : ℕ) (target : Addr) :
    Except ChainError CurationState :=
  if s.invites.has (rosterKey slug team target) then do
    let inviteCount ← addCheckedU32 s.inviteCount target (-1)
    return { s with
      invites := s.invites.erase (rosterKey slug team target)
      inviteRev := s.inviteRev.erase (toLex (target, toLex (slug, team)))
      inviteCount := inviteCount }
  else .ok s

/-- `ClearInvite`. -/
def clearPendingInvite (s : CurationState) (slug : Slug) (team : ℕ) (target : Addr) :
    Except ChainError CurationState := do
  failIf (¬ s.invites.has (rosterKey slug team target)) .noInvitation
  clearInvite s slug team target

def clearPendingInvitationsForTarget (s : CurationState) (target : Addr) :
    Except ChainError CurationState :=
  (s.pendingInvites target).foldlM (fun s inv => clearInvite s inv.1 inv.2 target) s

def removeCuratorFromTeam (p : Params) (s : CurationState) (slug : Slug) (team : ℕ)
    (target : Addr) : Except ChainError CurationState :=
  match s.members.get (rosterKey slug team target) with
  | none => .error .notTeamMember
  | some _ => do
    let teamUserCount ← addCheckedU32 s.teamUserCount target (-1)
    let s : CurationState := { s with
      members := s.members.erase (rosterKey slug team target)
      teamUser := s.teamUser.erase (toLex (target, slug))
      teamUserCount := teamUserCount }
    let _ ← countTeamMembers s slug team p.maxCuratorsPerTeam
    return s

def deleteCurationTeam (rules : TextRules) (p : Params) (height : ℤ) (s : CurationState)
    (slug : Slug) (team : ℕ) : Except ChainError CurationState :=
  match s.liveTeam slug team with
  | none => .error .teamNotFound
  | some t => do
    let members := (s.roster slug team).entries.map Prod.fst
    let s ← members.foldlM (fun s m => removeCuratorFromTeam p s slug team m) s
    let invitees := (s.teamInvites slug team).entries.map Prod.fst
    let s ← invitees.foldlM (fun s i => clearInvite s slug team i) s
    let s : CurationState :=
      { s with teamName := s.teamName.erase (toLex (slug, rules.teamNameKey t.name)) }
    return s.setCurationTeam { t with subscriberCount := 0, deletedHeight := height }

/-- The loop body that looks for the successor in `removeCurationMembership`: the eligible
curator who accepted first. -/
def pickSuccessor (profiles : Profiles) (owner : Addr) (best : Option CurationTeamMember)
    (m : CurationTeamMember) : Option CurationTeamMember :=
  if m.address = owner then best
  else if !profiles.eligible m.address then best
  else match best with
    | none => some m
    | some b =>
      if m.acceptedOrder < b.acceptedOrder ∨
          (m.acceptedOrder = b.acceptedOrder ∧ m.address < b.address) then some m
      else best

/-- The successor that `removeCurationMembership` finds. -/
def successor (profiles : Profiles) (s : CurationState) (slug : Slug) (team : ℕ) (owner : Addr) :
    Option CurationTeamMember :=
  ((s.roster slug team).entries.map Prod.snd).foldl (pickSuccessor profiles owner) none

def removeCurationMembership (rules : TextRules) (p : Params) (height : ℤ) (profiles : Profiles)
    (s : CurationState) (owner : Addr) (slug : Slug) (team : ℕ) : Except ChainError CurationState :=
  match s.liveTeam slug team with
  | none => .ok s
  | some t =>
    if t.owner ≠ owner then removeCuratorFromTeam p s slug team owner
    else match successor profiles s slug team owner with
      | none => deleteCurationTeam rules p height s slug team
      | some next => do
        let s ← removeCuratorFromTeam p s slug team owner
        return s.setCurationTeam { t with owner := next.address }

/-- The membership `LeaveCommunity` ends: the account's team in the community, if any. -/
def leaveTeam (rules : TextRules) (p : Params) (height : ℤ) (profiles : Profiles)
    (s : CurationState) (owner : Addr) (slug : Slug) : Except ChainError CurationState :=
  match s.teamUser.get (toLex (owner, slug)) with
  | some team =>
    if team > 0 then removeCurationMembership rules p height profiles s owner slug team
    else .ok s
  | none => .ok s

def leaveCommunity (rules : TextRules) (p : Params) (height : ℤ) (profiles : Profiles)
    (s : CurationState) (owner : Addr) (slug : Slug) (paid : Bool) :
    Except ChainError CurationState :=
  match s.getPreference owner slug with
  | none => .error (.notJoined slug)
  | some pref => do
    let s ← leaveTeam rules p height profiles s owner slug
    let s ← removePaidContribution s slug pref paid
    failIf (¬ s.joinRev.has (toLex (slug, owner))) (.joinReverseMissing owner slug)
    let joinCount ← addCheckedU32 s.joinCount owner (-1)
    return { s with
      joins := s.joins.erase (toLex (owner, slug))
      joinRev := s.joinRev.erase (toLex (slug, owner))
      joinCount := joinCount }

/-! ## 5. Gaining and losing eligibility -/

/-- The first loop of `TransitionCurationEligibility`. -/
def shiftContribution (owner : Addr) (after : Bool) (s : CurationState) (slug : Slug) :
    Except ChainError CurationState :=
  match s.getPreference owner slug with
  | none => .error (.joinPreferenceMissing owner slug)
  | some pref =>
    if after then addSubscriberContribution s slug pref
    else removeSubscriberContribution s slug pref

def transitionCurationEligibility (rules : TextRules) (p : Params) (height : ℤ)
    (profiles : Profiles) (s : CurationState) (owner : Addr) (before after : Bool) :
    Except ChainError CurationState :=
  if before = after then .ok s
  else do
    let s ← (s.joinedCommunities owner).foldlM (shiftContribution owner after) s
    if after then return s
    else do
      let s ← clearPendingInvitationsForTarget s owner
      (s.teamUser.slice owner).entries.foldlM
        (fun s m => removeCurationMembership rules p height profiles s owner m.1 m.2) s

/-! ## 6. Teams -/

/-- The next team number of a community. -/
def CurationState.nextTeamId (s : CurationState) (slug : Slug) : ℕ :=
  if s.teamNext.count slug = 0 then 1 else s.teamNext.count slug

def createCurationTeam (rules : TextRules) (p : Params) (height : ℤ) (profiles : Profiles)
    (s : CurationState) (owner : Addr) (slug : Slug) (name : Name) (description : Text) :
    Except ChainError CurationState := do
  liftText (rules.communitySlug p slug)
  liftText (rules.teamName p name)
  let description ← liftText (rules.teamDescription p description)
  match profiles.get owner with
  | none => .error .createIneligible
  | some core => do
    failIf (¬ canCurate core) .createIneligible
    failIf (s.teamUser.has (toLex (owner, slug))) .alreadyCurator
    failIf (s.teamName.has (toLex (slug, rules.teamNameKey name))) .teamNameUsed
    match p.getTierConfig core.level with
    | none => .error .tierConfigMissing
    | some tier => do
      failIf (s.teamUserCount.count owner ≥ tier.maxCurationMemberships) .membershipCap
      let next := s.nextTeamId slug
      let nextID ← liftCore (checkedAddUint64 next 1)
      let teamUserCount ← addCheckedU32 s.teamUserCount owner 1
      let team : CurationTeam := {
        community := slug
        teamId := next
        owner := owner
        name := name
        description := description
        createdHeight := height
        createdOrder := next
        nextMemberOrder := 2
        subscriberCount := 0
        deletedHeight := 0
        tag := 0
        subscriberOnly := false }
      let s : CurationState := { s with
        teamNext := s.teamNext.set slug nextID
        teams := s.teams.set (toLex (slug, next)) team
        members := s.members.set (rosterKey slug next owner) ⟨owner, 1⟩
        teamUser := s.teamUser.set (toLex (owner, slug)) next
        teamUserCount := teamUserCount
        teamName := s.teamName.set (toLex (slug, rules.teamNameKey name)) next }
      let s ← joinCommunity rules p s owner slug (uint32 tier.maxJoinedCommunities)
      setCurationPreference s owner slug 1 next (canCurate core)

def inviteCurator (p : Params) (profiles : Profiles) (s : CurationState) (actor : Addr)
    (slug : Slug) (team : ℕ) (target : Addr) : Except ChainError CurationState :=
  match s.liveTeam slug team with
  | none => .error .teamNotFound
  | some t => do
    failIf (t.owner ≠ actor) .inviteNotOwner
    failIf (target = actor) .inviteOwner
    failIf (¬ profiles.eligible target) .inviteeIneligible
    failIf (s.teamUser.has (toLex (target, slug))) .inviteeOccupied
    failIf (s.invites.has (rosterKey slug team target)) .invitePending
    let members ← countTeamMembers s slug team p.maxCuratorsPerTeam
    failIf (members ≥ p.maxCuratorsPerTeam) .teamFull
    let pending ← countTeamInvites s slug team p.maxCuratorsPerTeam
    failIf (pending ≥ p.maxPendingCuratorInvitesPerTeam) .teamInvitesFull
    failIf (members + pending ≥ p.maxCuratorsPerTeam) .teamCapacity
    failIf (s.inviteCount.count target ≥ p.maxPendingCuratorInvitesPerUser) .userInvitesFull
    let inviteCount ← addCheckedU32 s.inviteCount target 1
    return { s with
      invites := s.invites.set (rosterKey slug team target) actor
      inviteRev := s.inviteRev.set (toLex (target, toLex (slug, team))) ()
      inviteCount := inviteCount }

def acceptCuratorInvite (rules : TextRules) (p : Params) (profiles : Profiles) (s : CurationState)
    (actor : Addr) (slug : Slug) (team : ℕ) : Except ChainError CurationState := do
  failIf (¬ s.invites.has (rosterKey slug team actor)) .noInvitation
  match s.liveTeam slug team with
  | none => .error .teamNotFound
  | some t =>
    match profiles.get actor with
    | none => .error .actorIneligible
    | some core => do
      failIf (¬ canCurate core) .actorIneligible
      failIf (s.teamUser.has (toLex (actor, slug))) .alreadyCurator
      match p.getTierConfig core.level with
      | none => .error .tierConfigMissing
      | some tier => do
        failIf (s.teamUserCount.count actor ≥ tier.maxCurationMemberships) .membershipCap
        let members ← countTeamMembers s slug team p.maxCuratorsPerTeam
        failIf (members ≥ p.maxCuratorsPerTeam) .teamFull
        let s ← joinCommunity rules p s actor slug (uint32 tier.maxJoinedCommunities)
        failIf (t.nextMemberOrder = 0) .memberOrderZero
        let nextOrder ← liftCore (checkedAddUint64 t.nextMemberOrder 1)
        let teamUserCount ← addCheckedU32 s.teamUserCount actor 1
        let s := s.setCurationTeam { t with nextMemberOrder := nextOrder }
        clearInvite { s with
          members := s.members.set (rosterKey slug team actor) ⟨actor, t.nextMemberOrder⟩
          teamUser := s.teamUser.set (toLex (actor, slug)) team
          teamUserCount := teamUserCount } slug team actor

/-- `requireTeamActor` with `ownerOnly`. -/
def requireTeamOwner (profiles : Profiles) (s : CurationState) (actor : Addr) (slug : Slug)
    (team : ℕ) : Except ChainError CurationTeam :=
  match s.liveTeam slug team with
  | none => .error .teamNotFound
  | some t => do
    failIf (¬ profiles.eligible actor) .actorIneligible
    failIf (t.owner ≠ actor) .notTeamOwner
    return t

/-- `requireTeamActor` without `ownerOnly`. -/
def requireTeamCurator (profiles : Profiles) (s : CurationState) (actor : Addr) (slug : Slug)
    (team : ℕ) : Except ChainError CurationTeam :=
  match s.liveTeam slug team with
  | none => .error .teamNotFound
  | some t => do
    failIf (¬ profiles.eligible actor) .actorIneligible
    failIf (¬ s.members.has (rosterKey slug team actor)) .notTeamCurator
    return t

def isCommunityCurator (s : CurationState) (actor : Addr) (slug : Slug) : Except ChainError Bool :=
  match s.teamUser.get (toLex (actor, slug)) with
  | none => .ok false
  | some team =>
    match s.getCurationTeam slug team with
    | none => .error (.membershipTeamMissing slug team)
    | some t => .ok t.live

def updateCurationTeamProfile (rules : TextRules) (p : Params) (profiles : Profiles)
    (s : CurationState) (actor : Addr) (slug : Slug) (team : ℕ) (name : Name) (description : Text) :
    Except ChainError CurationState := do
  let t ← requireTeamOwner profiles s actor slug team
  liftText (rules.teamName p name)
  let description ← liftText (rules.teamDescription p description)
  let oldNorm := rules.teamNameKey t.name
  let newNorm := rules.teamNameKey name
  let t' : CurationTeam := { t with name := name, description := description }
  if oldNorm ≠ newNorm then do
    failIf (s.teamName.has (toLex (slug, newNorm))) .teamNameUsed
    let names := (s.teamName.erase (toLex (slug, oldNorm))).set (toLex (slug, newNorm)) team
    return ({ s with teamName := names }).setCurationTeam t'
  else return s.setCurationTeam t'

def setCurationTeamOwner (profiles : Profiles) (s : CurationState) (slug : Slug) (team : ℕ)
    (newOwner : Addr) : Except ChainError CurationState :=
  match s.liveTeam slug team with
  | none => .error .teamNotFound
  | some t => do
    failIf (newOwner = t.owner) .alreadyTeamOwner
    failIf (¬ profiles.eligible newOwner) .newOwnerIneligible
    failIf (¬ s.members.has (rosterKey slug team newOwner)) .newOwnerNotCurator
    return s.setCurationTeam { t with owner := newOwner }

def transferCurationTeamOwner (profiles : Profiles) (s : CurationState) (actor : Addr) (slug : Slug)
    (team : ℕ) (newOwner : Addr) : Except ChainError CurationState := do
  let _ ← requireTeamOwner profiles s actor slug team
  setCurationTeamOwner profiles s slug team newOwner

def setCurationTeamTag (s : CurationState) (slug : Slug) (team : ℕ) (tag : Text) :
    Except ChainError CurationState :=
  match s.liveTeam slug team with
  | none => .error .teamNotFound
  | some t => .ok (s.setCurationTeam { t with tag := tag })

def maxThreadLockWindows : ℕ := 100

/-! ## 7. Bans, hidden posts and locks -/

def setCurationActionHiddenPost (s : CurationState) (slug : Slug) (team : ℕ) (hash : Hash)
    (actor : Addr) (hidden : Bool) : CurationState :=
  if hidden then
    { s with hiddenPosts := s.hiddenPosts.set (toLex (slug, toLex (team, hash))) actor }
  else { s with hiddenPosts := s.hiddenPosts.erase (toLex (slug, toLex (team, hash))) }

def setCurationPostTag (height : ℤ) (s : CurationState) (slug : Slug) (team : ℕ) (hash : Hash)
    (tag : Text) (actor : Addr) (clear : Bool) : CurationState :=
  if clear then { s with postTags := s.postTags.erase (toLex (slug, toLex (team, hash))) }
  else
    { s with postTags := s.postTags.set (toLex (slug, toLex (team, hash))) ⟨tag, actor, height⟩ }

/-- `SetCurationThreadLocked`, with the current post sequence. -/
def setCurationThreadLocked (postSeq : ℕ) (s : CurationState) (slug : Slug) (team : ℕ) (root : Hash)
    (locked : Bool) : Except ChainError CurationState :=
  let key := toLex (slug, toLex (team, root))
  match locked, s.threadLocks.has key with
  | true, true => .ok s
  | true, false => do
    failIf (s.threadLockCount.count key ≥ maxThreadLockWindows) .threadLockLimit
    return { s with
      threadLockCount := s.threadLockCount.set key (s.threadLockCount.count key + 1)
      threadLocks := s.threadLocks.set key postSeq }
  | false, true => .ok { s with threadLocks := s.threadLocks.erase key }
  | false, false => .ok s

def setCurationActionHiddenUser (s : CurationState) (slug : Slug) (team : ℕ) (target actor : Addr)
    (hidden : Bool) : CurationState :=
  if hidden then
    { s with hiddenUsers := s.hiddenUsers.set (rosterKey slug team target) actor }
  else { s with hiddenUsers := s.hiddenUsers.erase (rosterKey slug team target) }

/-- The team whose lens a joined user looks through, in `RerouteBannedUserPreference`. -/
def currentTeam (s : CurationState) (slug : Slug) (target : Addr) (pref : CommunityPreference)
    (bannedTeam : ℕ) : ℕ :=
  let pinned := if (s.countedTeam slug pref).isSome then pref.pinnedTeamId else 0
  if pinned = 0 then
    match bestCurationTeamForUser s slug target bannedTeam with
    | some t => t.teamId
    | none => 0
  else pinned

def rerouteBannedUserPreference (profiles : Profiles) (s : CurationState) (slug : Slug)
    (bannedTeam : ℕ) (target : Addr) : Except ChainError CurationState :=
  match s.getPreference target slug with
  | none => .ok s
  | some pref =>
    if pref.mode = .raw then .ok s
    else if currentTeam s slug target pref bannedTeam ≠ bannedTeam then .ok s
    else match profiles.get target with
      | none => .error (.joinedProfileMissing target)
      | some core =>
        match bestCurationTeamForUser s slug target 0 with
        | none => setCurationPreference s target slug 2 0 (canCurate core)
        | some next => setCurationPreference s target slug 1 next.teamId (canCurate core)

end MirageNode
