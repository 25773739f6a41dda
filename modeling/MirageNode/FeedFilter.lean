import MirageNode.BanLens
import MirageNode.Lib.Batched
import MirageNode.ThreadLocks

/-!
# The feed filter

`filter_posts` of `web/backend/curation.py` decides which posts of a list a viewer sees. It reads
the metadata of all posts with one query and goes over them twice: the first pass decides what
needs no team and resolves one lens per community; for the other posts the moderation of their
teams is loaded in four queries, and the second pass decides them. A verdict is written into the
slot of its post.

The filter of two lists in a row is the filter of one followed by the filter of the other
(`feed_filtered_post_by_post`): every post gets the verdict it gets alone (`verdict`), and the
kept posts are in the order of the list.
-/

namespace MirageNode

open Fallible Batched List

/-! ## 1. Tables and lenses -/

/-- A row of `posts`, the columns that the filter reads. -/
structure PostRow where
  txhash : WebText
  owner : WebText
  /-- `none` where the column is null or empty. -/
  community : Option Slug
  protocolVersion : ℤ
  rootTxhash : Option WebText
  rootPostId : Option WebText
  postSequence : Option ℕ
  wasSubscriberAtCreation : Option Bool

/-- A row of `curation_hidden_posts`. -/
structure HiddenPostRow where
  community : Slug
  teamId : ℕ
  targetTxhash : WebText

/-- A row of `curation_locks`; nothing says that a window has two ends. -/
structure ThreadLockRow where
  community : Slug
  teamId : ℕ
  rootTxhash : WebText
  lockSequence : Option ℕ
  lockWindows : Option (List (List ℕ))

/-- A row of `community_curation_preferences`. -/
structure PreferenceRow where
  owner : WebText
  community : Slug
  mode : ℤ
  pinnedTeamId : Option ℕ

structure FeedTables extends Tables where
  posts : List PostRow
  hiddenPosts : List HiddenPostRow
  locks : List ThreadLockRow
  preferences : List PreferenceRow

/-- `LOWER` on the names of communities. -/
structure SlugCase where
  lower : Slug → Slug
  lower_lower : ∀ slug, lower (lower slug) = lower slug

inductive FilterError where
  | scope
  | invalidLens
  | teamLensRequiresTeamId
  | teamIdOnlyWithTeamLens
  | teamNotFound
  | missingPostId
  | metadataIncomplete
  | missingCurationMetadata (postId : WebText)
  | missingCommunity (postId : WebText)
  | malformedWindow (window : List ℕ)
deriving DecidableEq, Repr

def modeLiveDefault : ℤ := 0

def modePinned : ℤ := 1

def modeRaw : ℤ := 2

/-- What `resolve_lens` returns; the stored preference is filled in by the effective lens only. -/
structure ResolvedLens where
  requestedLens : WebText
  effectiveMode : ℤ
  effectiveTeamId : Option ℕ
  storedMode : Option ℤ := none
  storedTeamId : Option ℕ := none
  defaultTeam : Option TeamView
deriving DecidableEq, Repr

namespace FeedTables

variable (db : FeedTables)

/-- The query for a live team. -/
def liveTeam (community : Slug) (teamId : ℕ) : Bool :=
  db.teams.any fun t => t.community = community && t.teamId = teamId && t.deletedHeight = none

/-- The query for a ban. -/
def bans (community : Slug) (teamId : ℕ) (address : WebText) : Bool :=
  db.hiddenUsers.any fun h =>
    h.community = community && h.teamId = teamId && lower h.targetUser = address

/-- The branch of `resolve_lens` for the lens that the viewer has stored. -/
def effectiveLens (address : WebText) (community : Slug) (requestedLens : WebText)
    (defaultTeam : Option TeamView) : ResolvedLens :=
  let pref := if address = [] then none else db.preferences.find? fun p =>
    lower p.owner = address && p.community = community
  let storedMode := pref.map PreferenceRow.mode
  let storedTeamId := pref.bind PreferenceRow.pinnedTeamId
  let fallback := match defaultTeam with
    | some team => (modeLiveDefault, some team.teamId)
    | none => (modeRaw, none)
  let (mode, team) :=
    if storedMode = some modeRaw then (modeRaw, none)
    else if storedMode = some modePinned then
      match storedTeamId with
      | some id =>
        if db.liveTeam community id && !db.bans community id address then (modePinned, some id)
        else fallback
      | none => fallback
    else fallback
  ⟨requestedLens, mode, team, storedMode, storedTeamId, defaultTeam⟩

def resolveLens (viewer : WebText) (community : Slug) (requestedLens : WebText)
    (requestedTeamId : Option ℤ) : Except FilterError ResolvedLens := do
  let lens := lower (strip (if requestedLens = [] then "effective".toList else requestedLens))
  failIf (lens ∉ ["effective", "default", "team", "raw"].map String.toList) .invalidLens
  failIf (lens = "team".toList ∧ requestedTeamId.getD 0 ≤ 0) .teamLensRequiresTeamId
  failIf (lens ≠ "team".toList ∧ requestedTeamId ≠ none) .teamIdOnlyWithTeamLens
  let address := viewerAddress (some viewer)
  let defaultTeam := getDefaultTeam db.toTables community (some address)
  let orRaw (mode : ℤ) : ResolvedLens := match defaultTeam with
    | some team => ⟨lens, mode, some team.teamId, none, none, defaultTeam⟩
    | none => ⟨lens, modeRaw, none, none, none, none⟩
  if lens = "raw".toList then return ⟨lens, modeRaw, none, none, none, defaultTeam⟩
  else if lens = "team".toList then
    let id := (requestedTeamId.getD 0).toNat
    failIf (db.liveTeam community id = false) .teamNotFound
    -- a banned viewer gets the default team pinned instead
    if address ≠ [] ∧ db.bans community id address then return orRaw modePinned
    else return ⟨lens, modePinned, some id, none, none, defaultTeam⟩
  else if lens = "default".toList then return orRaw modeLiveDefault
  else return db.effectiveLens address community lens defaultTeam

end FeedTables

/-! ## 2. Visibility -/

inductive HideReason where
  | nodePolicy
  | deleted
  | personalBlock
  | raw
  | teamHiddenPost
  | teamHiddenAuthor
  | subscriberOnly
  | threadLocked
  | ok
deriving DecidableEq, Repr

/-- What `resolve_visibility` is asked. -/
structure VisibilityQuery where
  postSequence : Option ℕ
  wasSubscriberAtCreation : Bool
  deleted : Bool := false
  viewerBlocksAuthor : Bool := false
  viewerBlocksPost : Bool := false
  viewerBlocksCommunity : Bool := false
  storedMode : Option ℤ
  storedTeamId : Option ℕ
  defaultTeamId : Option ℕ
  teamHiddenPost : Bool
  teamHiddenAuthor : Bool
  teamSubscriberOnly : Bool
  lockWindows : List (ℕ × Option ℕ)
  temporaryRaw : Bool := false
  nodeBlocked : Bool := false

structure Visibility where
  visible : Bool
  tombstone : Bool
  reason : HideReason
  effectiveMode : Option ℤ
  effectiveTeamId : Option ℕ
deriving DecidableEq, Repr

/-- The test of an optional number by its truth value: a missing one and zero are false. -/
def truthy (id : Option ℕ) : Option ℕ := id.filter (· ≠ 0)

/-- `_effective_lens`. -/
def effectiveLensOf (storedMode : Option ℤ) (storedTeamId defaultTeamId : Option ℕ) :
    ℤ × Option ℕ :=
  if storedMode = some modeRaw then (modeRaw, none)
  else if storedMode = some modePinned ∧ truthy storedTeamId ≠ none then (modePinned, storedTeamId)
  else if truthy defaultTeamId ≠ none then (modeLiveDefault, defaultTeamId)
  else (modeRaw, none)

def resolveVisibility (q : VisibilityQuery) : Visibility :=
  if q.nodeBlocked then ⟨false, false, .nodePolicy, q.storedMode, q.storedTeamId⟩
  else if q.deleted then ⟨false, true, .deleted, q.storedMode, q.storedTeamId⟩
  else if q.viewerBlocksCommunity || q.viewerBlocksPost || q.viewerBlocksAuthor then
    ⟨false, false, .personalBlock, q.storedMode, q.storedTeamId⟩
  else
    let (mode, team) := effectiveLensOf q.storedMode q.storedTeamId q.defaultTeamId
    if q.temporaryRaw ∨ mode = modeRaw ∨ truthy team = none then
      ⟨true, false, .raw, some (if q.temporaryRaw then modeRaw else mode), none⟩
    else if q.teamHiddenPost then ⟨false, true, .teamHiddenPost, some mode, team⟩
    else if q.teamHiddenAuthor then ⟨false, true, .teamHiddenAuthor, some mode, team⟩
    else if q.teamSubscriberOnly && !q.wasSubscriberAtCreation then
      ⟨false, true, .subscriberOnly, some mode, team⟩
    else if q.postSequence.any (insideLockWindow · q.lockWindows) then
      ⟨false, true, .threadLocked, some mode, team⟩
    else ⟨true, false, .ok, some mode, team⟩

/-- `_lock_windows` on a row as the database has it. -/
def lockWindowsOf (lockSequence : Option ℕ) (lockWindows : Option (List (List ℕ))) :
    Except FilterError (List (ℕ × Option ℕ)) := do
  let closed ← (lockWindows.getD []).mapM fun
    | [start, stop] => .ok (start, some stop)
    | window => .error (.malformedWindow window)
  return closed ++ lockSequence.toList.map (·, none)

/-! ## 3. The filter -/

/-- `post["lens"]`. -/
structure LensStamp where
  requested : WebText
  effectiveMode : Option ℤ
  effectiveTeamId : Option ℕ
deriving DecidableEq, Repr

/-- A serialized post: its id, what the filter writes into it, and the rest. -/
structure FeedPost (α : Type) where
  postId : WebText
  protocolVersion : Option ℤ := none
  lens : Option LensStamp := none
  threadLocked : Option Bool := none
  rest : α
deriving DecidableEq, Repr

/-- A tombstone; its other two entries are constant. -/
structure Tombstone where
  postId : WebText
  reason : HideReason
deriving DecidableEq, Repr

structure FilterRequest where
  viewer : Option WebText
  requestedLens : WebText
  requestedTeamId : Option ℤ
  scope : WebText
  direct : Bool
  communityLenses : Slug → Option (WebText × Option ℤ)

/-- The metadata of a post. -/
structure PostMeta where
  author : WebText
  community : Option Slug
  protocolVersion : ℤ
  rootTxhash : WebText
  postSequence : Option ℕ
  wasSubscriberAtCreation : Option Bool

variable {α : Type}

/-- The id by which a post is looked up. -/
def FeedPost.key (post : FeedPost α) : WebText := lower (strip post.postId)

/-- A post that waits for the moderation of its team. -/
structure PendingPost (α : Type) where
  post : FeedPost α
  postId : WebText
  info : PostMeta
  resolved : ResolvedLens
  community : Slug
  teamId : ℕ

/-- The collections that `_load_team_moderation` returns. -/
structure TeamModeration where
  hiddenPosts : List (Slug × ℕ × WebText)
  hiddenUsers : List (Slug × ℕ × WebText)
  subscriberOnly : List ((Slug × ℕ) × Bool)
  locks : List ((Slug × ℕ × WebText) × Option ℕ × Option (List (List ℕ)))

/-- The row that the moderation query gets for a post: community, team, post, author, root. -/
structure ModerationKey where
  community : Slug
  teamId : ℕ
  postId : WebText
  author : WebText
  root : WebText

def PendingPost.moderationKey (p : PendingPost α) : ModerationKey :=
  ⟨p.community, p.teamId, p.postId, p.info.author, p.info.rootTxhash⟩

namespace ModerationKey

def ofPost (k : ModerationKey) : Slug × ℕ × WebText := (k.community, k.teamId, k.postId)

def ofAuthor (k : ModerationKey) : Slug × ℕ × WebText := (k.community, k.teamId, k.author)

def ofTeam (k : ModerationKey) : Slug × ℕ := (k.community, k.teamId)

def ofRoot (k : ModerationKey) : Slug × ℕ × WebText := (k.community, k.teamId, k.root)

end ModerationKey

/-- What the second pass reads for a post out of the collections. -/
structure PostModeration where
  hiddenPost : Bool
  hiddenAuthor : Bool
  subscriberOnly : Bool
  lock : Option ℕ × Option (List (List ℕ))

def TeamModeration.of (m : TeamModeration) (k : ModerationKey) : PostModeration where
  hiddenPost := k.ofPost ∈ m.hiddenPosts
  hiddenAuthor := k.ofAuthor ∈ m.hiddenUsers
  subscriberOnly := (dictGet m.subscriberOnly k.ofTeam).getD false
  lock := (dictGet m.locks k.ofRoot).getD (none, none)

section Filter

variable (c : SlugCase) (db : FeedTables) (req : FilterRequest)

def PostRow.meta (row : PostRow) : PostMeta where
  author := lower row.owner
  community := row.community.map c.lower
  protocolVersion := row.protocolVersion
  rootTxhash := lower ((row.rootTxhash.or row.rootPostId).getD row.txhash)
  postSequence := row.postSequence
  wasSubscriberAtCreation := row.wasSubscriberAtCreation

/-- The metadata query for the posts with the given ids. -/
def loadMetadata (ids : List WebText) : List (WebText × PostMeta) :=
  (select (fun row : PostRow => lower row.txhash) ids db.posts).map fun row =>
    (lower row.txhash, row.meta c)

/-- How a triple of community, team and text is spelled in the answer of a query. -/
def spelled (k : Slug × ℕ × WebText) : Slug × ℕ × WebText := (c.lower k.1, k.2.1, lower k.2.2)

def HiddenPostRow.triple (row : HiddenPostRow) : Slug × ℕ × WebText :=
  (row.community, row.teamId, lower row.targetTxhash)

def HiddenUserRow.triple (row : HiddenUserRow) : Slug × ℕ × WebText :=
  (row.community, row.teamId, lower row.targetUser)

def ThreadLockRow.triple (row : ThreadLockRow) : Slug × ℕ × WebText :=
  (row.community, row.teamId, lower row.rootTxhash)

def TeamRow.pair (row : TeamRow) : Slug × ℕ := (row.community, row.teamId)

def loadTeamModeration (pending : List ModerationKey) : TeamModeration where
  hiddenPosts := (select HiddenPostRow.triple (pending.map (·.ofPost)) db.hiddenPosts).map
    fun row => spelled c row.triple
  hiddenUsers := (select HiddenUserRow.triple (pending.map (·.ofAuthor)) db.hiddenUsers).map
    fun row => spelled c row.triple
  subscriberOnly := (select TeamRow.pair (pending.map (·.ofTeam)).eraseDups
    (db.teams.filter fun row => row.deletedHeight = none)).map
      fun row => ((c.lower row.pair.1, row.pair.2), row.subscriberOnly)
  locks := (select ThreadLockRow.triple (pending.map (·.ofRoot)).eraseDups db.locks).map
    fun row => (spelled c row.triple, row.lockSequence, row.lockWindows)

/-- `_requested_lens_for`, and the lens it asks for. -/
def lensFor (community : Slug) : Except FilterError ResolvedLens :=
  let (lens, teamId) := (req.communityLenses community).getD
    (req.requestedLens, req.requestedTeamId)
  db.resolveLens (lower (strip (req.viewer.getD []))) community lens teamId

/-- The lens from the cache, or resolved and added to it. -/
def cachedLens (lenses : List (Slug × ResolvedLens)) (community : Slug) :
    Except FilterError (ResolvedLens × List (Slug × ResolvedLens)) :=
  match lenses.find? (·.1 = community) with
  | some entry => .ok (entry.2, lenses)
  | none => do
    let resolved ← lensFor db req community
    return (resolved, (community, resolved) :: lenses)

/-- The first pass up to the lens: a slot, or the community whose lens decides. -/
def beforeLens (post : FeedPost α) (postId : WebText) (info : PostMeta) :
    Except FilterError (Option (FeedPost α) ⊕ Slug) :=
  if req.scope = "legacy".toList then
    .ok (.inl (if info.protocolVersion ≠ 0 then none else some post))
  else if info.protocolVersion = 1 ∧
      (info.postSequence = none ∨ info.wasSubscriberAtCreation = none) then
    .error (.missingCurationMetadata postId)
  else
    match info.community with
    | none =>
      if info.protocolVersion = 1 then .error (.missingCommunity postId)
      else .ok (.inl (some { post with
        lens := some ⟨req.requestedLens, some modeRaw, none⟩, threadLocked := some false }))
    | some community => .ok (.inr community)

/-- The first pass after the lens. -/
def afterLens (post : FeedPost α) (postId : WebText) (info : PostMeta) (community : Slug)
    (resolved : ResolvedLens) : Option (FeedPost α) ⊕ PendingPost α :=
  match resolved.effectiveTeamId with
  | none => .inl (some { post with
      lens := some ⟨resolved.requestedLens, some modeRaw, none⟩, threadLocked := some false })
  | some teamId => .inr ⟨post, postId, info, resolved, community, teamId⟩

/-- The state of the first pass. -/
structure ScanState (α : Type) where
  lenses : List (Slug × ResolvedLens)
  kept : List (Option (FeedPost α))
  pending : List (ℕ × PendingPost α)

def ScanState.record (st : ScanState α) (lenses : List (Slug × ResolvedLens)) (index : ℕ) :
    Option (FeedPost α) ⊕ PendingPost α → ScanState α
  | .inl slot => ⟨lenses, st.kept.set index slot, st.pending⟩
  | .inr p => ⟨lenses, st.kept, st.pending ++ [(index, p)]⟩

/-- One post of the first pass. -/
def scanPost (metadata : List (WebText × PostMeta)) (st : ScanState α) (entry : FeedPost α × ℕ) :
    Except FilterError (ScanState α) := do
  let postId := entry.1.key
  let info ← (dictGet metadata postId).elim (.error .metadataIncomplete) .ok
  let post := { entry.1 with protocolVersion := some info.protocolVersion }
  match ← beforeLens req post postId info with
  | .inl slot => return st.record st.lenses entry.2 (.inl slot)
  | .inr community =>
    let (resolved, lenses) ← cachedLens db req st.lenses community
    return st.record lenses entry.2 (afterLens post postId info community resolved)

/-- One post of the second pass: the post if it is kept, and its tombstone. -/
def settlePost (moderation : TeamModeration) (p : PendingPost α) :
    Except FilterError (Option (FeedPost α) × Option Tombstone) := do
  let found := moderation.of p.moderationKey
  let (lockSequence, lockWindows) := found.lock
  let windows ← lockWindowsOf lockSequence lockWindows
  let visibility := resolveVisibility
    { postSequence := p.info.postSequence
      wasSubscriberAtCreation := p.info.wasSubscriberAtCreation.getD false
      storedMode := some p.resolved.effectiveMode
      storedTeamId := some p.teamId
      defaultTeamId := some p.teamId
      teamHiddenPost := found.hiddenPost
      teamHiddenAuthor := found.hiddenAuthor
      teamSubscriberOnly := found.subscriberOnly
      lockWindows := windows }
  let post := { p.post with
    lens := some ⟨p.resolved.requestedLens, visibility.effectiveMode, visibility.effectiveTeamId⟩
    threadLocked := some lockSequence.isSome }
  return (if visibility.visible then some post else none,
    if !visibility.visible && req.direct && visibility.tombstone then
      some ⟨p.postId, visibility.reason⟩
    else none)

def filterPosts (posts : List (FeedPost α)) :
    Except FilterError (List (FeedPost α) × List Tombstone) := do
  failIf (req.scope ≠ "current".toList ∧ req.scope ≠ "legacy".toList) .scope
  if posts.isEmpty then return ([], [])
  else do
    let ids := posts.map FeedPost.key
    failIf (∃ id ∈ ids, id.length ≠ 64) .missingPostId
    let metadata := loadMetadata c db ids
    failIf (¬ (metadata.map Prod.fst ⊆ ids ∧ ids ⊆ metadata.map Prod.fst)) .metadataIncomplete
    let scan ← posts.zipIdx.foldlM (scanPost db req metadata)
      ⟨[], List.replicate posts.length none, []⟩
    let moderation := loadTeamModeration c db (scan.pending.map fun item => item.2.moderationKey)
    let (kept, tombstones) ← scan.pending.foldlM (settleStep (settlePost req moderation))
      (scan.kept, [])
    return (kept.reduceOption, tombstones)

/-! ## 4. One post alone -/

/-- The first pass on a post, without the cache and with its own metadata only. -/
def scanAlone (post : FeedPost α) : Except FilterError (Option (FeedPost α) ⊕ PendingPost α) := do
  let postId := post.key
  let info ← (dictGet (loadMetadata c db [postId]) postId).elim (.error .metadataIncomplete) .ok
  let post := { post with protocolVersion := some info.protocolVersion }
  match ← beforeLens req post postId info with
  | .inl slot => return .inl slot
  | .inr community => return afterLens post postId info community (← lensFor db req community)

/-- The second pass on a post, with its own moderation only. -/
def settleAlone (p : PendingPost α) : Except FilterError (Option (FeedPost α) × Option Tombstone) :=
  settlePost req (loadTeamModeration c db [p.moderationKey]) p

/-- What the filter makes of a post by itself. -/
def verdict (post : FeedPost α) : Except FilterError (Option (FeedPost α) × Option Tombstone) := do
  failIf (post.key.length ≠ 64) .missingPostId
  scanAlone c db req post >>= finish (settleAlone c db req)

end Filter

theorem toLower_toLower (ch : Char) : ch.toLower.toLower = ch.toLower := by
  unfold Char.toLower
  split
  next h =>
    rw [dif_neg]
    simp only [ge_iff_le, not_and]
    intro _ _
    have := h.2
    grind
  next => rfl

theorem lower_lower (t : WebText) : lower (lower t) = lower t := by
  rw [lower, lower, map_map]
  exact map_congr_left fun ch _ => toLower_toLower ch

variable {c : SlugCase} {db : FeedTables} {req : FilterRequest}

/-- Every lens in the cache is the one that would be resolved. -/
def LensesAgree (db : FeedTables) (req : FilterRequest)
    (lenses : List (Slug × ResolvedLens)) : Prop :=
  ∀ entry ∈ lenses, lensFor db req entry.1 = .ok entry.2

theorem cachedLens_eq {lenses : List (Slug × ResolvedLens)} (h : LensesAgree db req lenses)
    (community : Slug) :
    ∃ lenses', LensesAgree db req lenses' ∧
      cachedLens db req lenses community = (lensFor db req community).map (·, lenses') := by
  unfold cachedLens
  cases hfind : lenses.find? (·.1 = community) with
  | some entry =>
    have hkey : entry.1 = community := by simpa using List.find?_some hfind
    refine ⟨lenses, h, ?_⟩
    rw [← hkey, h entry (mem_of_find?_eq_some hfind)]
    rfl
  | none =>
    cases hlens : lensFor db req community with
    | error e => exact ⟨lenses, h, rfl⟩
    | ok resolved =>
      exact ⟨(community, resolved) :: lenses, forall_mem_cons.mpr ⟨hlens, h⟩, rfl⟩

variable {post : FeedPost α} {metadata : List (WebText × PostMeta)}

/-- A post of the first pass is recorded as it is scanned alone. -/
theorem scanPost_eq {st : ScanState α}
    (hmeta : dictGet metadata post.key = dictGet (loadMetadata c db [post.key]) post.key)
    (h : LensesAgree db req st.lenses) (index : ℕ) :
    ∃ lenses, LensesAgree db req lenses ∧ scanPost db req metadata st (post, index) =
      (scanAlone c db req post).map (st.record lenses index) := by
  simp only [scanPost, scanAlone, hmeta]
  cases dictGet (loadMetadata c db [post.key]) post.key with
  | none => exact ⟨st.lenses, h, rfl⟩
  | some info =>
    simp only [Option.elim_some, ok_bind]
    cases beforeLens req { post with protocolVersion := some info.protocolVersion } post.key
        info with
    | error e => exact ⟨st.lenses, h, rfl⟩
    | ok early =>
      cases early with
      | inl slot => exact ⟨st.lenses, h, rfl⟩
      | inr community =>
        obtain ⟨lenses, hlenses, hcached⟩ := cachedLens_eq h community
        refine ⟨lenses, hlenses, ?_⟩
        simp only [ok_bind, hcached]
        cases lensFor db req community <;> rfl

variable {posts : List (FeedPost α)}

/-- The first pass leaves the slots it can fill filled and the other posts put off. -/
theorem foldlM_scan
    (hmeta : ∀ post ∈ posts,
      dictGet metadata post.key = dictGet (loadMetadata c db [post.key]) post.key)
    (pre : List (Option (FeedPost α))) (st : ScanState α) (h : LensesAgree db req st.lenses)
    (hkept : st.kept = pre ++ List.replicate posts.length none) :
    ((posts.zipIdx pre.length).foldlM (scanPost db req metadata) st).map
        (fun st => (st.kept, st.pending)) =
      (posts.mapM (scanAlone c db req)).map fun ss =>
        (pre ++ ss.map slot, st.pending ++ putOff pre.length ss) := by
  induction posts generalizing pre st with
  | nil =>
    simp only [zipIdx_nil, foldlM_nil, mapM_nil]
    exact congrArg Except.ok (by simp [hkept, putOff])
  | cons post posts ih =>
    obtain ⟨hpost, hposts⟩ := forall_mem_cons.mp hmeta
    obtain ⟨lenses, hlenses, hstep⟩ := scanPost_eq hpost h pre.length
    rw [zipIdx_cons, foldlM_cons, mapM_cons, hstep]
    cases scanAlone c db req post with
    | error e => rfl
    | ok s =>
      have hnext : (st.record lenses pre.length s).kept =
          (pre ++ [slot s]) ++ List.replicate posts.length none := by
        cases s <;> simp [ScanState.record, hkept, slot, replicate_succ]
      have hlen : pre.length + 1 = (pre ++ [slot s]).length := by simp
      have hrest := ih hposts (pre ++ [slot s]) (st.record lenses pre.length s)
        (by cases s <;> exact hlenses) hnext
      rw [← hlen] at hrest
      refine hrest.trans ?_
      rw [ok_bind]
      cases posts.mapM (scanAlone c db req) with
      | error e => rfl
      | ok ss => exact congrArg Except.ok (by cases s <;> simp [ScanState.record, putOff, slot])

/-! ## 5. Batched moderation -/

/-- What the filter leaves as it is. -/
def FeedPost.source (post : FeedPost α) : WebText × α := (post.postId, post.rest)

/-- Before the lens a post is kept or dropped, or it has a community. -/
theorem beforeLens_cases {postId : WebText} {info : PostMeta}
    {early : Option (FeedPost α) ⊕ Slug} (h : beforeLens req post postId info = .ok early) :
    (∃ slot, early = .inl slot ∧ ∀ kept, slot = some kept → kept.source = post.source) ∨
      ∃ community, early = .inr community ∧ info.community = some community := by
  rw [beforeLens] at h
  split at h
  next =>
    refine .inl ⟨_, (Except.ok.inj h).symm, fun kept hkept => ?_⟩
    rw [Option.ite_none_left_eq_some] at hkept
    rw [Option.some.inj hkept.2]
  next =>
    split at h
    next => cases h
    next =>
      split at h
      next =>
        split at h
        next => cases h
        next =>
          refine .inl ⟨_, (Except.ok.inj h).symm, fun kept hkept => ?_⟩
          rw [← Option.some.inj hkept]
          rfl
      next community hcommunity =>
        exact .inr ⟨community, (Except.ok.inj h).symm, hcommunity⟩

/-- The spelling in which the database answers. -/
structure ModerationKey.Normal (c : SlugCase) (k : ModerationKey) : Prop where
  community : c.lower k.community = k.community
  postId : lower k.postId = k.postId
  author : lower k.author = k.author
  root : lower k.root = k.root

/-- A post put off is asked for in that spelling. -/
theorem normal_of_scanAlone {p : PendingPost α}
    (h : scanAlone c db req post = .ok (.inr p)) : p.moderationKey.Normal c := by
  simp only [scanAlone, bind_eq_ok] at h
  obtain ⟨info, hinfo, early, hearly, h⟩ := h
  cases hrow : dictGet (loadMetadata c db [post.key]) post.key with
  | none =>
    rw [hrow] at hinfo
    cases hinfo
  | some found =>
    rw [hrow, Option.elim_some] at hinfo
    obtain rfl := Except.ok.inj hinfo
    obtain ⟨row, -, hpair⟩ := mem_map.mp (mem_of_dictGet hrow)
    obtain ⟨-, rfl⟩ := Prod.mk.inj hpair
    rcases beforeLens_cases hearly with ⟨slot, rfl, -⟩ | ⟨community, rfl, hcommunity⟩
    · simp at h
    · simp only [bind_eq_ok, pure_eq_ok] at h
      obtain ⟨resolved, -, h⟩ := h
      unfold afterLens at h
      split at h
      next => cases h
      next =>
        obtain rfl := Sum.inr.inj h
        obtain ⟨slug, -, rfl⟩ := Option.map_eq_some_iff.mp hcommunity
        exact ⟨c.lower_lower slug, lower_lower _, lower_lower _, lower_lower _⟩

/-- A post's moderation is found in the batch as it would be alone. -/
theorem loadTeamModeration_of {keys : List ModerationKey} (hkeys : ∀ k ∈ keys, k.Normal c)
    {k : ModerationKey} (hk : k ∈ keys) :
    (loadTeamModeration c db keys).of k = (loadTeamModeration c db [k]).of k := by
  have hpost : k.ofPost ∈ (loadTeamModeration c db keys).hiddenPosts ↔
      k.ofPost ∈ (loadTeamModeration c db [k]).hiddenPosts := by
    refine mem_select (f := HiddenPostRow.triple) (forall_mem_map.mpr fun k hk => ?_)
      (mem_map_of_mem hk) db.hiddenPosts
    exact Prod.ext (hkeys k hk).community (Prod.ext rfl (hkeys k hk).postId)
  have hauthor : k.ofAuthor ∈ (loadTeamModeration c db keys).hiddenUsers ↔
      k.ofAuthor ∈ (loadTeamModeration c db [k]).hiddenUsers := by
    refine mem_select (f := HiddenUserRow.triple) (forall_mem_map.mpr fun k hk => ?_)
      (mem_map_of_mem hk) db.hiddenUsers
    exact Prod.ext (hkeys k hk).community (Prod.ext rfl (hkeys k hk).author)
  have hteam : dictGet (loadTeamModeration c db keys).subscriberOnly k.ofTeam =
      dictGet (loadTeamModeration c db [k]).subscriberOnly k.ofTeam := by
    refine dictGet_select (f := TeamRow.pair) (g := fun t => (c.lower t.1, t.2)) (fun t ht => ?_)
      (mem_eraseDups.mpr (mem_map_of_mem hk)) _ TeamRow.subscriberOnly
    obtain ⟨k, hk, rfl⟩ := mem_map.mp (mem_eraseDups.mp ht)
    exact Prod.ext (hkeys k hk).community rfl
  have hroot : dictGet (loadTeamModeration c db keys).locks k.ofRoot =
      dictGet (loadTeamModeration c db [k]).locks k.ofRoot := by
    refine dictGet_select (f := ThreadLockRow.triple) (fun t ht => ?_)
      (mem_eraseDups.mpr (mem_map_of_mem hk)) db.locks _
    obtain ⟨k, hk, rfl⟩ := mem_map.mp (mem_eraseDups.mp ht)
    exact Prod.ext (hkeys k hk).community (Prod.ext rfl (hkeys k hk).root)
  simp only [TeamModeration.of, hpost, hauthor, hteam, hroot]

/-- The moderation loaded for all posts put off settles each of them as its own does. -/
theorem foldlM_settle_batch {ss : List (Option (FeedPost α) ⊕ PendingPost α)}
    (hss : posts.mapM (scanAlone c db req) = .ok ss) :
    (putOff 0 ss).foldlM (settleStep (settlePost req (loadTeamModeration c db
        ((putOff 0 ss).map fun item => item.2.moderationKey)))) (ss.map slot, []) =
      (ss.mapM (finish (settleAlone c db req))).map fun vs =>
        (vs.map Prod.fst, vs.filterMap Prod.snd) := by
  have hnormal : ∀ k ∈ (putOff 0 ss).map fun item => item.2.moderationKey, k.Normal c := by
    refine forall_mem_map.mpr fun item hitem => ?_
    obtain ⟨post, -, hpost⟩ := exists_of_mem_mapM hss (mem_putOff.mp ⟨item.1, hitem⟩)
    exact normal_of_scanAlone hpost
  refine (foldlM_settle _ ss [] []).trans ?_
  rw [mapM_congr_of_mem (g := finish (settleAlone c db req)) fun s hs => ?_]
  · rfl
  · cases s with
    | inl filled => rfl
    | inr p =>
      obtain ⟨i, hi⟩ := mem_putOff.mpr hs
      rw [finish, finish, settleAlone, settlePost, settlePost,
        loadTeamModeration_of hnormal (mem_map_of_mem hi)]

/-! ## 6. The filter, post by post -/

/-- The two passes together give every post the verdict it gets alone. -/
theorem two_passes_eq_ok (c : SlugCase) (db : FeedTables) (req : FilterRequest)
    (hmeta : ∀ post ∈ posts,
      dictGet metadata post.key = dictGet (loadMetadata c db [post.key]) post.key)
    (out : List (Option (FeedPost α)) × List Tombstone) :
    (∃ scan, posts.zipIdx.foldlM (scanPost db req metadata)
        ⟨[], List.replicate posts.length none, []⟩ = .ok scan ∧
      scan.pending.foldlM (settleStep (settlePost req (loadTeamModeration c db
        (scan.pending.map fun item => item.2.moderationKey)))) (scan.kept, []) = .ok out) ↔
      ∃ vs, posts.mapM (fun post => scanAlone c db req post >>= finish (settleAlone c db req)) =
        .ok vs ∧ out = (vs.map Prod.fst, vs.filterMap Prod.snd) := by
  have hempty : LensesAgree db req [] := forall_mem_nil _
  have hscan := foldlM_scan hmeta [] ⟨[], List.replicate posts.length none, []⟩ hempty rfl
  simp only [length_nil, nil_append] at hscan
  simp only [← mapM_mapM_eq_ok]
  constructor
  · rintro ⟨scan, hst, hout⟩
    rw [hst] at hscan
    cases hss : posts.mapM (scanAlone c db req) with
    | error e =>
      rw [hss] at hscan
      cases hscan
    | ok ss =>
      rw [hss] at hscan
      obtain ⟨hkept, hpending⟩ := Prod.mk.inj (Except.ok.inj hscan)
      rw [hkept, hpending, foldlM_settle_batch hss] at hout
      cases hvs : ss.mapM (finish (settleAlone c db req)) with
      | error e =>
        rw [hvs] at hout
        cases hout
      | ok vs =>
        rw [hvs] at hout
        exact ⟨vs, ⟨ss, rfl, hvs⟩, (Except.ok.inj hout).symm⟩
  · rintro ⟨vs, ⟨ss, hss, hvs⟩, rfl⟩
    rw [hss] at hscan
    cases hst : posts.zipIdx.foldlM (scanPost db req metadata)
        ⟨[], List.replicate posts.length none, []⟩ with
    | error e =>
      rw [hst] at hscan
      cases hscan
    | ok scan =>
      rw [hst] at hscan
      obtain ⟨hkept, hpending⟩ := Prod.mk.inj (Except.ok.inj hscan)
      refine ⟨scan, rfl, ?_⟩
      rw [hkept, hpending, foldlM_settle_batch hss, hvs]
      rfl

theorem dictGet_loadMetadata {ids : List WebText} {id : WebText} (hid : id ∈ ids) :
    dictGet (loadMetadata c db ids) id = dictGet (loadMetadata c db [id]) id :=
  dictGet_select (g := fun k => k) (fun _ _ => rfl) hid db.posts _

/-- A verdict needs the metadata of its post. -/
theorem mem_metadata_of_scanAlone {s : Option (FeedPost α) ⊕ PendingPost α}
    (h : scanAlone c db req post = .ok s) :
    dictGet (loadMetadata c db [post.key]) post.key ≠ none := by
  intro hnone
  simp [scanAlone, hnone] at h

theorem mapM_verdict_eq_ok {vs : List (Option (FeedPost α) × Option Tombstone)} :
    posts.mapM (verdict c db req) = .ok vs ↔ (∀ post ∈ posts, post.key.length = 64) ∧
      posts.mapM (fun post => scanAlone c db req post >>= finish (settleAlone c db req)) =
        .ok vs := by
  rw [mapM_eq_ok_iff, mapM_eq_ok_iff, ← forall₂_and_left]
  refine Iff.of_eq (congrArg (List.Forall₂ · posts vs) (funext₂ fun post v => propext ?_))
  rw [verdict, bind_eq_ok]
  simp only [failIf_eq_ok, exists_const, not_not]

/-- The filter succeeds when every post has a verdict, and returns the verdicts in order. -/
theorem filterPosts_eq_ok {r : List (FeedPost α) × List Tombstone} :
    filterPosts c db req posts = .ok r ↔
      (req.scope = "current".toList ∨ req.scope = "legacy".toList) ∧
        ∃ vs, posts.mapM (verdict c db req) = .ok vs ∧
          r = (vs.filterMap Prod.fst, vs.filterMap Prod.snd) := by
  rw [filterPosts, bind_eq_ok]
  simp only [failIf_eq_ok, exists_const, ← not_or, not_not]
  refine and_congr_right fun _ => ?_
  cases posts with
  | nil => simp [pure, Except.pure, eq_comm]
  | cons first rest =>
    generalize hposts : first :: rest = posts
    have hsome : posts.isEmpty = false := by rw [← hposts]; rfl
    have hreduce : ∀ vs : List (Option (FeedPost α) × Option Tombstone),
        (vs.map Prod.fst).reduceOption = vs.filterMap Prod.fst := fun vs => by
      rw [List.reduceOption, filterMap_map]
      rfl
    have hpasses := two_passes_eq_ok c db req fun post hpost =>
      dictGet_loadMetadata (mem_map_of_mem (f := FeedPost.key) (l := posts) hpost)
    simp only [hsome, Bool.false_eq_true, if_false, bind_eq_ok, failIf_eq_ok, exists_const,
      pure_eq_ok, mapM_verdict_eq_ok]
    constructor
    · rintro ⟨hlen, -, scan, hscan, out, hout, rfl⟩
      obtain ⟨vs, hvs, rfl⟩ := (hpasses out).mp ⟨scan, hscan, hout⟩
      refine ⟨vs, ⟨fun post hpost => ?_, hvs⟩, by rw [hreduce]⟩
      exact not_not.mp fun h => hlen ⟨_, mem_map_of_mem hpost, h⟩
    · rintro ⟨vs, ⟨hlen, hvs⟩, rfl⟩
      obtain ⟨scan, hscan, hout⟩ := (hpasses _).mpr ⟨vs, hvs, rfl⟩
      refine ⟨?_, ?_, scan, hscan, _, hout, by rw [hreduce]⟩
      · rintro ⟨id, hid, h⟩
        obtain ⟨post, hpost, rfl⟩ := mem_map.mp hid
        exact h (hlen post hpost)
      · refine not_not.mpr ⟨fun id hid => ?_, fun id hid => ?_⟩
        · obtain ⟨row, hrow, rfl⟩ := mem_map.mp (map_map ▸ hid)
          simpa only [decide_eq_true_eq, Function.comp_apply] using (mem_filter.mp hrow).2
        · obtain ⟨post, hpost, rfl⟩ := mem_map.mp hid
          obtain ⟨v, hv⟩ := mapM_ok_of_mem hvs hpost
          obtain ⟨s, hs, -⟩ := bind_eq_ok.mp hv
          rw [← dictGet_ne_none_iff, dictGet_loadMetadata hid]
          exact mem_metadata_of_scanAlone hs

theorem settlePost_source {m : TeamModeration} {p : PendingPost α}
    {v : Option (FeedPost α) × Option Tombstone} (h : settlePost req m p = .ok v)
    (hpost : v.1 = some post) : post.source = p.post.source := by
  simp only [settlePost, bind_eq_ok, pure_eq_ok] at h
  obtain ⟨windows, -, rfl⟩ := h
  simp only [Option.ite_none_right_eq_some, Option.some.injEq] at hpost
  rw [← hpost.2]
  rfl

theorem scanAlone_source {s : Option (FeedPost α) ⊕ PendingPost α}
    (h : scanAlone c db req post = .ok s) :
    (∀ kept, s = .inl (some kept) → kept.source = post.source) ∧
      ∀ p, s = .inr p → p.post.source = post.source := by
  simp only [scanAlone, bind_eq_ok] at h
  obtain ⟨info, -, early, hearly, h⟩ := h
  rcases beforeLens_cases hearly with ⟨slot, rfl, hslot⟩ | ⟨community, rfl, -⟩
  · obtain rfl := pure_eq_ok.mp h
    exact ⟨fun kept hkept => hslot kept (Sum.inl.inj hkept), fun _ hp => (Sum.inl_ne_inr hp).elim⟩
  · simp only [bind_eq_ok, pure_eq_ok] at h
    obtain ⟨resolved, -, rfl⟩ := h
    unfold afterLens
    split
    next =>
      refine ⟨fun kept hkept => ?_, fun _ hp => (Sum.inl_ne_inr hp).elim⟩
      rw [← Option.some.inj (Sum.inl.inj hkept)]
      rfl
    next =>
      refine ⟨fun _ hkept => (Sum.inr_ne_inl hkept).elim, fun p hp => ?_⟩
      rw [← Sum.inr.inj hp]
      rfl

theorem verdict_source {kept : FeedPost α} {v : Option (FeedPost α) × Option Tombstone}
    (h : verdict c db req post = .ok v) (hkept : v.1 = some kept) : kept.source = post.source := by
  simp only [verdict, bind_eq_ok] at h
  obtain ⟨-, -, s, hs, hv⟩ := h
  obtain ⟨hfilled, hput⟩ := scanAlone_source hs
  cases s with
  | inl filled =>
    obtain rfl := Except.ok.inj hv
    exact hfilled kept (congrArg Sum.inl hkept)
  | inr p => exact (settlePost_source hv hkept).trans (hput p rfl)

/-- The verdict on a post, as far as there is one. -/
def verdictD (c : SlugCase) (db : FeedTables) (req : FilterRequest) (post : FeedPost α) :
    Option (FeedPost α) × Option Tombstone :=
  (verdict c db req post).toOption.getD (none, none)

theorem eq_map_verdictD {vs : List (Option (FeedPost α) × Option Tombstone)}
    (h : posts.mapM (verdict c db req) = .ok vs) : vs = posts.map (verdictD c db req) := by
  induction mapM_eq_ok_iff.mp h with
  | nil => rfl
  | cons hx hrest ih =>
    rw [map_cons, ← ih (mapM_eq_ok_iff.mpr hrest), verdictD, hx]
    rfl

theorem verdictD_source {kept : FeedPost α} (h : (verdictD c db req post).1 = some kept) :
    kept.source = post.source := by
  cases hv : verdict c db req post with
  | error e =>
    rw [verdictD, hv] at h
    cases h
  | ok v =>
    rw [verdictD, hv] at h
    exact verdict_source hv h

/-- Posts kept by a function that leaves their source are a sublist of the given ones. -/
theorem filterMap_source_sublist {shown : FeedPost α → Option (FeedPost α)}
    (h : ∀ post kept, shown post = some kept → kept.source = post.source)
    (posts : List (FeedPost α)) :
    ((posts.filterMap shown).map FeedPost.source).Sublist (posts.map FeedPost.source) := by
  induction posts with
  | nil => exact .slnil
  | cons post posts ih =>
    cases hshown : shown post with
    | none =>
      rw [filterMap_cons_none hshown]
      exact ih.cons _
    | some kept =>
      rw [filterMap_cons_some hshown, map_cons, map_cons, h post kept hshown]
      exact ih.cons_cons _

/-- The filter of two lists in a row is the filter of the first followed by the filter of the
second. Whether a post is shown, and the tombstone it leaves, is a function of the post, and the
posts shown are some of the given ones in their order. -/
theorem feed_filtered_post_by_post (c : SlugCase) (db : FeedTables) (req : FilterRequest)
    (A B : List (FeedPost α)) :
    (∀ r, filterPosts c db req (A ++ B) = .ok r ↔ ∃ a b, filterPosts c db req A = .ok a ∧
      filterPosts c db req B = .ok b ∧ r = (a.1 ++ b.1, a.2 ++ b.2)) ∧
    ∃ (shown : FeedPost α → Option (FeedPost α)) (left : FeedPost α → Option Tombstone),
      ∀ posts r, filterPosts c db req posts = .ok r →
        r = (posts.filterMap shown, posts.filterMap left) ∧
        (r.1.map FeedPost.source).Sublist (posts.map FeedPost.source) := by
  constructor
  · intro r
    simp only [filterPosts_eq_ok, mapM_append, bind_eq_ok, pure_eq_ok]
    constructor
    · rintro ⟨hscope, _, ⟨as, ha, bs, hb, rfl⟩, rfl⟩
      exact ⟨_, _, ⟨hscope, as, ha, rfl⟩, ⟨hscope, bs, hb, rfl⟩, by
        rw [filterMap_append, filterMap_append]⟩
    · rintro ⟨_, _, ⟨hscope, as, ha, rfl⟩, ⟨-, bs, hb, rfl⟩, rfl⟩
      exact ⟨hscope, _, ⟨as, ha, bs, hb, rfl⟩, by
        rw [filterMap_append, filterMap_append]⟩
  · refine ⟨fun post => (verdictD c db req post).1, fun post => (verdictD c db req post).2,
      fun posts r h => ?_⟩
    obtain ⟨-, vs, hvs, rfl⟩ := filterPosts_eq_ok.mp h
    obtain rfl := eq_map_verdictD hvs
    rw [filterMap_map, filterMap_map]
    exact ⟨rfl, filterMap_source_sublist (fun post kept => verdictD_source) posts⟩

/-- A community whose team 3 has hidden the second of two posts. -/
def moderatedFeed : FeedTables where
  teams := [⟨7, 3, "o".toList, 0, 0, false, 1, 1, 0, none, none⟩]
  hiddenUsers := []
  posts := [⟨.replicate 64 'a', "x".toList, some 7, 0, none, none, none, none⟩,
    ⟨.replicate 64 'b', "x".toList, some 7, 0, none, none, none, none⟩]
  hiddenPosts := [⟨7, 3, .replicate 64 'B'⟩]
  locks := []
  preferences := []

/-- The second post leaves a tombstone, listed alone or after the first one. -/
theorem feed_filtered_post_by_post_hidden :
    let c : SlugCase := ⟨id, fun _ => rfl⟩
    let req : FilterRequest := ⟨none, "team".toList, some 3, "current".toList, true, fun _ => none⟩
    let a : FeedPost Unit := { postId := .replicate 64 'A', rest := () }
    let b : FeedPost Unit := { postId := .replicate 64 'b', rest := () }
    let stamp : LensStamp := ⟨"team".toList, some modePinned, some 3⟩
    filterPosts c moderatedFeed req ([a] ++ [b]) =
      .ok ([{ a with protocolVersion := some 0, lens := some stamp, threadLocked := some false }],
        [⟨b.postId, .teamHiddenPost⟩]) ∧
    ∃ (shown : FeedPost Unit → Option (FeedPost Unit)) (left : FeedPost Unit → Option Tombstone),
      (∀ posts r, filterPosts c moderatedFeed req posts = .ok r →
        r = (posts.filterMap shown, posts.filterMap left)) ∧
      [b].filterMap left = [⟨b.postId, .teamHiddenPost⟩] ∧
      ([a] ++ [b]).filterMap left = [⟨b.postId, .teamHiddenPost⟩] := by
  intro c req a b stamp
  have ha : filterPosts c moderatedFeed req [a] =
      .ok ([{ a with protocolVersion := some 0, lens := some stamp, threadLocked := some false }],
        []) := by
    decide +kernel
  have hb : filterPosts c moderatedFeed req [b] = .ok ([], [⟨b.postId, .teamHiddenPost⟩]) := by
    decide +kernel
  obtain ⟨happ, shown, left, hshown⟩ := feed_filtered_post_by_post c moderatedFeed req [a] [b]
  have hab := (happ _).mpr ⟨_, _, ha, hb, rfl⟩
  exact ⟨hab, shown, left, fun posts r h => (hshown posts r h).1,
    (Prod.mk.inj (hshown _ _ hb).1).2.symm, (Prod.mk.inj (hshown _ _ hab).1).2.symm⟩

end MirageNode
