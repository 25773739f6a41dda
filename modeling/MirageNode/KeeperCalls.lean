import MirageNode.CurationBooks
import MirageNode.Handlers

/-!
# Keeper calls

What the message handlers and the block processing do to the store comes down to a few
calls of keeper functions, made after some checks. `KeeperCall` lists them, `exec` runs
one and `Ready` says what the callers have checked.

An invariant that every call keeps is kept by every handler (`HandlerCalls`) and by every
block (`ChainRun`). `Sound` collects what has to be shown of an invariant: every call
keeps it and none of the errors in `bad` comes out. Some invariants hold only under a
condition on some of the calls, those in `Special`; the condition is the parameter
`allow`.
-/

namespace MirageNode

open OrderedStore Fallible

/-! ## 1. Calls on the curation store -/

/-- The calls that change the curation store. -/
inductive CurationCall where
  | join (owner : Addr) (slug : Slug) (cap : ℕ)
  | joinWithLens (owner : Addr) (core : ProfileCore) (slug : Slug) (cap : ℕ) (mode : ℤ) (team : ℕ)
  | prefer (owner : Addr) (core : ProfileCore) (slug : Slug) (mode : ℤ) (team : ℕ)
  /-- The preference that governance sets, which counts by the paid state alone. -/
  | govPrefer (owner : Addr) (core : ProfileCore) (slug : Slug) (mode : ℤ) (team : ℕ)
  /-- A departure, which counts by the paid state alone. -/
  | leave (owner : Addr) (core : ProfileCore) (slug : Slug)
  | createTeam (owner : Addr) (slug : Slug) (name : Name) (description : Text)
  | invite (actor : Addr) (slug : Slug) (team : ℕ) (target : Addr)
  | uninvite (slug : Slug) (team : ℕ) (target : Addr)
  | accept (actor : Addr) (slug : Slug) (team : ℕ)
  /-- The removal of a curator who does not own the team. -/
  | remove (slug : Slug) (team : ℕ) (target : Addr)
  /-- The removal of a curator by governance. -/
  | dismiss (slug : Slug) (team : ℕ) (target : Addr)
  | setOwner (slug : Slug) (team : ℕ) (newOwner : Addr)
  | deleteTeam (slug : Slug) (team : ℕ)
  | rename (actor : Addr) (slug : Slug) (team : ℕ) (name : Name) (description : Text)
  /-- A new tag of a team, or a new rule on who may post. -/
  | decorate (team : CurationTeam) (tag : Text) (subscriberOnly : Bool)
  /-- Hidden posts, post tags, locks, or a ban that is lifted. -/
  | moderate (c : CurationState)
  /-- A ban, with the preference that the banned user then gets. -/
  | ban (slug : Slug) (team : ℕ) (target actor : Addr)

/-- Two curation stores that differ at most in what curators did to posts and users. -/
def CurationState.SameButModeration (c c' : CurationState) : Prop :=
  c' = { c with
    hiddenUsers := c'.hiddenUsers
    hiddenPosts := c'.hiddenPosts
    postTags := c'.postTags
    threadLocks := c'.threadLocks
    threadLockCount := c'.threadLockCount }

namespace CurationCall

/-- What the callers have checked. -/
def Ready (s : ChainState) : CurationCall → Prop
  | joinWithLens owner core _ _ _ _ => s.profiles.get owner = some core
  | prefer owner core _ _ _ => s.profiles.get owner = some core
  | govPrefer owner core _ _ _ => s.profiles.get owner = some core
  | leave owner core _ => s.profiles.get owner = some core
  | remove slug team target =>
    ∃ slug₀ team₀ t, s.curation.teams.get (toLex (slug₀, team₀)) = some t ∧
      t.owner ≠ target ∧ (slug = slug₀ ∧ team = team₀ ∨ slug = t.community ∧ team = t.teamId)
  | decorate t _ _ => ∃ slug team, s.curation.liveTeam slug team = some t
  | moderate c => s.curation.SameButModeration c ∧
      ∀ k, c.hiddenUsers.has k = true → s.curation.hiddenUsers.has k = true
  | _ => True

/-- Runs a call. -/
def exec (env : ChainEnv) (ctx : BlockCtx) (s : ChainState) :
    CurationCall → Except ChainError CurationState
  | join owner slug cap => joinCommunity env.toTextRules s.params s.curation owner slug cap
  | joinWithLens owner core slug cap mode team =>
    joinCommunityWithLens env.toTextRules s.params s.curation owner slug cap mode team
      (canCurate core)
  | prefer owner core slug mode team =>
    setCurationPreference s.curation owner slug mode team (canCurate core)
  | govPrefer owner core slug mode team =>
    setCurationPreference s.curation owner slug mode team core.effectivePaid
  | leave owner core slug =>
    leaveCommunity env.toTextRules s.params ctx.height s.profiles s.curation owner slug
      core.effectivePaid
  | createTeam owner slug name description =>
    createCurationTeam env.toTextRules s.params ctx.height s.profiles s.curation owner slug name
      description
  | invite actor slug team target =>
    inviteCurator s.params s.profiles s.curation actor slug team target
  | uninvite slug team target => clearPendingInvite s.curation slug team target
  | accept actor slug team =>
    acceptCuratorInvite env.toTextRules s.params s.profiles s.curation actor slug team
  | remove slug team target => removeCuratorFromTeam s.params s.curation slug team target
  | dismiss slug team target => removeCuratorFromTeam s.params s.curation slug team target
  | setOwner slug team newOwner => setCurationTeamOwner s.profiles s.curation slug team newOwner
  | deleteTeam slug team =>
    deleteCurationTeam env.toTextRules s.params ctx.height s.curation slug team
  | rename actor slug team name description =>
    updateCurationTeamProfile env.toTextRules s.params s.profiles s.curation actor slug team name
      description
  | decorate t tag subscriberOnly =>
    .ok (s.curation.setCurationTeam { t with tag := tag, subscriberOnly := subscriberOnly })
  | moderate c => .ok c
  | ban slug team target actor =>
    rerouteBannedUserPreference s.profiles
      (setCurationActionHiddenUser s.curation slug team target actor true) slug team target

end CurationCall

/-! ## 2. Calls on the chain state -/

/-- Two chain states that agree on everything but the lists of followed and blocked users
and posts, quotas, coins and the creator store. The founders may have been pinned. -/
structure ChainState.SameCore (s s' : ChainState) : Prop where
  params : s'.params = s.params
  profiles : s'.profiles = s.profiles
  usernames : s'.usernames = s.usernames
  blockedCommunities : s'.blockedCommunities = s.blockedCommunities
  curation : s'.curation = s.curation
  subs : s'.subs = s.subs
  renewals : s'.renewals = s.renewals
  renewalQueue : s'.renewalQueue = s.renewalQueue
  upgraded : s'.upgraded = s.upgraded
  foundersPinned : s.foundersPinned = true → s'.foundersPinned = true

theorem ChainState.SameCore.refl (s : ChainState) : s.SameCore s :=
  ⟨rfl, rfl, rfl, rfl, rfl, rfl, rfl, rfl, rfl, id⟩

/-- What `SetUsername` does to the store: the old name is released unless it differs in case
only, the new one is claimed and the profile written. -/
def assignUsername (env : ChainEnv) (s : ChainState) (owner : Addr) (username : Name) :
    Except ChainError ChainState := do
  liftText (env.username username)
  let s := match (s.profiles.get owner).bind ProfileCore.username with
    | none => s
    | some old => if env.sameUsername old username then s else releaseUsername env s old owner
  let s ← claimUsername env s username owner
  updateProfileCore env s owner fun core => { core with username := some username }

/-- The calls that change the store. -/
inductive KeeperCall where
  /-- Any change outside of what the calls below read. -/
  | other (s : ChainState)
  | curate (call : CurationCall)
  | block (owner : Addr) (pattern : Text) (cap : ℕ)
  | unblock (owner : Addr) (pattern : Text)
  /-- A subscription that a purchase extends. -/
  | extend (user : Addr) (core : ProfileCore) (autoRenew : Bool) (stop : ℤ)
  /-- A subscription that governance sets to an end. -/
  | govExtend (user : Addr) (core : ProfileCore) (autoRenew : Bool) (stop : ℤ)
  | unsubscribe (user : Addr)
  | expire (sub : ℤ × Addr)
  | setLevel (target : Addr) (core : ProfileCore) (level : ℤ)
  | setAutoRenew (owner : Addr) (core : ProfileCore) (autoRenew : Bool)
  | reschedule (key : RenewalKey)
  | dequeue (key : RenewalKey)
  /-- A profile that is written as it is, or a blank one that is created. -/
  | touch (owner : Addr)
  | setUsername (owner : Addr) (username : Name)
  | deleteUser (target : Addr) (core : ProfileCore)
  | updateParams (p : Params)

/-- The end that a purchase of some periods gives a subscription. -/
def Purchased (ctx : BlockCtx) (p : Params) (user : Addr) (core : ProfileCore) (stop : ℤ) : Prop :=
  ∃ id payer source n tr, 1 ≤ n ∧ n ≤ p.maxSubscriptionPeriodsPerPurchase ∧
    quoteTranche ctx p id payer user source n core.subscriptionExpiry = .ok tr ∧ tr.endTime = stop

namespace KeeperCall

/-- What the callers have checked. -/
def Ready (ctx : BlockCtx) (s : ChainState) : KeeperCall → Prop
  | other s' => s.SameCore s'
  | curate call => call.Ready s
  | extend user core _ stop => s.profiles.get user = some core ∧
      Purchased ctx s.params user core stop
  | govExtend user core _ stop => s.profiles.get user = some core ∧ ctx.time < stop
  | expire sub => s.subs.has (toLex sub) = true ∧ sub.1 ≤ ctx.time
  | setLevel target core level => s.profiles.get target = some core ∧
      ¬ (level ≠ levelFree ∧ level < levelAdminMin)
  | setAutoRenew owner core _ => s.profiles.get owner = some core ∧ core.effectivePaid = true
  | deleteUser target core => s.profiles.get target = some core
  | updateParams p => checkParams s.upgraded p = .ok ()
  | _ => True

/-- Runs a call. -/
def exec (env : ChainEnv) (ctx : BlockCtx) (s : ChainState) :
    KeeperCall → Except ChainError ChainState
  | other s' => .ok s'
  | curate call => do
    let curation ← call.exec env ctx s
    return { s with curation := curation }
  | block owner pattern cap => do
    let blocked ← s.blockedCommunities.add owner pattern cap
    return { s with blockedCommunities := blocked }
  | unblock owner pattern => do
    let blocked ← s.blockedCommunities.remove owner pattern
    return { s with blockedCommunities := blocked }
  | extend user core autoRenew stop | govExtend user core autoRenew stop =>
    extendSubscription env.toTextRules ctx s user core autoRenew stop
  | unsubscribe user => deactivatePaidState env.toTextRules ctx s user
  | expire sub => expireSubscription env.toTextRules ctx s sub
  | setLevel target core level =>
    saveAndTransition env.toTextRules ctx s target core
      { core with level := if level = levelFree ∧ core.effectivePaid then levelSubscriber
          else level }
  | setAutoRenew owner core autoRenew =>
    .ok (replaceSubscriptionRenewalSchedule ctx.time
      (s.saveProfile owner { core with autoRenew := autoRenew }) owner)
  | reschedule key =>
    .ok (replaceSubscriptionRenewalSchedule ctx.time
      { s with renewalQueue := s.renewalQueue.erase key } key.owner)
  | dequeue key => .ok { s with renewalQueue := s.renewalQueue.erase key }
  | touch owner => .ok (s.saveProfile owner ((s.profiles.get owner).getD .blank))
  | setUsername owner username => assignUsername env s owner username
  | deleteUser target core => deleteUserState env s target core
  | updateParams p => .ok { s with params := p }

/-- The calls that some invariants put a condition on. -/
def Special : KeeperCall → Prop
  | curate (.govPrefer _ _ _ _ _) => True
  | curate (.leave _ _ _) => True
  | curate (.dismiss _ _ _) => True
  | govExtend _ _ _ _ => True
  | unsubscribe _ => True
  | deleteUser _ _ => True
  | updateParams _ => True
  | _ => False

end KeeperCall

/-! ## 3. Invariants -/

/-- Returns a state in `I` or an error that is not in `bad`. -/
def Keeps (I : ChainState → Prop) (bad : ChainError → Prop) (x : Except ChainError ChainState) :
    Prop :=
  Ensures x I (fun e => ¬ bad e)

/-- What has to be shown of an invariant. -/
structure Sound (env : ChainEnv) (ctx : BlockCtx) (I : ChainState → Prop) (bad : ChainError → Prop)
    (allow : KeeperCall → ChainState → Prop) : Prop where
  /-- Only the serious errors are excluded. -/
  serious : ∀ e, bad e → e.Serious
  /-- A caller's context changes nothing. -/
  founderJoin : ∀ a slug e, bad (.founderJoin a slug e) → bad e
  founderPin : ∀ a slug team e, bad (.founderPin a slug team e) → bad e
  levelTransition : ∀ e, bad (.levelTransition e) → bad e
  /-- The condition reads only this much of the state. -/
  stable : ∀ k s s', s'.params = s.params → s'.profiles = s.profiles → s'.curation = s.curation →
    s'.subs = s.subs → allow k s → allow k s'
  /-- Leaving another community first changes nothing for a departure. -/
  leftOther : ∀ owner core slug slug' s c, I s → slug' ≠ slug →
    (CurationCall.leave owner core slug').exec env ctx s = .ok c →
    allow (.curate (.leave owner core slug)) s →
    allow (.curate (.leave owner core slug)) { s with curation := c }
  /-- Joining first changes nothing for the preference that governance sets. -/
  joinedFirst : ∀ owner core slug cap mode team s c, I s →
    (CurationCall.join owner slug cap).exec env ctx s = .ok c →
    allow (.curate (.govPrefer owner core slug mode team)) s →
    allow (.curate (.govPrefer owner core slug mode team)) { s with curation := c }
  call : ∀ k s, I s → k.Ready ctx s → (k.Special → allow k s) → Keeps I bad (k.exec env ctx s)

/-- Never fails with a serious error. -/
def Quiet {α : Type} (x : Except ChainError α) : Prop := Avoids ChainError.Serious x

/-- Never fails with a serious error, and changes nothing that `SameCore` compares. -/
structure Passes (s : ChainState) (x : Except ChainError ChainState) : Prop where
  quiet : Quiet x
  same : ∀ s', x = .ok s' → s.SameCore s'

theorem ChainState.SameCore.trans {s₁ s₂ s₃ : ChainState} (h : s₁.SameCore s₂)
    (h' : s₂.SameCore s₃) : s₁.SameCore s₃ where
  params := h'.params.trans h.params
  profiles := h'.profiles.trans h.profiles
  usernames := h'.usernames.trans h.usernames
  blockedCommunities := h'.blockedCommunities.trans h.blockedCommunities
  curation := h'.curation.trans h.curation
  subs := h'.subs.trans h.subs
  renewals := h'.renewals.trans h.renewals
  renewalQueue := h'.renewalQueue.trans h.renewalQueue
  upgraded := h'.upgraded.trans h.upgraded
  foundersPinned hs := h'.foundersPinned (h.foundersPinned hs)

theorem ChainState.SameCore.profile {s s' : ChainState} (h : s.SameCore s') {owner : Addr}
    {core : ProfileCore} (hcore : s.profiles.get owner = some core) :
    s'.profiles.get owner = some core := by
  rw [h.profiles]
  exact hcore

namespace Passes

variable {s s' : ChainState} {x : Except ChainError ChainState}

theorem ok (h : s.SameCore s') : Passes s (.ok s') :=
  ⟨.ok s', fun _ heq => Except.ok.inj heq ▸ h⟩

theorem error {e : ChainError} (he : ¬ e.Serious) : Passes s (.error e) :=
  ⟨.error he, fun _ h => by cases h⟩

theorem read {α : Type} {y : Except ChainError α} {f : α → Except ChainError ChainState}
    (hy : Quiet y) (hf : ∀ a, y = .ok a → Passes s (f a)) : Passes s (y >>= f) := by
  refine ⟨Avoids.bind hy fun a ha => (hf a ha).quiet, fun s' h => ?_⟩
  obtain ⟨a, ha, h⟩ := bind_eq_ok.mp h
  exact (hf a ha).same s' h

theorem failIf {c : Prop} [Decidable c] {e : ChainError} {f : Unit → Except ChainError ChainState}
    (he : ¬ e.Serious) (hf : ¬ c → Passes s (f ())) : Passes s (failIf c e >>= f) :=
  read (.failIf fun _ => he) fun _ h => hf (failIf_eq_ok.mp h)

theorem bind {f : ChainState → Except ChainError ChainState} (hx : Passes s x)
    (hf : ∀ s', s.SameCore s' → Passes s' (f s')) : Passes s (x >>= f) := by
  refine read hx.quiet fun s' hs' => ?_
  have h := hf s' (hx.same s' hs')
  exact ⟨h.quiet, fun s'' hs'' => (hx.same s' hs').trans (h.same s'' hs'')⟩

/-- A change before the rest. -/
theorem after (hx : Passes s' x) (h : s.SameCore s') : Passes s x :=
  ⟨hx.quiet, fun s'' hs'' => h.trans (hx.same s'' hs'')⟩

end Passes

section Sound

variable {env : ChainEnv} {ctx : BlockCtx} {I : ChainState → Prop} {bad : ChainError → Prop}
  {allow : KeeperCall → ChainState → Prop} {s s' : ChainState}

/-- An invariant alone, under a condition that does not read the state. -/
theorem Sound.of_step (hallow : ∀ k s s', allow k s → allow k s')
    (hstep : ∀ k s s', I s → k.Ready ctx s → (k.Special → allow k s) → k.exec env ctx s = .ok s' →
      I s') : Sound env ctx I (fun _ => False) allow where
  serious _ h := h.elim
  founderJoin _ _ _ h := h
  founderPin _ _ _ _ h := h
  levelTransition _ h := h
  stable k s s' _ _ _ _ h := hallow k s s' h
  leftOther _ _ _ _ s _ _ _ _ h := hallow _ s _ h
  joinedFirst _ _ _ _ _ _ s _ _ _ h := hallow _ s _ h
  call k s hs hready h :=
    Ensures.of_avoids (fun s' hexec => hstep k s s' hs hready h hexec) fun _ _ => id

/-- A check or a read before the rest. -/
theorem Sound.read (hk : Sound env ctx I bad allow) {α : Type} {x : Except ChainError α}
    {f : α → Except ChainError ChainState} (hx : Quiet x)
    (hf : ∀ a, x = .ok a → Keeps I bad (f a)) : Keeps I bad (x >>= f) :=
  Ensures.bind_eq (fun e he hbad => hx e he (hk.serious _ hbad)) hf

theorem Sound.failIf (hk : Sound env ctx I bad allow) {c : Prop} [Decidable c] {e : ChainError}
    {f : Unit → Except ChainError ChainState} (he : ¬ e.Serious)
    (hf : ¬ c → Keeps I bad (f ())) : Keeps I bad (failIf c e >>= f) :=
  Ensures.failIf_bind (fun _ => mt (hk.serious _) he) hf

theorem Sound.error (hk : Sound env ctx I bad allow) {e : ChainError} (he : ¬ e.Serious) :
    Keeps I bad (.error e) := mt (hk.serious _) he

theorem Keeps.bind {x : Except ChainError ChainState}
    {f : ChainState → Except ChainError ChainState} (hx : Keeps I bad x)
    (hf : ∀ s', x = .ok s' → I s' → Keeps I bad (f s')) : Keeps I bad (x >>= f) := by
  cases x with
  | ok a => exact hf a rfl hx
  | error e => exact hx

/-- A call that no condition is put on. -/
theorem Sound.plain (hk : Sound env ctx I bad allow) (k : KeeperCall) (hs : I s)
    (hready : k.Ready ctx s) (hplain : ¬ k.Special) : Keeps I bad (k.exec env ctx s) :=
  hk.call k s hs hready fun h => absurd h hplain

theorem Sound.other (hk : Sound env ctx I bad allow) (hs : I s) (hsame : s.SameCore s') : I s' :=
  hk.plain (.other s') hs hsame id

theorem Sound.allow_same (hk : Sound env ctx I bad allow) {k : KeeperCall} (h : s.SameCore s')
    (ha : allow k s) : allow k s' :=
  hk.stable k s s' h.params h.profiles h.curation h.subs ha

/-- A part that passes, at the end. -/
theorem Sound.last (hk : Sound env ctx I bad allow) (hs : I s) {x : Except ChainError ChainState}
    (hx : Passes s x) : Keeps I bad x :=
  .of_avoids (fun s' h => hk.other hs (hx.same s' h)) fun e he hbad =>
    hx.quiet e he (hk.serious _ hbad)

/-- A part that passes, before the rest. -/
theorem Sound.pass (hk : Sound env ctx I bad allow) (hs : I s) {x : Except ChainError ChainState}
    {f : ChainState → Except ChainError ChainState} (hx : Passes s x)
    (hf : ∀ s', s.SameCore s' → I s' → Keeps I bad (f s')) : Keeps I bad (x >>= f) :=
  hk.read hx.quiet fun s' h => hf s' (hx.same s' h) (hk.other hs (hx.same s' h))

end Sound

end MirageNode
