import MirageNode.Handlers

/-!
# Genesis

`InitGenesis` of `module/module.go` on the empty store: the usernames of the module
accounts are reserved, the parameters are checked and written, the records of an export
are restored and the initial profiles are created.

A username that is taken is only logged there. `claimOrWarn` models that.
-/

namespace MirageNode

open OrderedStore Fallible

/-! ## 1. Module accounts -/

def reservedModuleAccountNames : List String :=
  ["fee_collector", "distribution", "mint", "bonded_tokens_pool", "not_bonded_tokens_pool", "gov",
   "core", "creator_pool"]

def reservedUsernameForModule (modName : String) : String :=
  "mirage-" ++ String.ofList (modName.toList.map fun c => if c = '_' then '-' else c)

/-- The number that the bytes of a text spell. -/
def spell (s : String) : ℕ := (textBytes s).foldl (fun n b => n * 256 + b.toNat) 0

/-- The username of a module account. -/
def reservedUsername (modName : String) : Name := spell (reservedUsernameForModule modName)

theorem reservedUsername_inj : ∀ m ∈ reservedModuleAccountNames,
    ∀ m' ∈ reservedModuleAccountNames, reservedUsername m = reservedUsername m' → m = m' := by
  decide +kernel

/-! ## 2. The import -/

/-- `InitialProfile`. `profile` is the owner with the core record, `none` if the core record
is missing or names no owner. -/
structure InitialProfile where
  profile : Option (Addr × ProfileCore)
  followedUsers : List Addr
  joinedCommunities : List Slug
  blockedUsers : List Addr
  blockedPosts : List Hash
  blockedCommunities : List Text

/-- `GenesisState`, with the defaults already put in for missing parameters and the raw
records as the store they spell. -/
structure Genesis where
  params : Params
  rawState : Option ChainState
  initialProfiles : List InitialProfile

/-- The chain environment with the addresses of the module accounts and the trimming of a
username, which leaves `none` of a blank one. -/
structure GenesisEnv extends ChainEnv where
  moduleAddress : String → Addr
  trim : Name → Option Name

/-- The errors on which `InitGenesis` gives up. -/
inductive GenesisError where
  | setParams (e : CoreError)
  | addFollowedUser (owner : Addr) (e : ChainError)
  | joinCommunity (owner : Addr) (e : ChainError)
  | addBlockedUser (owner : Addr) (e : ChainError)
  | addBlockedPost (owner : Addr) (e : ChainError)
  | tierMissing (owner : Addr)
  | addBlockedCommunity (owner : Addr) (e : ChainError)
deriving Repr

/-- A store without records. Coins belong to the bank and are there already. -/
def ChainState.fresh (bank : Bank) (locked : OrderedMap Addr ℕ) (p : Params) : ChainState where
  params := p
  profiles := .empty
  usernames := .empty
  followedUsers := .empty
  blockedUsers := .empty
  blockedPosts := .empty
  blockedCommunities := .empty
  followedTopics := .empty
  blockedTopics := .empty
  quotas := .empty
  curation := .empty
  subs := .empty
  renewals := .empty
  renewalQueue := .empty
  creator := .empty bank
  locked := locked
  postSeq := 0
  foundersPinned := false
  upgraded := false

/-- `ClaimUsername` with an error that is only logged. -/
def claimOrWarn (env : ChainEnv) (s : ChainState) (username : Name) (owner : Addr) : ChainState :=
  match claimUsername env s username owner with
  | .ok s' => s'
  | .error _ => s

/-- Reserves the username of a module account. -/
def reserveModule (env : GenesisEnv) (s : ChainState) (modName : String) : ChainState :=
  let addr := env.moduleAddress modName
  let username := reservedUsername modName
  (claimOrWarn env.toChainEnv s username addr).saveProfile addr
    { ProfileCore.blank with username := some username }

/-- The records of an export written over what is there. Before them there are only the
parameters and the records of the module accounts. -/
def ChainState.restore (s raw : ChainState) : ChainState :=
  { raw with
    profiles := raw.profiles.entries.foldl (fun m e => m.set e.1 e.2) s.profiles
    usernames := raw.usernames.entries.foldl (fun m e => m.set e.1 e.2) s.usernames
    creator := { raw.creator with bank := s.creator.bank }
    locked := s.locked }

/-- The lists of an initial profile. -/
def importLists (rules : TextRules) (s : ChainState) (owner : Addr) (level : ℤ)
    (ip : InitialProfile) : Except GenesisError ChainState := do
  let followed ← (ip.followedUsers.foldlM (fun (l : ListStore) u => l.addSetEntry owner u)
    s.followedUsers).mapError (GenesisError.addFollowedUser owner)
  let cap := match s.params.getTierConfig level with
    | none => 0
    | some tier => uint32 tier.maxJoinedCommunities
  let curation ← (ip.joinedCommunities.foldlM
    (fun c slug => joinCommunity rules s.params c owner slug cap)
    s.curation).mapError (GenesisError.joinCommunity owner)
  let users ← (ip.blockedUsers.foldlM (fun (l : ListStore) u => l.addDequeEntry owner u 0)
    s.blockedUsers).mapError (GenesisError.addBlockedUser owner)
  let posts ← (ip.blockedPosts.foldlM (fun (l : ListStore) p => l.addDequeEntry owner p 0)
    s.blockedPosts).mapError (GenesisError.addBlockedPost owner)
  let blocked ← ip.blockedCommunities.foldlM (fun b pattern =>
    match s.params.getTierConfig level with
    | none => .error (.tierMissing owner)
    | some tier => (b.add owner pattern (uint32 tier.maxBlockedCommunities)).mapError
        (GenesisError.addBlockedCommunity owner)) s.blockedCommunities
  return { s with
    followedUsers := followed
    curation := curation
    blockedUsers := users
    blockedPosts := posts
    blockedCommunities := blocked }

/-- The username claim and the profile of an initial profile: the claim is for the trimmed
name, the profile is stored as it is, and only if the account has none. -/
def importAccount (env : GenesisEnv) (s : ChainState) (owner : Addr) (core : ProfileCore) :
    ChainState :=
  let s := match core.username.bind env.trim with
    | none => s
    | some username => claimOrWarn env.toChainEnv s username owner
  if s.profiles.has owner then s else s.saveProfile owner core

/-- One initial profile. -/
def importProfile (env : GenesisEnv) (s : ChainState) (ip : InitialProfile) :
    Except GenesisError ChainState :=
  match ip.profile with
  | none => .ok s
  | some (owner, core) =>
    importLists env.toTextRules (importAccount env s owner core) owner core.level ip

/-- The store before the initial profiles are created. -/
def importRecords (env : GenesisEnv) (bank : Bank) (locked : OrderedMap Addr ℕ) (g : Genesis) :
    ChainState :=
  let s := reservedModuleAccountNames.foldl (reserveModule env) (.fresh bank locked g.params)
  match g.rawState with
  | none => s
  | some raw => s.restore raw

def initGenesis (env : GenesisEnv) (bank : Bank) (locked : OrderedMap Addr ℕ) (g : Genesis) :
    Except GenesisError ChainState := do
  g.params.validate.mapError GenesisError.setParams
  g.initialProfiles.foldlM (importProfile env) (importRecords env bank locked g)

/-- What is assumed of the module addresses and of Go's text functions: the addresses differ,
the reserved usernames are well-formed and in lower case, and on well-formed usernames
equality up to case is equality of the lower-case forms. -/
structure GenesisEnv.Lawful (env : GenesisEnv) : Prop where
  address_inj : ∀ m ∈ reservedModuleAccountNames, ∀ m' ∈ reservedModuleAccountNames,
    env.moduleAddress m = env.moduleAddress m' → m = m'
  reserved_valid : ∀ m ∈ reservedModuleAccountNames, env.username (reservedUsername m) = .ok ()
  reserved_lower : ∀ m ∈ reservedModuleAccountNames,
    env.usernameKey (reservedUsername m) = reservedUsername m
  fold_lower : ∀ n n', env.username n = .ok () → env.username n' = .ok () →
    env.sameUsername n n' = true → env.usernameKey n = env.usernameKey n'

/-! ## 3. A plain environment -/

/-- Every text is accepted and is its own normal form. -/
def plainRules : TextRules where
  communitySlug _ _ := .ok ()
  blockPattern _ _ := .ok ()
  matchesPattern slug pattern := slug == pattern
  teamName _ _ := .ok ()
  teamDescription _ description := .ok description
  teamNameKey name := name
  username _ := .ok ()
  usernameKey name := name
  sameUsername a b := a == b
  profileBasic _ _ := .ok ()
  tag _ := .ok ()
  safeFields _ := .ok ()
  media _ := .ok ()
  biography _ := .ok ()

/-- The plain rules with module addresses that spell the names of the modules. -/
def plainEnv : GenesisEnv where
  toTextRules := plainRules
  govAuthority := spell "gov"
  moduleAddress := spell
  trim := some

theorem plainEnv_lawful : plainEnv.Lawful where
  address_inj := by
    have h : ∀ m ∈ reservedModuleAccountNames, ∀ m' ∈ reservedModuleAccountNames,
        spell m = spell m' → m = m' := by decide +kernel
    exact h
  reserved_valid _ _ := rfl
  reserved_lower _ _ := rfl
  fold_lower _ _ _ _ h := beq_iff_eq.mp h

end MirageNode
