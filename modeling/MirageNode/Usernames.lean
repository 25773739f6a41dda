import MirageNode.ChainRun
import MirageNode.SubscriptionCalls
import MirageNode.Genesis

/-!
# The username index

`usernames/` maps the normal form of a username to the account that carries it. Only
`SetUsername` and `DeleteUser` write it after genesis, both next to the profile; every
other message and every block leaves the index and the names in the profiles alone
(`KeeperCall.sameNames`). So index and profiles agree in every run that starts with a
genesis in which they agree.

Genesis can break the agreement: it stores a profile whose username could not be claimed.
-/

namespace MirageNode

open OrderedStore OrderedMap Fallible Option

/-! ## 1. Agreement -/

/-- An entry of the index is an account with that username, and the other way round. -/
def UsernamesAgree (env : ChainEnv) (s : ChainState) : Prop :=
  ∀ u a, s.usernames.get u = some a ↔
    ∃ core username, s.profiles.get a = some core ∧ core.username = some username ∧
      env.usernameKey username = u

/-- The username that an account carries. -/
def ChainState.usernameOf (s : ChainState) (a : Addr) : Option Name :=
  (s.profiles.get a).bind ProfileCore.username

variable {env : ChainEnv} {s s' : ChainState} {owner : Addr} {core : ProfileCore}

theorem usernamesAgree_iff :
    UsernamesAgree env s ↔ ∀ u a, s.usernames.get u = some a ↔
      ∃ username ∈ s.usernameOf a, env.usernameKey username = u := by
  have hname : ∀ a u, (∃ core username, s.profiles.get a = some core ∧
      core.username = some username ∧ env.usernameKey username = u) ↔
      ∃ username ∈ s.usernameOf a, env.usernameKey username = u := by
    intro a u
    simp only [ChainState.usernameOf, mem_def, bind_eq_some_iff]
    exact ⟨fun ⟨core, n, hcore, hn, hu⟩ => ⟨n, ⟨core, hcore, hn⟩, hu⟩,
      fun ⟨n, ⟨core, hcore, hn⟩, hu⟩ => ⟨core, n, hcore, hn, hu⟩⟩
  simp only [UsernamesAgree, hname]

/-- No accepted username is equal to this one up to case and has another normal form. -/
def Folds (env : ChainEnv) (username : Name) : Prop :=
  ∀ username', env.username username' = .ok () → env.sameUsername username username' = true →
    env.usernameKey username = env.usernameKey username'

/-- What runs keep. -/
structure NamesKept (env : ChainEnv) (s : ChainState) : Prop where
  agree : UsernamesAgree env s
  folds : ∀ a, ∀ username ∈ s.usernameOf a, Folds env username

/-- The index and the usernames in the profiles are the same. -/
structure SameNames (s s' : ChainState) : Prop where
  usernames : s'.usernames = s.usernames
  usernameOf : ∀ a, s'.usernameOf a = s.usernameOf a

theorem NamesKept.same (h : NamesKept env s) (hsame : SameNames s s') : NamesKept env s' where
  agree := by
    rw [usernamesAgree_iff]
    intro u a
    rw [hsame.usernames, hsame.usernameOf]
    exact usernamesAgree_iff.mp h.agree u a
  folds a := by
    rw [hsame.usernameOf]
    exact h.folds a

/-- A profile is written with the username it has. -/
theorem SameNames.of_set
    (husernames : s'.usernames = s.usernames) (hprofiles : s'.profiles = s.profiles.set owner core)
    (hname : core.username = s.usernameOf owner) : SameNames s s' where
  usernames := husernames
  usernameOf a := by
    rw [ChainState.usernameOf, hprofiles, get_set]
    split
    next h => rw [h]; exact hname
    next => rfl

theorem SameNames.of_profiles (husernames : s'.usernames = s.usernames)
    (hprofiles : s'.profiles = s.profiles) : SameNames s s' where
  usernames := husernames
  usernameOf a := by rw [ChainState.usernameOf, hprofiles, ChainState.usernameOf]

/-! ## 2. Claiming and releasing -/

section Writes

variable {env : ChainEnv} {s s' : ChainState} {owner : Addr} {username : Name}

theorem usernameOf_eq_of_get (h : s.profiles.get owner = some core) :
    s.usernameOf owner = core.username := by
  rw [ChainState.usernameOf, h, bind_some]

/-- An account gets a username that nobody else holds, or none, and its old one goes. -/
theorem NamesKept.rename (h : NamesKept env s) (owner : Addr) (new : Option Name)
    (hfolds : ∀ n ∈ new, Folds env n)
    (hfree : ∀ n ∈ new, ∀ b, s.usernames.get (env.usernameKey n) = some b → b = owner)
    (hindex : ∀ u, s'.usernames.get u = if ∃ n ∈ new, env.usernameKey n = u then some owner
      else if ∃ old ∈ s.usernameOf owner, env.usernameKey old = u then none else s.usernames.get u)
    (hname : ∀ a, s'.usernameOf a = if a = owner then new else s.usernameOf a) :
    NamesKept env s' where
  agree := by
    have hagree := usernamesAgree_iff.mp h.agree
    rw [usernamesAgree_iff]
    intro u a
    rw [hindex, hname]
    by_cases ha : a = owner
    · subst ha
      rw [if_pos rfl]
      split
      next hu => exact ⟨fun _ => hu, fun _ => rfl⟩
      next hu =>
        have hno : ¬ (if ∃ old ∈ s.usernameOf a, env.usernameKey old = u then none
            else s.usernames.get u) = some a := by
          split
          next => exact nofun
          next hold => exact fun hget => hold ((hagree u a).mp hget)
        exact ⟨fun hget => absurd hget hno, fun hkey => absurd hkey hu⟩
    · rw [if_neg ha, ← hagree u a]
      split
      next hu =>
        obtain ⟨n, hn, rfl⟩ := hu
        refine ⟨fun hget => absurd (Option.some.inj hget).symm ha, fun hget => ?_⟩
        exact absurd (hfree n hn a hget) ha
      next =>
        split
        next hold =>
          refine ⟨nofun, fun hget => ?_⟩
          have howner := (hagree u owner).mpr hold
          exact absurd (Option.some.inj (hget.symm.trans howner)) ha
        next => rfl
  folds a n hn := by
    rw [hname] at hn
    split at hn
    next => exact hfolds n hn
    next => exact h.folds a n hn

/-- A name that the account carries is removed from the index. -/
theorem get_releaseUsername (h : s.usernames.get (env.usernameKey username) = some owner)
    (u : Name) :
    (releaseUsername env s username owner).usernames.get u =
      if env.usernameKey username = u then none else s.usernames.get u := by
  rw [releaseUsername, if_pos h, get_erase]
  simp only [eq_comm]

theorem unnamed_of_none (h : s.usernameOf owner = none) : s.unnamed env owner username = s := by
  rw [ChainState.unnamed, ← ChainState.usernameOf, h]

theorem unnamed_of_some {old : Name} (h : s.usernameOf owner = some old) :
    s.unnamed env owner username =
      if env.sameUsername old username then s else releaseUsername env s old owner := by
  rw [ChainState.unnamed, ← ChainState.usernameOf, h]

/-- Apart from the normal form of the new name, the old one is gone. -/
theorem get_unnamed (h : NamesKept env s) (hvalid : env.username username = .ok ()) {u : Name}
    (hu : u ≠ env.usernameKey username) :
    (s.unnamed env owner username).usernames.get u =
      if ∃ old ∈ s.usernameOf owner, env.usernameKey old = u then none else s.usernames.get u := by
  cases hold : s.usernameOf owner with
  | none => simp [unnamed_of_none hold]
  | some old =>
    rw [unnamed_of_some hold]
    have hheld : s.usernames.get (env.usernameKey old) = some owner :=
      (usernamesAgree_iff.mp h.agree _ _).mpr ⟨old, hold, rfl⟩
    simp only [mem_def, Option.some.injEq, exists_eq_left']
    split
    next hsame =>
      -- up to case it is the same name, so its normal form is that of the new one
      have hkey := h.folds owner old hold username hvalid hsame
      rw [if_neg fun h => hu (h.symm.trans hkey)]
    next => exact get_releaseUsername hheld u

/-- A name that is free for the account once its old name is released was free before. -/
theorem free_of_unnamed (h : NamesKept env s) {u : Name}
    (hfree : ∀ b, (s.unnamed env owner username).usernames.get u = some b → b = owner) :
    ∀ b, s.usernames.get u = some b → b = owner := by
  intro b hb
  cases hold : s.usernameOf owner with
  | none =>
    rw [unnamed_of_none hold] at hfree
    exact hfree b hb
  | some old =>
    have hheld : s.usernames.get (env.usernameKey old) = some owner :=
      (usernamesAgree_iff.mp h.agree _ _).mpr ⟨old, hold, rfl⟩
    rw [unnamed_of_some hold] at hfree
    split at hfree
    next => exact hfree b hb
    next =>
      simp only [get_releaseUsername hheld] at hfree
      by_cases hu : env.usernameKey old = u
      · exact (Option.some.inj (hheld.symm.trans (hu ▸ hb))).symm
      · rw [if_neg hu] at hfree
        exact hfree b hb

theorem assignUsername_namesKept (h : NamesKept env s)
    (hvalid : ∀ n, env.username n = .ok () → Folds env n)
    (hrun : assignUsername env s owner username = .ok s') : NamesKept env s' := by
  simp only [assignUsername, bind_eq_ok, liftText_eq_ok] at hrun
  obtain ⟨⟨⟩, hok, s₁, hclaim, hupdate⟩ := hrun
  have hclaim : claimUsername env (s.unnamed env owner username) username owner = .ok s₁ := hclaim
  obtain ⟨hfree, rfl⟩ := claimUsername_eq_ok hclaim
  obtain rfl := updateProfileCore_eq_ok hupdate
  have hprofiles : (s.unnamed env owner username).profiles = s.profiles := by
    obtain ⟨names, hframe⟩ : ∃ names, s.unnamed env owner username = _ := unnamed_frame
    rw [hframe]
  refine h.rename owner (some username) (by simpa using hvalid username hok)
    (by simpa using free_of_unnamed h hfree) (fun u => ?_) (fun a => ?_)
  · rw [ChainState.saveProfile, get_set]
    simp only [mem_def, Option.some.injEq, exists_eq_left', eq_comm]
    split
    next => rfl
    next hu => exact get_unnamed h hok hu
  · rw [ChainState.usernameOf, ChainState.saveProfile, get_set, hprofiles]
    split <;> rfl

theorem deleteUserState_names (hrun : deleteUserState env s owner core = .ok s') :
    s'.profiles = s.profiles.erase owner ∧
      s'.usernames = match core.username with
        | none => s.usernames
        | some username => (releaseUsername env s username owner).usernames := by
  simp only [deleteUserState, bind_eq_ok, pure_eq_ok] at hrun
  obtain ⟨bank, -, rfl⟩ := hrun
  rw [dropSubscription_eq]
  cases core.username with
  | none => exact ⟨rfl, rfl⟩
  | some username =>
    by_cases hheld : s.usernames.get (env.usernameKey username) = some owner <;>
      simp only [releaseUsername, hheld, if_true, if_false, and_self]

theorem deleteUserState_namesKept (h : NamesKept env s) (hcore : s.profiles.get owner = some core)
    (hrun : deleteUserState env s owner core = .ok s') : NamesKept env s' := by
  obtain ⟨hprofiles, husernames⟩ := deleteUserState_names hrun
  have hof : s.usernameOf owner = core.username := usernameOf_eq_of_get hcore
  refine h.rename owner none (by simp) (by simp) (fun u => ?_) (fun a => ?_)
  · rw [husernames, hof]
    cases hname : core.username with
    | none => simp
    | some username =>
      have hheld : s.usernames.get (env.usernameKey username) = some owner :=
        (usernamesAgree_iff.mp h.agree _ _).mpr ⟨username, hof.trans hname, rfl⟩
      simpa using get_releaseUsername hheld u
  · rw [ChainState.usernameOf, hprofiles, get_erase]
    split <;> rfl

end Writes

/-! ## 3. Runs -/

section Runs

variable {env : ChainEnv} {ctx : BlockCtx} {s s' : ChainState}

/-- The calls that have nothing to do with usernames. -/
theorem KeeperCall.sameNames {k : KeeperCall} (hready : k.Ready ctx s)
    (hset : ∀ owner username, k ≠ .setUsername owner username)
    (hdelete : ∀ target core, k ≠ .deleteUser target core)
    (h : k.exec env ctx s = .ok s') : SameNames s s' := by
  cases k with
  | other s₁ =>
    cases h
    exact .of_profiles hready.usernames hready.profiles
  | block owner pattern cap | unblock owner pattern =>
    obtain ⟨b, -, h⟩ := bind_eq_ok.mp h
    cases h
    exact .of_profiles rfl rfl
  | setUsername owner username => exact absurd rfl (hset owner username)
  | deleteUser target core => exact absurd rfl (hdelete target core)
  | updateParams p =>
    obtain rfl := Except.ok.inj h
    exact .of_profiles rfl rfl
  | _ =>
    obtain ⟨_, _, _, _, _, rfl, hnames⟩ := KeeperCall.framed hready trivial h
    exact ⟨rfl, hnames⟩

/-- Every keeper call keeps index and profiles in step. -/
theorem namesKept_sound (hvalid : ∀ n, env.username n = .ok () → Folds env n) (ctx : BlockCtx) :
    Sound env ctx (NamesKept env) (fun _ => False) (fun _ _ => True) := by
  refine .of_step (fun _ _ _ => id) fun k s s' hs hready _ h => ?_
  cases k with
  | setUsername owner username => exact assignUsername_namesKept hs hvalid h
  | deleteUser target core => exact deleteUserState_namesKept hs hready h
  | _ => exact hs.same (KeeperCall.sameNames hready (fun _ _ h => by cases h)
      (fun _ _ h => by cases h) h)

end Runs

/-! ## 4. Genesis -/

section GenesisNames

variable {env : GenesisEnv}

theorem claimUsername_of_free {env : ChainEnv} {username : Name}
    (hfree : ∀ b, s.usernames.get (env.usernameKey username) = some b → b = owner) :
    claimUsername env s username owner =
      .ok { s with usernames := s.usernames.set (env.usernameKey username) owner } := by
  have hnot : ¬ ∃ a ∈ s.usernames.get (env.usernameKey username), a ≠ owner :=
    fun ⟨a, ha, hne⟩ => hne (hfree a ha)
  simp only [claimUsername, failIf_of_not _ hnot, ok_bind]
  rfl

theorem claimOrWarn_of_free {env : ChainEnv} {username : Name}
    (hfree : ∀ b, s.usernames.get (env.usernameKey username) = some b → b = owner) :
    claimOrWarn env s username owner =
      { s with usernames := s.usernames.set (env.usernameKey username) owner } := by
  rw [claimOrWarn, claimUsername_of_free hfree]

/-- The profile of a module account. -/
def moduleProfile (modName : String) : ProfileCore :=
  { ProfileCore.blank with username := some (reservedUsername modName) }

/-- What the store holds once the names of some modules are reserved. -/
structure Reserved (env : GenesisEnv) (ms : List String) (s : ChainState) : Prop where
  usernames : ∀ u a, s.usernames.get u = some a ↔
    ∃ m ∈ ms, reservedUsername m = u ∧ env.moduleAddress m = a
  profiles : ∀ a core, s.profiles.get a = some core ↔
    ∃ m ∈ ms, env.moduleAddress m = a ∧ moduleProfile m = core

/-- A map that lists a family of records, and one more record. -/
theorem get_set_family {ι κ α : Type} [LinearOrder κ] {m : OrderedMap κ α} {f : ι → κ} {g : ι → α}
    {xs : List ι} {x : ι} (h : ∀ k v, m.get k = some v ↔ ∃ y ∈ xs, f y = k ∧ g y = v)
    (hx : ∀ y ∈ xs, f y = f x → g y = g x) (k : κ) (v : α) :
    (m.set (f x) (g x)).get k = some v ↔ ∃ y ∈ xs ++ [x], f y = k ∧ g y = v := by
  simp only [List.mem_append, List.mem_singleton, or_and_right, exists_or, exists_eq_left, ← h]
  rw [get_set]
  split
  next hk =>
    subst hk
    refine ⟨fun hv => .inr ⟨rfl, Option.some.inj hv⟩, ?_⟩
    rintro (hv | ⟨-, hv⟩)
    · obtain ⟨y, hy, hkey, rfl⟩ := (h _ _).mp hv
      rw [hx y hy hkey]
    · rw [hv]
  next hk => exact ⟨.inl, fun hv => hv.resolve_right fun h => hk h.1.symm⟩

theorem reserved_foldl (hlaw : env.Lawful) (hnames : s.usernames = .empty)
    (hprofiles : s.profiles = .empty) (ms : List String)
    (hms : ∀ m ∈ ms, m ∈ reservedModuleAccountNames) :
    Reserved env ms (ms.foldl (reserveModule env) s) := by
  induction ms using List.reverseRecOn with
  | nil => exact ⟨by simp [hnames], by simp [hprofiles]⟩
  | append_singleton ms m ih =>
    have hm : m ∈ reservedModuleAccountNames := hms m (by simp)
    have hms : ∀ m' ∈ ms, m' ∈ reservedModuleAccountNames := fun m' h => hms m' (by simp [h])
    have ih := ih hms
    rw [List.foldl_append, List.foldl_cons, List.foldl_nil]
    generalize ms.foldl (reserveModule env) s = s₁ at ih
    -- nobody else holds the name, so the claim succeeds
    have hfree : ∀ b, s₁.usernames.get (env.usernameKey (reservedUsername m)) = some b →
        b = env.moduleAddress m := by
      intro b hb
      rw [hlaw.reserved_lower m hm, ih.usernames] at hb
      obtain ⟨m', hm', hname, rfl⟩ := hb
      rw [reservedUsername_inj m' (hms m' hm') m hm hname]
    have hstep : reserveModule env s₁ m = { s₁ with
        usernames := s₁.usernames.set (reservedUsername m) (env.moduleAddress m)
        profiles := s₁.profiles.set (env.moduleAddress m) (moduleProfile m) } := by
      rw [reserveModule, claimOrWarn_of_free hfree, hlaw.reserved_lower m hm]
      rfl
    rw [hstep]
    refine ⟨get_set_family ih.usernames fun m' hm' h => ?_,
      get_set_family ih.profiles fun m' hm' h => ?_⟩
    · rw [reservedUsername_inj m' (hms m' hm') m hm h]
    · rw [hlaw.address_inj m' (hms m' hm') m hm h]

/-- A restored state in which index and profiles agree, and which holds the username and the
profile of a module account both or not at all. -/
structure RawClear (env : GenesisEnv) (raw : ChainState) : Prop where
  kept : NamesKept env.toChainEnv raw
  modules : ∀ m ∈ reservedModuleAccountNames,
    raw.usernames.has (reservedUsername m) = raw.profiles.has (env.moduleAddress m)

theorem namesKept_of_reserved (hlaw : env.Lawful)
    (h : Reserved env reservedModuleAccountNames s) : NamesKept env.toChainEnv s where
  agree u a := by
    rw [h.usernames]
    constructor
    · rintro ⟨m, hm, rfl, rfl⟩
      exact ⟨moduleProfile m, reservedUsername m, (h.profiles _ _).mpr ⟨m, hm, rfl, rfl⟩, rfl,
        hlaw.reserved_lower m hm⟩
    · rintro ⟨core, username, hcore, hname, rfl⟩
      obtain ⟨m, hm, rfl, rfl⟩ := (h.profiles _ _).mp hcore
      cases hname
      exact ⟨m, hm, (hlaw.reserved_lower m hm).symm, rfl⟩
  folds a username hname := by
    obtain ⟨core, hcore, hname⟩ := bind_eq_some_iff.mp hname
    obtain ⟨m, hm, rfl, rfl⟩ := (h.profiles _ _).mp hcore
    cases hname
    exact fun n' hn' hsame => hlaw.fold_lower _ n' (hlaw.reserved_valid m hm) hn' hsame

theorem namesKept_restore (hlaw : env.Lawful) {raw : ChainState}
    (hs : Reserved env reservedModuleAccountNames s) (hraw : RawClear env raw) :
    NamesKept env.toChainEnv (s.restore raw) := by
  have hmodules := namesKept_of_reserved hlaw hs
  have hnames : ∀ u, (s.restore raw).usernames.get u =
    (raw.usernames.get u).or (s.usernames.get u) :=
    get_foldl_set_entries raw.usernames s.usernames
  have hprofiles : ∀ a, (s.restore raw).profiles.get a =
    (raw.profiles.get a).or (s.profiles.get a) :=
    get_foldl_set_entries raw.profiles s.profiles
  -- what the export lacks of a module account is there from before, index entry and profile
  have hboth : ∀ m ∈ reservedModuleAccountNames,
      raw.usernames.get (reservedUsername m) = none ↔ raw.profiles.get (env.moduleAddress m) =
        none := by
    intro m hm
    have h := hraw.modules m hm
    simp only [OrderedMap.has] at h
    rw [← isNone_iff_eq_none, ← isNone_iff_eq_none, ← not_isSome,
      ← not_isSome, h]
  refine ⟨fun u a => ?_, fun a username hname => ?_⟩
  · rw [hnames, hprofiles]
    constructor
    · intro hget
      rcases or_eq_some_iff.mp hget with hget | ⟨hnone, hget⟩
      · obtain ⟨core, username, hcore, hname⟩ := (hraw.kept.agree u a).mp hget
        exact ⟨core, username, or_eq_some_iff.mpr (.inl hcore), hname⟩
      · obtain ⟨m, hm, rfl, rfl⟩ := (hs.usernames u a).mp hget
        obtain ⟨core, username, hcore, hname⟩ := (hmodules.agree _ _).mp hget
        exact ⟨core, username,
          or_eq_some_iff.mpr (.inr ⟨(hboth m hm).mp hnone, hcore⟩), hname⟩
    · rintro ⟨core, username, hcore, hname⟩
      rcases or_eq_some_iff.mp hcore with hcore | ⟨hnone, hcore⟩
      · exact or_eq_some_iff.mpr
          (.inl ((hraw.kept.agree u a).mpr ⟨core, username, hcore, hname⟩))
      · obtain ⟨m, hm, rfl, rfl⟩ := (hs.profiles a core).mp hcore
        have hget := (hmodules.agree u _).mpr ⟨_, username, hcore, hname⟩
        obtain ⟨m', hm', rfl, haddr⟩ := (hs.usernames u _).mp hget
        obtain rfl := hlaw.address_inj m' hm' m hm haddr
        exact or_eq_some_iff.mpr (.inr ⟨(hboth m' hm').mpr hnone, hget⟩)
  · obtain ⟨core, hcore, hname⟩ := bind_eq_some_iff.mp hname
    rw [hprofiles] at hcore
    rcases or_eq_some_iff.mp hcore with hcore | ⟨-, hcore⟩
    · exact hraw.kept.folds a username (bind_eq_some_iff.mpr ⟨core, hcore, hname⟩)
    · exact hmodules.folds a username (bind_eq_some_iff.mpr ⟨core, hcore, hname⟩)

/-- The username of an initial profile that can be stored: it has no blanks around it, it is
not an accepted name in another spelling, nobody else holds it, and a profile that the
account has already carries it too. -/
def InitialProfile.Clear (env : GenesisEnv) (s : ChainState) (ip : InitialProfile) : Prop :=
  ∀ owner core username, ip.profile = some (owner, core) → core.username = some username →
    env.trim username = some username ∧ Folds env.toChainEnv username ∧
      (∀ b, s.usernames.get (env.usernameKey username) = some b → b = owner) ∧
      ∀ old, s.profiles.get owner = some old →
        ∃ n, old.username = some n ∧ env.usernameKey n = env.usernameKey username

theorem importAccount_namesKept (h : NamesKept env.toChainEnv s) {ip : InitialProfile}
    (hclear : ip.Clear env s) (hip : ip.profile = some (owner, core)) :
    NamesKept env.toChainEnv (importAccount env s owner core) := by
  unfold importAccount
  cases hname : core.username with
  | none =>
    simp only [bind_none]
    split
    next => exact h
    next hnone =>
      refine h.same (.of_set rfl rfl ?_)
      rw [hname, ChainState.usernameOf]
      have hget : s.profiles.get owner = none := by simpa [OrderedMap.has] using hnone
      rw [hget, bind_none]
  | some username =>
    obtain ⟨htrim, hfolds, hfree, hold⟩ := hclear owner core username hip hname
    simp only [bind_some, htrim, claimOrWarn_of_free hfree]
    cases hget : s.profiles.get owner with
    | some old =>
      -- the account carries the name already, so the claim changes nothing
      obtain ⟨n, hn, hkey⟩ := hold old hget
      have hheld := (h.agree (env.usernameKey username) owner).mpr ⟨old, n, hget, hn, hkey⟩
      rw [set_of_get hheld, if_pos (by simp [OrderedMap.has, hget])]
      exact h
    | none =>
      have hnobody : s.usernameOf owner = none := by rw [ChainState.usernameOf, hget]; rfl
      rw [if_neg (by simp [OrderedMap.has, hget])]
      refine h.rename owner (some username) (by simpa using hfolds) (by simpa using hfree)
        (fun u => ?_) (fun a => ?_)
      · rw [ChainState.saveProfile, get_set, hnobody]
        simp [eq_comm]
      · rw [ChainState.usernameOf, ChainState.saveProfile, get_set]
        split
        next => rw [bind_some, hname]
        next => rfl

theorem importLists_sameNames {rules : TextRules} {level : ℤ}
    {ip : InitialProfile} (h : importLists rules s owner level ip = .ok s') : SameNames s s' := by
  simp only [importLists, bind_eq_ok, pure_eq_ok] at h
  obtain ⟨_, _, _, _, _, _, _, _, _, _, rfl⟩ := h
  exact .of_profiles rfl rfl

theorem importProfile_namesKept (h : NamesKept env.toChainEnv s)
    {ip : InitialProfile} (hclear : ip.Clear env s) (hrun : importProfile env s ip = .ok s') :
    NamesKept env.toChainEnv s' := by
  unfold importProfile at hrun
  cases hip : ip.profile with
  | none =>
    simp only [hip, Except.ok.injEq] at hrun
    exact hrun ▸ h
  | some account =>
    simp only [hip] at hrun
    exact (importAccount_namesKept h hclear hip).same (importLists_sameNames hrun)

/-- Every initial profile can be stored when its turn comes. -/
def ProfilesClear (env : GenesisEnv) (s : ChainState) : List InitialProfile → Prop
  | [] => True
  | ip :: rest => ip.Clear env s ∧ ∀ s', importProfile env s ip = .ok s' → ProfilesClear env s' rest

/-- A genesis in which usernames can be kept. -/
structure Genesis.Clear (env : GenesisEnv) (bank : Bank) (locked : OrderedMap Addr ℕ)
    (g : Genesis) : Prop where
  raw : ∀ raw, g.rawState = some raw → RawClear env raw
  profiles : ProfilesClear env (importRecords env bank locked g) g.initialProfiles

theorem initGenesis_namesKept (hlaw : env.Lawful) {bank : Bank} {locked : OrderedMap Addr ℕ}
    {g : Genesis} (hclear : g.Clear env bank locked)
    (hinit : initGenesis env bank locked g = .ok s) : NamesKept env.toChainEnv s := by
  obtain ⟨-, -, hinit⟩ := bind_eq_ok.mp hinit
  have hreserved := reserved_foldl hlaw (s := .fresh bank locked g.params) rfl rfl
    reservedModuleAccountNames fun m hm => hm
  have hrecords : NamesKept env.toChainEnv (importRecords env bank locked g) := by
    unfold importRecords
    cases hraw : g.rawState with
    | none => exact namesKept_of_reserved hlaw hreserved
    | some raw => exact namesKept_restore hlaw hreserved (hclear.raw raw hraw)
  have hprofiles := hclear.profiles
  revert hinit hrecords hprofiles
  generalize importRecords env bank locked g = s₁
  generalize g.initialProfiles = ips
  intro hinit hrecords hprofiles
  induction ips generalizing s₁ with
  | nil =>
    cases hinit
    exact hrecords
  | cons ip rest ih =>
    rw [List.foldlM_cons, bind_eq_ok] at hinit
    obtain ⟨s₂, hip, hinit⟩ := hinit
    exact ih s₂ hinit (importProfile_namesKept hrecords hprofiles.1 hip) (hprofiles.2 s₂ hip)

/-- In every run from a genesis in which usernames can be kept: an index entry is an account
with that username and the other way round, two accounts never carry usernames with the
same normal form, and a name that no other account carries can be claimed. -/
theorem username_index_agrees (hlaw : env.Lawful) {bank : Bank} {locked : OrderedMap Addr ℕ}
    {g : Genesis} (hclear : g.Clear env bank locked) {s₀ s : ChainState} {t₀ t : ℤ}
    (hinit : initGenesis env bank locked g = .ok s₀)
    (hrun : ChainRun env.toChainEnv (fun _ _ _ => True) s₀ t₀ s t) :
    UsernamesAgree env.toChainEnv s ∧
      (∀ a b core core' n n', s.profiles.get a = some core → s.profiles.get b = some core' →
        core.username = some n → core'.username = some n' →
        env.usernameKey n = env.usernameKey n' → a = b) ∧
      ∀ username owner, (∀ a core n, s.profiles.get a = some core → core.username = some n →
          env.usernameKey n = env.usernameKey username → a = owner) →
        ∃ s', claimUsername env.toChainEnv s username owner = .ok s' := by
  have hkept : NamesKept env.toChainEnv s :=
    hrun.keeps (fun ctx _ => namesKept_sound
      (fun n hn n' hn' hsame => hlaw.fold_lower n n' hn hn' hsame) ctx)
      (fun ctx s input _ => input.allowed_of_forall fun _ _ => trivial)
      (initGenesis_namesKept hlaw hclear hinit)
  refine ⟨hkept.agree, fun a b core core' n n' ha hb hn hn' hkey => ?_, fun username owner h => ?_⟩
  · have hentry := (hkept.agree _ a).mpr ⟨core, n, ha, hn, rfl⟩
    have hentry' := (hkept.agree _ b).mpr ⟨core', n', hb, hn', hkey.symm⟩
    exact Option.some.inj (hentry.symm.trans hentry')
  · refine ⟨_, claimUsername_of_free fun b hb => ?_⟩
    obtain ⟨core, n, hcore, hn, hkey⟩ := (hkept.agree _ b).mp hb
    exact h b core n hcore hn hkey

/-- A genesis that creates accounts with usernames. -/
def namedGenesis (accounts : List (Addr × Name)) : Genesis where
  params := defaultParams
  rawState := none
  initialProfiles := accounts.map fun account =>
    ⟨some (account.1, { ProfileCore.blank with username := some account.2 }), [], [], [], [], []⟩

/-- Two initial profiles with one username: the second is stored although its claim fails,
and then carries a name that the index gives to the first. -/
theorem genesis_stores_unclaimed_username :
    ∃ s, initGenesis plainEnv ⟨.empty, 0, 0⟩ .empty (namedGenesis [(1, 5), (2, 5)]) = .ok s ∧
      s.usernames.get 5 = some 1 ∧
      s.profiles.get 2 = some { ProfileCore.blank with username := some 5 } ∧
      ¬ UsernamesAgree plainEnv.toChainEnv s := by
  obtain ⟨s, hs⟩ : ∃ s, initGenesis plainEnv ⟨.empty, 0, 0⟩ .empty (namedGenesis [(1, 5), (2, 5)]) =
      .ok s := ⟨_, rfl⟩
  have hrun : ((initGenesis plainEnv ⟨.empty, 0, 0⟩ .empty
      (namedGenesis [(1, 5), (2, 5)])).toOption.map fun s =>
        (s.usernames.get 5, s.profiles.get 2)) =
      some (some 1, some { ProfileCore.blank with username := some 5 }) := by decide +kernel
  rw [hs] at hrun
  obtain ⟨hname, hprofile⟩ := Prod.mk.inj (Option.some.inj hrun)
  refine ⟨s, hs, hname, hprofile, fun hagree => ?_⟩
  have hentry := (hagree 5 2).mpr ⟨_, 5, hprofile, rfl, rfl⟩
  exact absurd (hname.symm.trans hentry) (by decide)

theorem namedGenesis_clear : (namedGenesis [(1, 5)]).Clear plainEnv ⟨.empty, 0, 0⟩ .empty where
  raw _ h := by cases h
  profiles := by
    have hrecords : (importRecords plainEnv ⟨.empty, 0, 0⟩ .empty
          (namedGenesis [(1, 5)])).usernames.get 5 = none ∧
        (importRecords plainEnv ⟨.empty, 0, 0⟩ .empty (namedGenesis [(1, 5)])).profiles.get 1 =
          none := by
      decide +kernel
    refine ⟨fun owner core username hip hname => ?_, fun _ _ => trivial⟩
    cases hip
    cases hname
    refine ⟨rfl, fun n' _ hsame => beq_iff_eq.mp hsame, fun b hb => ?_, fun old hold => ?_⟩
    · exact absurd (hrecords.1.symm.trans hb) nofun
    · exact absurd (hrecords.2.symm.trans hold) nofun

/-- An account created with the name 5 renames itself to 6, and 5 is free again. -/
theorem username_index_agrees_rename :
    ∃ s₀ s, initGenesis plainEnv ⟨.empty, 0, 0⟩ .empty (namedGenesis [(1, 5)]) = .ok s₀ ∧
      ChainRun plainEnv.toChainEnv (fun _ _ _ => True) s₀ 0 s 1 ∧ s.usernames.get 5 = none ∧
      s.usernames.get 6 = some 1 ∧ UsernamesAgree plainEnv.toChainEnv s := by
  obtain ⟨s₀, hs₀⟩ : ∃ s₀, initGenesis plainEnv ⟨.empty, 0, 0⟩ .empty (namedGenesis [(1, 5)]) =
      .ok s₀ := ⟨_, rfl⟩
  have hrename : ((initGenesis plainEnv ⟨.empty, 0, 0⟩ .empty
      (namedGenesis [(1, 5)])).toOption.bind fun s =>
        ((RelayMsg.setUsername 1 6).exec plainEnv.toChainEnv ⟨1, 1, 0⟩ s (.user 1 0)).toOption.map
          fun s => (s.usernames.get 5, s.usernames.get 6)) = some (none, some 1) := by
    decide +kernel
  rw [hs₀] at hrename
  obtain ⟨s, hs, hnames⟩ := map_eq_some_iff.mp hrename
  obtain ⟨hfree, hheld⟩ := Prod.mk.inj hnames
  have hrun : ChainRun plainEnv.toChainEnv (fun _ _ _ => True) s₀ 0 s 1 :=
    .step ⟨1, 1, 0⟩ (.relay (.user 1 0) (.setUsername 1 6)) .start (by decide)
      ⟨by decide, by decide, by decide⟩ trivial (toOption_eq_some.mp hs)
  exact ⟨s₀, s, hs₀, hrun, hfree, hheld,
    (username_index_agrees plainEnv_lawful namedGenesis_clear hs₀ hrun).1⟩

end GenesisNames

end MirageNode
