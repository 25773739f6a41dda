import MirageNode.HandlerCalls
import MirageNode.Renewals

/-!
# What keeper calls do to subscriptions

The subscription of an account is spread over its profile (paid flag, expiry, renewal flag),
the expiry index and the renewal schedule. Most keeper calls leave all of it alone
(`KeeperCall.sameSubscriptions`); the lemmas of `SubscriptionSpec` say what the others write, and
`KeeperCall.account_cases` what that is for one account.
-/

namespace MirageNode

open OrderedStore OrderedMap Fallible

/-! ## 1. Usernames and deletion -/

section Names

variable {env : ChainEnv} {s s' : ChainState} {owner : Addr} {username : Name}

theorem releaseUsername_frame : ∃ names, releaseUsername env s username owner =
    { s with usernames := names } := by
  unfold releaseUsername
  split <;> exact ⟨_, rfl⟩

theorem claimUsername_eq_ok (h : claimUsername env s username owner = .ok s') :
    (∀ b, s.usernames.get (env.usernameKey username) = some b → b = owner) ∧
      s' = { s with usernames := s.usernames.set (env.usernameKey username) owner } := by
  simp only [claimUsername, bind_eq_ok, failIf_eq_ok, pure_eq_ok, exists_const] at h
  obtain ⟨hfree, rfl⟩ := h
  exact ⟨fun b hb => by_contra fun hne => hfree ⟨b, hb, hne⟩, rfl⟩

theorem updateProfileCore_eq_ok {f : ProfileCore → ProfileCore}
    (h : updateProfileCore env s owner f = .ok s') :
    s' = s.saveProfile owner (f ((s.profiles.get owner).getD .blank)) := by
  simp only [updateProfileCore, bind_eq_ok, pure_eq_ok] at h
  obtain ⟨_, _, _, _, rfl⟩ := h
  rfl

/-- The state in which `SetUsername` claims the new name: without the old one, unless both
are equal up to case. -/
def ChainState.unnamed (env : ChainEnv) (s : ChainState) (owner : Addr) (username : Name) :
    ChainState :=
  match (s.profiles.get owner).bind ProfileCore.username with
  | none => s
  | some old => if env.sameUsername old username then s else releaseUsername env s old owner

theorem unnamed_frame : ∃ names, s.unnamed env owner username = { s with usernames := names } := by
  unfold ChainState.unnamed
  split
  · exact ⟨_, rfl⟩
  · split
    · exact ⟨_, rfl⟩
    · exact releaseUsername_frame

/-- A new username changes the index and one profile. -/
theorem assignUsername_frame (h : assignUsername env s owner username = .ok s') :
    ∃ names, s' = { s with
      usernames := names
      profiles := s.profiles.set owner
        { (s.profiles.get owner).getD .blank with username := some username } } := by
  simp only [assignUsername, bind_eq_ok] at h
  obtain ⟨_, -, s₁, hclaim, hupdate⟩ := h
  have hclaim : claimUsername env (s.unnamed env owner username) username owner = .ok s₁ := hclaim
  obtain ⟨names, hframe⟩ : ∃ names, s.unnamed env owner username = _ := unnamed_frame
  rw [hframe] at hclaim
  obtain ⟨-, rfl⟩ := claimUsername_eq_ok hclaim
  exact ⟨_, updateProfileCore_eq_ok hupdate⟩

/-- A deletion takes the profile and the index entry that it names, and leaves the schedule. -/
structure Deleted (s s' : ChainState) (owner : Addr) (core : ProfileCore) : Prop where
  params : s'.params = s.params
  profiles : s'.profiles = s.profiles.erase owner
  subs : s'.subs = (dropSubscription s owner core).subs
  renewals : s'.renewals = s.renewals
  renewalQueue : s'.renewalQueue = s.renewalQueue
  curation : s'.curation = s.curation
  foundersPinned : s'.foundersPinned = s.foundersPinned
  blockedCommunities : s'.blockedCommunities = s.blockedCommunities

theorem deleteUserState_deleted {core : ProfileCore}
    (h : deleteUserState env s owner core = .ok s') : Deleted s s' owner core := by
  simp only [deleteUserState, bind_eq_ok, pure_eq_ok] at h
  obtain ⟨bank, -, rfl⟩ := h
  rw [dropSubscription_eq]
  cases core.username with
  | none =>
    refine ⟨rfl, rfl, ?_, rfl, rfl, rfl, rfl, rfl⟩
    simp only [dropSubscription_subs]
  | some username =>
    obtain ⟨names, hframe⟩ : ∃ names, releaseUsername env { s with
      profiles := s.profiles.erase owner
      followedUsers := s.followedUsers.deleteAllSetEntries owner
      followedTopics := s.followedTopics.deleteAllSetEntries owner
      blockedUsers := s.blockedUsers.deleteAllSetEntries owner
      blockedPosts := s.blockedPosts.deleteAllSetEntries owner
      blockedTopics := s.blockedTopics.deleteAllSetEntries owner } username owner = _ :=
      releaseUsername_frame
    simp only [hframe]
    refine ⟨rfl, rfl, ?_, rfl, rfl, rfl, rfl, rfl⟩
    simp only [dropSubscription_subs]

end Names

/-! ## 2. Subscriptions -/

/-- The profile of an account, where no record stands for a blank one. -/
def ChainState.profileOf (s : ChainState) (a : Addr) : ProfileCore :=
  (s.profiles.get a).getD .blank

theorem profileOf_of_get {s : ChainState} {a : Addr} {core : ProfileCore}
    (h : s.profiles.get a = some core) : s.profileOf a = core := by
  rw [ChainState.profileOf, h]
  rfl

/-- What a profile says about the subscription. -/
structure ProfileCore.SameSubscription (core core' : ProfileCore) : Prop where
  effectivePaid : core'.effectivePaid = core.effectivePaid
  subscriptionExpiry : core'.subscriptionExpiry = core.subscriptionExpiry
  autoRenew : core'.autoRenew = core.autoRenew

theorem ProfileCore.SameSubscription.refl (core : ProfileCore) : core.SameSubscription core :=
  ⟨rfl, rfl, rfl⟩

/-- Two states with the same subscriptions. -/
structure SameSubscriptions (s s' : ChainState) : Prop where
  profile : ∀ a, (s.profileOf a).SameSubscription (s'.profileOf a)
  subs : s'.subs = s.subs
  renewals : s'.renewals = s.renewals
  renewalQueue : s'.renewalQueue = s.renewalQueue

section Same

variable {env : ChainEnv} {ctx : BlockCtx} {s s' : ChainState}

theorem SameSubscriptions.of_profiles (hprofiles : s'.profiles = s.profiles)
    (hsubs : s'.subs = s.subs) (hrenewals : s'.renewals = s.renewals)
    (hqueue : s'.renewalQueue = s.renewalQueue) : SameSubscriptions s s' := by
  refine ⟨fun a => ?_, hsubs, hrenewals, hqueue⟩
  rw [ChainState.profileOf, ChainState.profileOf, hprofiles]
  exact .refl _

/-- One profile is written with the subscription that it had. -/
theorem SameSubscriptions.of_set {owner : Addr} {core : ProfileCore}
    (hprofiles : s'.profiles = s.profiles.set owner core)
    (hcore : (s.profileOf owner).SameSubscription core) (hsubs : s'.subs = s.subs)
    (hrenewals : s'.renewals = s.renewals) (hqueue : s'.renewalQueue = s.renewalQueue) :
    SameSubscriptions s s' := by
  refine ⟨fun a => ?_, hsubs, hrenewals, hqueue⟩
  rw [ChainState.profileOf, ChainState.profileOf, hprofiles, get_set]
  split
  next ha => exact ha ▸ hcore
  next => exact .refl _

/-- Apart from the curation store and subscriptions only profiles differ, and they keep their
usernames. -/
def ChainState.Framed (s s' : ChainState) : Prop :=
  ∃ profiles curation subs renewals queue, s' = { s with
    profiles := profiles
    curation := curation
    subs := subs
    renewals := renewals
    renewalQueue := queue } ∧
    ∀ a, (profiles.get a).bind ProfileCore.username = (s.profiles.get a).bind ProfileCore.username

theorem ChainState.Framed.replace (h : s.Framed s') (now : ℤ) (owner : Addr) :
    s.Framed (replaceSubscriptionRenewalSchedule now s' owner) := by
  obtain ⟨_, _, hframe⟩ := replaceSubscriptionRenewalSchedule_frame now s' owner
  obtain ⟨_, _, _, _, _, rfl, hnames⟩ := h
  rw [hframe]
  exact ⟨_, _, _, _, _, rfl, hnames⟩

theorem ChainState.Framed.of_set {owner : Addr} {core : ProfileCore}
    (hname : core.username = (s.profiles.get owner).bind ProfileCore.username)
    (curation : CurationState) (subs : OrderedMap (ℤ ×ₗ Addr) ℤ) : s.Framed { s with
      profiles := s.profiles.set owner core
      curation := curation
      subs := subs } := by
  refine ⟨_, _, _, _, _, rfl, fun a => ?_⟩
  rw [get_set]
  split
  next ha => exact ha ▸ hname
  next => rfl

namespace KeeperCall

/-- The calls that may change a subscription. -/
def Subscribing : KeeperCall → Prop
  | extend _ _ _ _ | govExtend _ _ _ _ | unsubscribe _ | expire _ | setAutoRenew _ _ _ => True
  | reschedule _ | dequeue _ | deleteUser _ _ => True
  | _ => False

/-- The other calls leave all subscriptions alone. -/
theorem sameSubscriptions {k : KeeperCall} (hready : k.Ready ctx s) (hk : ¬ k.Subscribing)
    (h : k.exec env ctx s = .ok s') : SameSubscriptions s s' := by
  cases k with
  | other s₁ =>
    cases h
    exact .of_profiles hready.profiles hready.subs hready.renewals hready.renewalQueue
  | curate call =>
    obtain ⟨c, -, h⟩ := bind_eq_ok.mp h
    cases h
    exact .of_profiles rfl rfl rfl rfl
  | block owner pattern cap | unblock owner pattern =>
    obtain ⟨b, -, h⟩ := bind_eq_ok.mp h
    cases h
    exact .of_profiles rfl rfl rfl rfl
  | setLevel target core level =>
    obtain ⟨c, -, rfl⟩ := saveAndTransition_frame h
    refine .of_set rfl ?_ rfl rfl rfl
    rw [profileOf_of_get hready.1]
    exact ⟨rfl, rfl, rfl⟩
  | touch owner =>
    obtain rfl := Except.ok.inj h
    exact .of_set rfl (.refl _) rfl rfl rfl
  | setUsername owner username =>
    obtain ⟨names, rfl⟩ := assignUsername_frame h
    exact .of_set rfl ⟨rfl, rfl, rfl⟩ rfl rfl rfl
  | updateParams p =>
    obtain rfl := Except.ok.inj h
    exact .of_profiles rfl rfl rfl rfl
  | _ => exact absurd trivial hk

/-- The calls that write no more than profiles, the curation store and subscriptions. -/
def Ordinary : KeeperCall → Prop
  | other _ | block _ _ _ | unblock _ _ | setUsername _ _ | deleteUser _ _ | updateParams _ => False
  | _ => True

theorem framed {k : KeeperCall} (hready : k.Ready ctx s) (hk : k.Ordinary)
    (h : k.exec env ctx s = .ok s') : s.Framed s' := by
  cases k with
  | curate call =>
    obtain ⟨c, -, h⟩ := bind_eq_ok.mp h
    cases h
    exact ⟨_, _, _, _, _, rfl, fun _ => rfl⟩
  | extend user core autoRenew stop | govExtend user core autoRenew stop =>
    obtain ⟨-, -, c, -, rfl⟩ := extendSubscription_eq_ok h
    refine (ChainState.Framed.of_set ?_ _ _).replace _ _
    rw [hready.1, ProfileCore.extended_username]
    rfl
  | unsubscribe user | expire sub =>
    obtain ⟨core, c, hcore, -, rfl⟩ := deactivatePaidState_eq_ok h
    refine (ChainState.Framed.of_set ?_ _ _).replace _ _
    exact (congrArg (Option.bind · ProfileCore.username) hcore).symm
  | setLevel target core level =>
    obtain ⟨c, -, rfl⟩ := saveAndTransition_frame h
    refine .of_set ?_ _ _
    rw [hready.1]
    rfl
  | setAutoRenew owner core autoRenew =>
    obtain rfl := Except.ok.inj h
    refine (ChainState.Framed.of_set ?_ s.curation s.subs).replace _ _
    rw [hready.1]
    rfl
  | reschedule key =>
    obtain rfl := Except.ok.inj h
    exact ChainState.Framed.replace ⟨_, _, _, _, _, rfl, fun _ => rfl⟩ _ _
  | dequeue key =>
    obtain rfl := Except.ok.inj h
    exact ⟨_, _, _, _, _, rfl, fun _ => rfl⟩
  | touch owner =>
    obtain rfl := Except.ok.inj h
    refine .of_set ?_ s.curation s.subs
    cases s.profiles.get owner <;> rfl
  | _ => exact hk.elim

/-- The calls that write the blocked communities. -/
def Blocking : KeeperCall → Prop
  | block _ _ _ | unblock _ _ => True
  | _ => False

/-- Only an update of the parameters changes them, no call takes back the marker of the
founders, and two calls change the blocked communities. -/
theorem settings_kept {k : KeeperCall} (hready : k.Ready ctx s) (h : k.exec env ctx s = .ok s') :
    ((∀ p, k ≠ .updateParams p) → s'.params = s.params) ∧
      (s.foundersPinned = true → s'.foundersPinned = true) ∧
      (¬ k.Blocking → s'.blockedCommunities = s.blockedCommunities) := by
  cases k with
  | other s₁ =>
    cases h
    exact ⟨fun _ => hready.params, hready.foundersPinned, fun _ => hready.blockedCommunities⟩
  | block owner pattern cap | unblock owner pattern =>
    obtain ⟨b, -, h⟩ := bind_eq_ok.mp h
    cases h
    exact ⟨fun _ => rfl, id, fun hk => absurd trivial hk⟩
  | setUsername owner username =>
    obtain ⟨names, rfl⟩ := assignUsername_frame h
    exact ⟨fun _ => rfl, id, fun _ => rfl⟩
  | deleteUser target core =>
    have hdeleted := deleteUserState_deleted h
    exact ⟨fun _ => hdeleted.params, fun hs => hdeleted.foundersPinned.trans hs,
      fun _ => hdeleted.blockedCommunities⟩
  | updateParams p =>
    obtain rfl := Except.ok.inj h
    exact ⟨fun hk => absurd rfl (hk p), id, fun _ => rfl⟩
  | _ =>
    obtain ⟨_, _, _, _, _, rfl, -⟩ := framed hready trivial h
    exact ⟨fun _ => rfl, id, fun _ => rfl⟩

theorem params_eq {k : KeeperCall} (hready : k.Ready ctx s) (hk : ∀ p, k ≠ .updateParams p)
    (h : k.exec env ctx s = .ok s') : s'.params = s.params :=
  (settings_kept hready h).1 hk

end KeeperCall

end Same

/-! ## 3. One account -/

section Account

variable {env : ChainEnv} {ctx : BlockCtx} {s s' : ChainState} {a owner : Addr}
  {core : ProfileCore} {x x₀ stop : ℤ}

theorem has_removeSubscription :
    (removeSubscription s owner x₀).subs.has (toLex (x, a)) = true ↔
      s.subs.has (toLex (x, a)) = true ∧ ¬ (a = owner ∧ x = x₀) := by
  rw [removeSubscription, has_erase, Bool.and_eq_true, and_comm, Bool.not_eq_true',
    decide_eq_false_iff_not, toLex_inj, Prod.mk.injEq, and_comm (a := x = x₀)]

theorem has_dropSubscription :
    (dropSubscription s owner core).subs.has (toLex (x, a)) = true ↔
      s.subs.has (toLex (x, a)) = true ∧
        ¬ (a = owner ∧ 0 < core.subscriptionExpiry ∧ x = core.subscriptionExpiry) := by
  unfold dropSubscription
  split
  next hpos => simp [has_removeSubscription, hpos]
  next hpos => simp [hpos]

theorem has_resubscribed :
    (s.resubscribed owner core stop).has (toLex (x, a)) = true ↔ a = owner ∧ x = stop ∨
      s.subs.has (toLex (x, a)) = true ∧
        ¬ (a = owner ∧ 0 < core.subscriptionExpiry ∧ x = core.subscriptionExpiry) := by
  rw [ChainState.resubscribed, has_set_iff, has_dropSubscription]
  simp [and_comm]

/-- What a keeper call does to the subscription of an account. -/
inductive AccountChange (s s' : ChainState) (a : Addr) : KeeperCall → Prop
  | same {k : KeeperCall} :
      (s'.profileOf a).effectivePaid = (s.profileOf a).effectivePaid →
      (s'.profileOf a).subscriptionExpiry = (s.profileOf a).subscriptionExpiry →
      (∀ x, s'.subs.has (toLex (x, a)) = s.subs.has (toLex (x, a))) → AccountChange s s' a k
  | extended {k : KeeperCall} {core : ProfileCore} {autoRenew : Bool} {stop : ℤ} :
      k = .extend a core autoRenew stop ∨ k = .govExtend a core autoRenew stop →
      s.profileOf a = core → 0 < stop → s'.profileOf a = core.extended autoRenew stop →
      (∀ x, s'.subs.has (toLex (x, a)) = true ↔ x = stop ∨ s.subs.has (toLex (x, a)) = true ∧
        ¬ (0 < core.subscriptionExpiry ∧ x = core.subscriptionExpiry)) →
      AccountChange s s' a k
  | unsubscribed : (s'.profileOf a) = (s.profileOf a).deactivated →
      (∀ x, s'.subs.has (toLex (x, a)) = s.subs.has (toLex (x, a))) →
      AccountChange s s' a (.unsubscribe a)
  | expired {x₀ : ℤ} : s'.profileOf a = (s.profileOf a).deactivated →
      (∀ x, s'.subs.has (toLex (x, a)) = true ↔ s.subs.has (toLex (x, a)) = true ∧ x ≠ x₀) →
      s.subs.has (toLex (x₀, a)) = true → AccountChange s s' a (.expire (x₀, a))
  | deleted {core : ProfileCore} : s.profileOf a = core → (s'.profileOf a) = .blank →
      (∀ x, s'.subs.has (toLex (x, a)) = true ↔ s.subs.has (toLex (x, a)) = true ∧
        ¬ (0 < core.subscriptionExpiry ∧ x = core.subscriptionExpiry)) →
      AccountChange s s' a (.deleteUser a core)

theorem profileOf_set_self (hprofiles : s'.profiles = s.profiles.set a core) :
    s'.profileOf a = core := by
  rw [ChainState.profileOf, hprofiles, get_set_self]
  rfl

theorem profileOf_of_get_eq (h : s'.profiles.get a = s.profiles.get a) :
    s'.profileOf a = s.profileOf a := by
  rw [ChainState.profileOf, h, ChainState.profileOf]

theorem AccountChange.of_profile {k : KeeperCall} (hprofile : s'.profileOf a = s.profileOf a)
    (hsubs : ∀ x, s'.subs.has (toLex (x, a)) = true ↔ s.subs.has (toLex (x, a)) = true) :
    AccountChange s s' a k :=
  .same (congrArg _ hprofile) (congrArg _ hprofile) fun x => Bool.eq_iff_iff.mpr (hsubs x)

theorem KeeperCall.account_cases {k : KeeperCall} (hready : k.Ready ctx s)
    (h : k.exec env ctx s = .ok s') (a : Addr) : AccountChange s s' a k := by
  by_cases hk : k.Subscribing
  · cases k with
    | extend user core autoRenew stop | govExtend user core autoRenew stop =>
      obtain ⟨hpos, -⟩ := extendSubscription_eq_ok h
      obtain ⟨hprofiles, hsubs, -⟩ := extendSubscription_writes h
      rcases eq_or_ne a user with rfl | hne
      · refine .extended (by simp) (profileOf_of_get hready.1) hpos
          (profileOf_set_self hprofiles) fun x => ?_
        rw [hsubs, has_resubscribed]
        simp
      · refine .of_profile (profileOf_of_get_eq ?_) fun x => ?_
        · rw [hprofiles, get_set_of_ne _ hne]
        · rw [hsubs, has_resubscribed]
          simp [hne]
    | unsubscribe user =>
      obtain ⟨core, hcore, hprofiles, hsubs, -⟩ := deactivatePaidState_writes h
      rcases eq_or_ne a user with rfl | hne
      · refine .unsubscribed ?_ fun x => by rw [hsubs]
        rw [profileOf_set_self hprofiles, profileOf_of_get hcore]
      · refine .of_profile (profileOf_of_get_eq ?_) fun x => by rw [hsubs]
        rw [hprofiles, get_set_of_ne _ hne]
    | expire sub =>
      obtain ⟨x₀, user⟩ := sub
      obtain ⟨core, hcore, hprofiles, hsubs, -⟩ := deactivatePaidState_writes h
      have hhas : ∀ x, s'.subs.has (toLex (x, a)) = true ↔
          s.subs.has (toLex (x, a)) = true ∧ ¬ (a = user ∧ x = x₀) := by
        intro x
        rw [hsubs, has_removeSubscription]
      rcases eq_or_ne a user with rfl | hne
      · refine .expired ?_ (by simpa using hhas) hready.1
        rw [profileOf_set_self hprofiles]
        exact congrArg _ (profileOf_of_get (s := s) hcore).symm
      · refine .of_profile (profileOf_of_get_eq ?_) (by simpa [hne] using hhas)
        rw [hprofiles, get_set_of_ne _ hne]
        rfl
    | setAutoRenew owner core autoRenew =>
      obtain rfl := Except.ok.inj h
      obtain ⟨hprofiles, hsubs, -⟩ := replaceSubscriptionRenewalSchedule_same ctx.time
        (s.saveProfile owner { core with autoRenew := autoRenew }) owner
      have hset := profileOf_set_self (s := s) hprofiles
      rcases eq_or_ne a owner with rfl | hne
      · have hold := profileOf_of_get hready.1
        exact .same (by rw [hset, hold]) (by rw [hset, hold]) fun x => by rw [hsubs]; rfl
      · refine .of_profile (profileOf_of_get_eq ?_) fun x => by rw [hsubs]; rfl
        rw [hprofiles, ChainState.saveProfile, get_set_of_ne _ hne]
    | reschedule key =>
      obtain rfl := Except.ok.inj h
      obtain ⟨hprofiles, hsubs, -⟩ := replaceSubscriptionRenewalSchedule_same ctx.time
        { s with renewalQueue := s.renewalQueue.erase key } key.owner
      exact .of_profile (profileOf_of_get_eq (by rw [hprofiles])) fun x => by rw [hsubs]
    | dequeue key =>
      obtain rfl := Except.ok.inj h
      exact .of_profile rfl fun x => .rfl
    | deleteUser target core =>
      have hdel := deleteUserState_deleted h
      rcases eq_or_ne a target with rfl | hne
      · refine .deleted (profileOf_of_get hready) ?_ fun x => ?_
        · rw [ChainState.profileOf, hdel.profiles, get_erase_self]
          rfl
        · rw [hdel.subs, has_dropSubscription]
          simp
      · refine .of_profile (profileOf_of_get_eq ?_) fun x => ?_
        · rw [hdel.profiles, get_erase_of_ne hne]
        · rw [hdel.subs, has_dropSubscription]
          simp [hne]
    | _ => exact hk.elim
  · have hsame := KeeperCall.sameSubscriptions hready hk h
    exact .same (hsame.profile a).effectivePaid (hsame.profile a).subscriptionExpiry fun x => by
      rw [hsame.subs]

end Account

end MirageNode
