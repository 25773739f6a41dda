import MirageNode.KeeperCalls
import MirageNode.EpochLife

/-!
# What the handlers call

Every message handler makes its checks, charges the quota and makes keeper calls. So an
invariant that the keeper calls keep is kept by every relay message (`RelayMsg.keeps`) and
by every governance message (`GovMsg.keeps`), and neither returns an excluded error.
-/

namespace MirageNode

open OrderedStore OrderedMap Fallible

/-! ## 1. Checks and charges -/

variable {core : ProfileCore} {p : Params} {level : ℤ} {hash : Hash} {recipient : Option Addr}
  {pattern : Text} {text : Option Text}

section Checks

variable {env : ChainEnv} {ctx : BlockCtx} {s : ChainState} {actor : Actor} {owner target : Addr}
  {action : String}

theorem requireUsername_quiet : Quiet (requireUsername s owner action) := by
  unfold requireUsername
  split
  · exact .error id
  · exact (Avoids.failIf fun _ => id).bind fun _ _ => .ok _

theorem requireUsername_eq_ok (h : requireUsername s owner action = .ok core) :
    s.profiles.get owner = some core ∧ core.username ≠ none := by
  unfold requireUsername at h
  cases hget : s.profiles.get owner with
  | none => simp [hget] at h
  | some core' =>
    simp only [hget, bind_eq_ok, failIf_eq_ok, exists_const, pure_eq_ok] at h
    obtain ⟨hname, rfl⟩ := h
    exact ⟨rfl, hname⟩

theorem requireCuratorEligible_quiet : Quiet (requireCuratorEligible s owner action) :=
  requireUsername_quiet.bind fun _ _ => (Avoids.failIf fun _ => id).bind fun _ _ => .ok _

theorem envelopeOwner_quiet : Quiet (envelopeOwner actor) := by
  cases actor with
  | governance => exact .error id
  | user addr pow => exact .ok addr

theorem envelopeOwner_eq_ok (h : envelopeOwner actor = .ok owner) :
    ∃ pow, actor = .user owner pow := by
  cases actor with
  | governance => cases h
  | user addr pow => exact ⟨pow, by rw [Except.ok.inj h]⟩

theorem actorLevel_quiet : Quiet (actorLevel s actor action) := by
  cases actor with
  | governance => exact .ok _
  | user addr pow => exact requireUsername_quiet.bind fun _ _ => .ok _

theorem targetOwner_quiet : Quiet (targetOwner actor target) := by
  cases actor with
  | governance => exact .ok target
  | user addr pow => exact (Avoids.failIf fun _ => id).bind fun _ _ => .ok _

theorem tierOf_quiet : Quiet (tierOf p level) := by
  unfold tierOf
  split
  · exact .error id
  · exact .ok _

theorem communityTier_quiet : Quiet (communityTier p level) := by
  unfold communityTier
  split
  · exact .error id
  · exact .ok _

theorem liftText_quiet {α : Type} (x : Except String α) : Quiet (liftText x) :=
  liftText_avoids x fun _ => id

theorem liftCore_quiet {α : Type} (x : Except CoreError α) : Quiet (liftCore x) :=
  liftCore_avoids x fun _ => id

theorem checkLengths_quiet {isComment : Bool} {content title : ℕ} :
    Quiet (checkLengths p level isComment content title) :=
  tierOf_quiet.bind fun _ _ => (Avoids.failIf fun _ => id).bind fun _ _ => .failIf fun _ => id

theorem checkCommunity_quiet {isComment : Bool} {community : Option Slug} :
    Quiet (checkCommunity env p isComment community) := by
  unfold checkCommunity
  split
  · exact .failIf fun _ => id
  · split
    · exact .error id
    · exact liftText_quiet _

theorem consumeSubscriberQuota_passes : Passes s (consumeSubscriberQuota ctx s owner) := by
  unfold consumeSubscriberQuota
  split
  · exact .ok (.refl s)
  · split
    · exact .ok (.refl s)
    · exact .failIf id fun _ => .ok ⟨rfl, rfl, rfl, rfl, rfl, rfl, rfl, rfl, rfl, id⟩

theorem chargeUser_passes : Passes s (chargeUser ctx s actor) := by
  cases actor with
  | governance => exact .ok (.refl s)
  | user addr pow => exact consumeSubscriberQuota_passes

/-- A call on the creator store. -/
theorem onCreator_passes (s : ChainState) (f : CreatorState → Except CoreError CreatorState) :
    Passes s (onCreator s f) :=
  .read (liftCore_quiet _) fun _ _ => .ok ⟨rfl, rfl, rfl, rfl, rfl, rfl, rfl, rfl, rfl, id⟩

theorem sameCore_bank (bank : Bank) :
    s.SameCore { s with creator := { s.creator with bank := bank } } :=
  ⟨rfl, rfl, rfl, rfl, rfl, rfl, rfl, rfl, rfl, id⟩

end Checks

/-! ## 2. Handlers without keeper calls -/

section Passing

variable {env : ChainEnv} {ctx : BlockCtx} {s : ChainState} {actor : Actor} {owner target : Addr}

theorem handlePost_passes {d : PostDraft} : Passes s (handlePost env ctx s actor d) := by
  unfold handlePost
  refine .read actorLevel_quiet fun level _ => .failIf id fun _ => .failIf id fun _ =>
    .read (liftText_quiet _) fun _ _ => .read checkCommunity_quiet fun _ _ => .failIf id fun _ =>
    .read (liftText_quiet _) fun _ _ => .read (liftText_quiet _) fun _ _ =>
    .read checkLengths_quiet fun _ _ => .read (liftCore_quiet _) fun seq _ => ?_
  exact .after (.bind (onCreator_passes _ _) fun _ _ => consumeSubscriberQuota_passes)
    ⟨rfl, rfl, rfl, rfl, rfl, rfl, rfl, rfl, rfl, id⟩

theorem handleVote_passes {direction : ℤ} : Passes s (handleVote ctx s actor hash direction) := by
  cases actor with
  | governance => exact .ok (.refl s)
  | user addr pow =>
    exact .read requireUsername_quiet fun _ _ => .bind (onCreator_passes _ _)
      fun _ _ => consumeSubscriberQuota_passes

theorem handleEdit_passes {d : EditDraft} : Passes s (handleEdit env ctx s actor d) :=
  .read actorLevel_quiet fun _ _ => .read (liftText_quiet _) fun _ _ =>
    .read checkLengths_quiet fun _ _ => .read checkCommunity_quiet fun _ _ =>
    .read (liftText_quiet _) fun _ _ => consumeSubscriberQuota_passes

theorem handleDelete_passes : Passes s (handleDelete env ctx s actor hash) :=
  .read actorLevel_quiet fun _ _ => .bind (onCreator_passes _ _)
    fun _ _ => consumeSubscriberQuota_passes

theorem handleAward_passes {awardType : Name} :
    Passes s (handleAward env ctx s actor awardType) := by
  unfold handleAward
  refine .read actorLevel_quiet fun _ _ => .failIf id fun _ => ?_
  split
  · exact .error id
  · exact .read communityTier_quiet fun _ _ => .read (.mapError fun _ _ => id) fun bank _ =>
      .after chargeUser_passes (sameCore_bank bank)

theorem ListStore.addDequeEntry_quiet {l : ListStore} {entry cap : ℕ} :
    Quiet (l.addDequeEntry owner entry cap) := by
  unfold ListStore.addDequeEntry
  split
  · exact .ok l
  · refine Avoids.bind (.mapError fun _ _ => id) fun _ _ => (Avoids.failIf fun _ => id).bind
      fun _ _ => ?_
    dsimp only
    split <;> exact .ok _

theorem ListStore.addSetEntry_quiet {l : ListStore} {entry : ℕ} :
    Quiet (l.addSetEntry owner entry) := by
  unfold ListStore.addSetEntry
  split
  · exact .ok l
  · exact (Avoids.failIf fun _ => id).bind fun _ _ => .ok _

theorem handleBlockPost_passes : Passes s (handleBlockPost env ctx s actor hash) :=
  .read actorLevel_quiet fun _ _ => .read tierOf_quiet fun _ _ => .failIf id fun _ =>
    .read ListStore.addDequeEntry_quiet fun _ _ =>
    .after chargeUser_passes ⟨rfl, rfl, rfl, rfl, rfl, rfl, rfl, rfl, rfl, id⟩

theorem handleUnblockPost_passes : Passes s (handleUnblockPost env ctx s actor hash) :=
  .read actorLevel_quiet fun _ _ => .after chargeUser_passes
    ⟨rfl, rfl, rfl, rfl, rfl, rfl, rfl, rfl, rfl, id⟩

theorem handleBlockUser_passes : Passes s (handleBlockUser env ctx s actor target) :=
  .read actorLevel_quiet fun _ _ => .failIf id fun _ => .read tierOf_quiet fun _ _ =>
    .failIf id fun _ => .read ListStore.addDequeEntry_quiet fun _ _ =>
    .after chargeUser_passes ⟨rfl, rfl, rfl, rfl, rfl, rfl, rfl, rfl, rfl, id⟩

theorem handleUnblockUser_passes : Passes s (handleUnblockUser env ctx s actor target) :=
  .read actorLevel_quiet fun _ _ => .after chargeUser_passes
    ⟨rfl, rfl, rfl, rfl, rfl, rfl, rfl, rfl, rfl, id⟩

theorem handleUnfollowUser_passes {user : Addr} :
    Passes s (handleUnfollowUser ctx s actor target user) :=
  .read targetOwner_quiet fun _ _ => .read actorLevel_quiet fun _ _ =>
    .after chargeUser_passes ⟨rfl, rfl, rfl, rfl, rfl, rfl, rfl, rfl, rfl, id⟩

theorem checkSender_quiet {sender : Addr} : Quiet (checkSender actor sender) := by
  cases actor with
  | governance => exact .ok ()
  | user addr pow => exact .failIf fun _ => id

theorem handleSendTokens_passes {sender : Addr} {amount : ℕ} :
    Passes s (handleSendTokens ctx s actor sender target amount) :=
  .read checkSender_quiet fun _ _ => .read actorLevel_quiet fun _ _ => .failIf id fun _ =>
    .failIf id fun _ => .read (.mapError fun _ _ => id) fun bank _ =>
    .after consumeSubscriberQuota_passes (sameCore_bank bank)

theorem handleClaimCreatorRewards_passes {epochs : List ℤ} :
    Passes s (handleClaimCreatorRewards ctx s actor epochs) :=
  .read envelopeOwner_quiet fun _ _ => .bind consumeSubscriberQuota_passes fun _ _ =>
    onCreator_passes _ _

theorem handleMintTokens_passes {amount : ℕ} : Passes s (handleMintTokens s target amount) :=
  .failIf id fun _ => .ok (sameCore_bank _)

theorem handleBurnTokens_passes {amount : ℕ} : Passes s (handleBurnTokens s target amount) :=
  .failIf id fun _ => .read (liftCore_quiet _) fun bank _ => .ok (sameCore_bank bank)

theorem quoteTranche_quiet {n : ℕ} {payer recipient : Addr} {source : TrancheSource}
    {periodCount : ℕ} {expiry : ℤ} :
    Quiet (quoteTranche ctx p n payer recipient source periodCount expiry) := by
  unfold quoteTranche
  split
  · exact .error id
  · exact (liftCore_quiet _).bind fun _ _ => (liftCore_quiet _).bind fun _ _ =>
      (liftCore_quiet _).bind fun _ _ => (liftCore_quiet _).bind fun _ _ =>
      (liftCore_quiet _).bind fun _ _ => .ok _

end Passing

/-! ## 3. Handlers with keeper calls -/

section Calling

variable {env : ChainEnv} {ctx : BlockCtx} {I : ChainState → Prop} {bad : ChainError → Prop}
  {allow : KeeperCall → ChainState → Prop} (hk : Sound env ctx I bad allow)
  {s : ChainState} (hs : I s) {actor : Actor} {owner target : Addr} {slug : Slug} {team : ℕ}

include hk

/-- A check inside of the computation that the rest continues. -/
theorem Sound.read_bind {α β : Type} {x : Except ChainError α} {f : α → Except ChainError β}
    {g : β → Except ChainError ChainState} (hx : Quiet x)
    (hf : ∀ a, x = .ok a → Keeps I bad (f a >>= g)) : Keeps I bad ((x >>= f) >>= g) := by
  rw [bind_assoc]
  exact hk.read hx hf

include hs

/-- A call on the curation store that no condition is put on. -/
theorem Sound.curate (call : CurationCall) (hready : call.Ready s)
    (hplain : ¬ (KeeperCall.curate call).Special) :
    Keeps I bad ((KeeperCall.curate call).exec env ctx s) :=
  hk.plain (.curate call) hs hready hplain

theorem touchProfile_keeps : Keeps I bad (updateProfileCore env s owner id) :=
  hk.read tierOf_quiet fun _ _ => hk.read (liftText_quiet _) fun _ _ =>
    hk.plain (.touch owner) hs trivial id

theorem handleSetUsername_keeps {username : Name} :
    Keeps I bad (handleSetUsername env ctx s actor target username) := by
  refine hk.read targetOwner_quiet fun owner _ => ?_
  have hassign : Keeps I bad (do
      let s ← assignUsername env s owner username
      consumeSubscriberQuota ctx s owner) :=
    (hk.plain (.setUsername owner username) hs trivial id).bind fun s₁ _ hs₁ =>
      hk.last hs₁ consumeSubscriberQuota_passes
  simp only [assignUsername, bind_assoc] at hassign
  exact hassign

theorem handleSetBiography_keeps {biography : Text} {length : ℕ} :
    Keeps I bad (handleSetBiography env ctx s actor target biography length) := by
  refine hk.read targetOwner_quiet fun owner _ => hk.read actorLevel_quiet fun level _ =>
    hk.read (liftText_quiet _) fun _ _ => hk.read ?_ fun _ _ =>
    (touchProfile_keeps hk hs).bind fun s₂ _ hs₂ =>
      hk.last hs₂ consumeSubscriberQuota_passes
  unfold checkBiographyOf checkBiography
  split
  · split
    · exact .error id
    · exact (Avoids.failIf fun _ => id).bind fun _ _ => (Avoids.failIf fun _ => id).bind
        fun _ _ => .failIf fun _ => id
  · exact .ok ()

theorem handleFollowUser_keeps {user : Addr} :
    Keeps I bad (handleFollowUser env ctx s actor target user) := by
  refine hk.read targetOwner_quiet fun owner _ => hk.failIf id fun _ =>
    hk.read actorLevel_quiet fun level _ => hk.read tierOf_quiet fun tier _ => ?_
  have hunblocked : s.SameCore
      { s with blockedUsers := s.blockedUsers.removeSetEntry owner user } :=
    ⟨rfl, rfl, rfl, rfl, rfl, rfl, rfl, rfl, rfl, id⟩
  split
  · exact hk.other hs hunblocked
  · refine hk.failIf id fun _ => hk.read ListStore.addSetEntry_quiet fun list _ => ?_
    have hfollowed : s.SameCore { s with
        blockedUsers := s.blockedUsers.removeSetEntry owner user, followedUsers := list } :=
      ⟨rfl, rfl, rfl, rfl, rfl, rfl, rfl, rfl, rfl, id⟩
    have hs₁ := hk.other hs hfollowed
    refine Keeps.bind ?_ fun s₂ _ hs₂ => hk.last hs₂ chargeUser_passes
    unfold ensureProfile
    split
    · exact hs₁
    · exact touchProfile_keeps hk hs₁

theorem handleDeleteUser_keeps
    (hallow : ∀ core, s.profiles.get target = some core → allow (.deleteUser target core) s) :
    Keeps I bad (handleDeleteUser env ctx s actor target) := by
  have hcheck : Quiet (checkDeleteTarget actor target) := by
    cases actor with
    | governance => exact .ok ()
    | user addr pow => exact .failIf fun _ => id
  unfold handleDeleteUser
  refine hk.read hcheck fun _ _ => ?_
  cases hcore : s.profiles.get target with
  | none => exact hk.error id
  | some core =>
    refine hk.failIf id fun _ => hk.pass hs chargeUser_passes fun s₁ hsame hs₁ => ?_
    exact hk.call (.deleteUser target core) s₁ hs₁ (hsame.profile hcore)
      fun _ => hk.allow_same hsame (hallow core hcore)

/-! ### Subscriptions -/

theorem createTranche_keeps {payer recipient : Addr} {source : TrancheSource} {periodCount : ℕ} :
    Keeps I bad (createTranche env.toTextRules ctx s payer recipient source periodCount) := by
  unfold createTranche
  refine hk.failIf id fun hcount => hk.read (.mapError fun _ _ => id) fun id' _ => ?_
  cases hcore : s.profiles.get recipient with
  | none => exact hk.error id
  | some core =>
    refine hk.read quoteTranche_quiet fun tr htr =>
      hk.pass hs (onCreator_passes _ _) fun s₁ hsame hs₁ => ?_
    have hbought : Purchased ctx s₁.params recipient core tr.endTime := by
      rw [hsame.params]
      exact ⟨id', payer, source, periodCount, tr, by omega, by omega, htr, rfl⟩
    have hcall := hk.plain (.extend recipient core (core.autoRenew || source = .selfPurchase)
      tr.endTime) hs₁ ⟨hsame.profile hcore, hbought⟩ id
    exact Keeps.bind hcall fun s₂ _ hs₂ => hk.last hs₂ (onCreator_passes _ _)

theorem handleSubscribe_keeps {level periodCount : ℕ} :
    Keeps I bad (handleSubscribe env ctx s actor recipient level periodCount) := by
  have hparties : Quiet (subscriptionParties actor recipient) := by
    unfold subscriptionParties
    split
    · exact .error id
    · exact .ok _
    · exact .ok _
    · split <;> exact .ok _
  exact hk.read hparties fun parties _ => hk.failIf id fun _ => hk.failIf id fun _ =>
    hk.failIf id fun _ => hk.read requireUsername_quiet fun _ _ =>
    (createTranche_keeps hk hs).bind fun s₁ _ hs₁ => hk.last hs₁ consumeSubscriberQuota_passes

theorem handleSetAutoRenewal_keeps {autoRenew : Bool} :
    Keeps I bad (handleSetAutoRenewal ctx s actor autoRenew) := by
  unfold handleSetAutoRenewal
  refine hk.read envelopeOwner_quiet fun owner _ => hk.read requireUsername_quiet fun core hcore =>
    hk.failIf id fun _ => hk.failIf id fun hpaid => hk.failIf id fun _ => hk.failIf id fun _ => ?_
  split
  · exact hk.last hs consumeSubscriberQuota_passes
  · have hcall := hk.plain (.setAutoRenew owner core autoRenew) hs
      ⟨(requireUsername_eq_ok hcore).1, by simpa using hpaid⟩ id
    exact hk.last hcall consumeSubscriberQuota_passes

/-! ### Communities -/

theorem handleJoinCommunity_keeps {mode : ℤ} :
    Keeps I bad (handleJoinCommunity env ctx s actor slug mode team) :=
  hk.read envelopeOwner_quiet fun owner _ => hk.read requireUsername_quiet fun core hcore =>
    hk.pass hs consumeSubscriberQuota_passes fun _ hsame hs₁ =>
    hk.read communityTier_quiet fun tier _ => hk.read (liftText_quiet _) fun _ _ =>
    hk.curate hs₁ (.joinWithLens owner core slug (uint32 tier.maxJoinedCommunities) mode team)
      (hsame.profile (requireUsername_eq_ok hcore).1) id

theorem leaveAs_keeps (hcore : s.profiles.get owner = some core)
    (hallow : allow (.curate (.leave owner core slug)) s) :
    Keeps I bad (leaveAs env ctx s owner core slug) :=
  hk.call (.curate (.leave owner core slug)) s hs hcore fun _ => hallow

theorem handleLeaveCommunity_keeps
    (hallow : ∀ owner pow core, actor = .user owner pow → s.profiles.get owner = some core →
      allow (.curate (.leave owner core slug)) s) :
    Keeps I bad (handleLeaveCommunity env ctx s actor slug) :=
  hk.read envelopeOwner_quiet fun owner howner => hk.read requireUsername_quiet fun core hcore =>
    hk.pass hs consumeSubscriberQuota_passes fun s₁ hsame hs₁ => by
    obtain ⟨pow, rfl⟩ := envelopeOwner_eq_ok howner
    obtain ⟨hcore, -⟩ := requireUsername_eq_ok hcore
    exact leaveAs_keeps hk hs₁ (hsame.profile hcore)
      (hk.allow_same hsame (hallow owner pow core rfl hcore))

theorem blockCommunityAs_keeps {tier : TierConfig} :
    Keeps I bad (blockCommunityAs s owner core pattern tier) :=
  hk.failIf id fun _ =>
    hk.plain (.block owner pattern (uint32 tier.maxBlockedCommunities)) hs trivial id

theorem handleBlockCommunity_keeps : Keeps I bad (handleBlockCommunity env ctx s actor pattern) :=
  hk.read envelopeOwner_quiet fun _ _ => hk.read requireUsername_quiet fun _ _ =>
    hk.pass hs consumeSubscriberQuota_passes fun _ _ hs₁ =>
    hk.read communityTier_quiet fun _ _ => hk.read (liftText_quiet _) fun _ _ =>
    blockCommunityAs_keeps hk hs₁

theorem handleUnblockCommunity_keeps : Keeps I bad (handleUnblockCommunity ctx s actor pattern) :=
  hk.read envelopeOwner_quiet fun owner _ => hk.read requireUsername_quiet fun _ _ =>
    hk.pass hs consumeSubscriberQuota_passes fun _ _ hs₁ =>
    hk.plain (.unblock owner pattern) hs₁ trivial id

omit hk hs in
theorem requireLegacyOwnerTarget_quiet : Quiet (requireLegacyOwnerTarget actor recipient) :=
  envelopeOwner_quiet.bind fun _ _ => (Avoids.failIf fun _ => id).bind fun _ _ =>
    (Avoids.failIf fun _ => id).bind fun _ _ => .ok _

omit hk hs in
theorem requireLegacyEmptyTarget_quiet : Quiet (requireLegacyEmptyTarget actor text) :=
  envelopeOwner_quiet.bind fun _ _ => (Avoids.failIf fun _ => id).bind fun _ _ => .ok _

omit hk hs in
theorem requireLegacyOwnerTarget_eq_ok
    (h : requireLegacyOwnerTarget actor recipient = .ok owner) :
      ∃ pow, actor = .user owner pow := by
  simp only [requireLegacyOwnerTarget, bind_eq_ok, failIf_eq_ok, exists_const, pure_eq_ok] at h
  obtain ⟨_, howner, -, -, rfl⟩ := h
  exact envelopeOwner_eq_ok howner

omit hk hs in
theorem requireLegacyEmptyTarget_eq_ok
    (h : requireLegacyEmptyTarget actor text = .ok owner) : ∃ pow, actor = .user owner pow := by
  simp only [requireLegacyEmptyTarget, bind_eq_ok, failIf_eq_ok, exists_const, pure_eq_ok] at h
  obtain ⟨_, howner, -, rfl⟩ := h
  exact envelopeOwner_eq_ok howner

/-- The loop over the blocked patterns that match a community is a number of calls. -/
theorem unblockAll_keeps {patterns : List Text} :
    Keeps I bad (do
      let blocked ← patterns.foldlM (fun b pattern => b.remove owner pattern) s.blockedCommunities
      return { s with blockedCommunities := blocked }) := by
  induction patterns generalizing s with
  | nil => exact hs
  | cons pattern patterns ih =>
    rw [List.foldlM_cons, bind_assoc]
    have hone := hk.plain (.unblock owner pattern) hs trivial id
    have hexec : (KeeperCall.unblock owner pattern).exec env ctx s = (do
        let blocked ← s.blockedCommunities.remove owner pattern
        return { s with blockedCommunities := blocked }) := rfl
    rw [hexec] at hone
    cases hremove : s.blockedCommunities.remove owner pattern with
    | error e =>
      rw [hremove] at hone
      exact hone
    | ok blocked =>
      rw [hremove] at hone
      exact ih hone

theorem handleFollowTopic_keeps : Keeps I bad (handleFollowTopic env ctx s actor recipient slug) :=
  hk.read requireLegacyOwnerTarget_quiet fun owner _ => hk.read requireUsername_quiet
    fun core hcore => hk.pass hs consumeSubscriberQuota_passes fun s₁ hsame hs₁ =>
    hk.read (liftText_quiet _) fun _ _ => hk.read communityTier_quiet fun tier _ =>
    Keeps.bind (unblockAll_keeps hk hs₁) fun s₂ hs₂eq hs₂ => by
    have hprofiles : s₂.profiles = s₁.profiles := by
      obtain ⟨blocked, -, h⟩ := bind_eq_ok.mp hs₂eq
      cases h
      rfl
    refine hk.curate hs₂
      (.joinWithLens owner core slug (uint32 tier.maxJoinedCommunities) 0 0) ?_ id
    rw [CurationCall.Ready, hprofiles, hsame.profiles]
    exact (requireUsername_eq_ok hcore).1

theorem handleUnfollowTopic_keeps
    (hallow : ∀ owner pow core, actor = .user owner pow → s.profiles.get owner = some core →
      allow (.curate (.leave owner core slug)) s) :
    Keeps I bad (handleUnfollowTopic env ctx s actor recipient slug) :=
  hk.read requireLegacyOwnerTarget_quiet fun owner howner => hk.read requireUsername_quiet
    fun core hcore => hk.pass hs consumeSubscriberQuota_passes fun s₁ hsame hs₁ =>
    hk.read (liftText_quiet _) fun _ _ => by
    obtain ⟨pow, rfl⟩ := requireLegacyOwnerTarget_eq_ok howner
    obtain ⟨hcore, -⟩ := requireUsername_eq_ok hcore
    exact leaveAs_keeps hk hs₁ (hsame.profile hcore)
      (hk.allow_same hsame (hallow owner pow core rfl hcore))

/-- Leaving a number of communities, each of which may be left. -/
theorem leaveAll_keeps {slugs : List Slug} (hnodup : slugs.Nodup)
    (hcore : s.profiles.get owner = some core)
    (hallow : ∀ slug ∈ slugs, allow (.curate (.leave owner core slug)) s) :
    Keeps I bad (slugs.foldlM (fun s slug => leaveAs env ctx s owner core slug) s) := by
  induction slugs generalizing s with
  | nil => exact hs
  | cons slug slugs ih =>
    obtain ⟨hnot, hnodup⟩ := List.nodup_cons.mp hnodup
    rw [List.foldlM_cons]
    refine (leaveAs_keeps hk hs hcore (hallow slug List.mem_cons_self)).bind
      fun s₁ hs₁eq hs₁ => ?_
    obtain ⟨c, hc, hs₁eq⟩ := bind_eq_ok.mp hs₁eq
    cases hs₁eq
    refine ih hs₁ hnodup hcore fun slug' hslug' => ?_
    exact hk.leftOther owner core slug' slug s c hs (fun h => hnot (h ▸ hslug')) hc
      (hallow slug' (List.mem_cons_of_mem slug hslug'))

theorem handleBlockTopic_keeps
    (hallow : ∀ owner pow core slug, actor = .user owner pow → s.profiles.get owner = some core →
      s.curation.joins.has (toLex (owner, slug)) = true → env.matchesPattern slug pattern = true →
      allow (.curate (.leave owner core slug)) s) :
    Keeps I bad (handleBlockTopic env ctx s actor text pattern) := by
  refine hk.read requireLegacyEmptyTarget_quiet fun owner howner => hk.read requireUsername_quiet
    fun core hcore => hk.pass hs consumeSubscriberQuota_passes fun s₁ hsame hs₁ =>
    hk.read (liftText_quiet _) fun _ _ => hk.read communityTier_quiet fun tier _ =>
    Keeps.bind (blockCommunityAs_keeps hk hs₁) fun s₂ hs₂eq hs₂ => ?_
  obtain ⟨pow, rfl⟩ := requireLegacyEmptyTarget_eq_ok howner
  obtain ⟨hcore, -⟩ := requireUsername_eq_ok hcore
  simp only [blockCommunityAs, bind_eq_ok, failIf_eq_ok, exists_const, pure_eq_ok] at hs₂eq
  obtain ⟨-, blocked, -, rfl⟩ := hs₂eq
  have hnodup : ((s₁.curation.joinedCommunities owner).filter
      fun slug => env.matchesPattern slug pattern).Nodup :=
    (s₁.curation.joins.slice owner).nodup_keys.filter _
  refine leaveAll_keeps hk hs₂ hnodup (hsame.profile hcore) fun slug hslug => ?_
  obtain ⟨hjoined, hmatch⟩ := List.mem_filter.mp hslug
  refine hk.stable _ s _ hsame.params hsame.profiles hsame.curation hsame.subs ?_
  refine hallow owner pow core slug rfl hcore ?_ hmatch
  rw [← hsame.curation]
  exact CurationState.mem_joinedCommunities.mp hjoined

theorem handleUnblockTopic_keeps : Keeps I bad (handleUnblockTopic env ctx s actor text pattern) :=
  hk.read requireLegacyEmptyTarget_quiet fun owner _ => hk.read requireUsername_quiet fun _ _ =>
    hk.pass hs consumeSubscriberQuota_passes fun _ _ hs₁ => hk.read (liftText_quiet _) fun _ _ =>
    hk.plain (.unblock owner pattern) hs₁ trivial id

/-! ### Curation -/

theorem chargedCuration_keeps {f : ChainState → Addr → Except ChainError CurationState}
    (hf : ∀ s₁ owner pow, actor = .user owner pow → s.SameCore s₁ → I s₁ →
      Keeps I bad (do
        let curation ← f s₁ owner
        return { s₁ with curation := curation })) : Keeps I bad (chargedCuration ctx s actor f) :=
  hk.read envelopeOwner_quiet fun owner howner =>
    hk.pass hs consumeSubscriberQuota_passes fun s₁ hsame hs₁ => by
    obtain ⟨pow, hactor⟩ := envelopeOwner_eq_ok howner
    exact hf s₁ owner pow hactor hsame hs₁

theorem handleCreateCurationTeam_keeps {name : Name} {description : Text} :
    Keeps I bad (handleCreateCurationTeam env ctx s actor slug name description) :=
  hk.read envelopeOwner_quiet fun _ _ => hk.read requireCuratorEligible_quiet fun _ _ =>
    chargedCuration_keeps hk hs fun _ owner _ _ _ hs₁ =>
      hk.curate hs₁ (.createTeam owner slug name description) trivial id

theorem handleSetCurationTeamProfile_keeps {name : Name} {description : Text} :
    Keeps I bad (handleSetCurationTeamProfile env ctx s actor slug team name description) := by
  cases actor with
  | governance => exact hk.error id
  | user addr pow =>
    exact chargedCuration_keeps hk hs fun _ owner _ _ _ hs₁ =>
      hk.curate hs₁ (.rename owner slug team name description) trivial id

theorem handleInviteCurator_keeps :
    Keeps I bad (handleInviteCurator ctx s actor slug team target) :=
  chargedCuration_keeps hk hs fun _ owner _ _ _ hs₁ =>
    hk.curate hs₁ (.invite owner slug team target) trivial id

theorem handleRevokeCuratorInvite_keeps :
    Keeps I bad (handleRevokeCuratorInvite ctx s actor slug team target) :=
  chargedCuration_keeps hk hs fun _ _ _ _ _ hs₁ => hk.read_bind requireTeamOwner_avoids fun _ _ =>
    hk.curate hs₁ (.uninvite slug team target) trivial id

theorem handleAcceptCuratorInvite_keeps :
    Keeps I bad (handleAcceptCuratorInvite env ctx s actor slug team) :=
  chargedCuration_keeps hk hs fun _ owner _ _ _ hs₁ =>
    hk.curate hs₁ (.accept owner slug team) trivial id

theorem handleDeclineCuratorInvite_keeps :
    Keeps I bad (handleDeclineCuratorInvite ctx s actor slug team) :=
  chargedCuration_keeps hk hs fun _ owner _ _ _ hs₁ =>
    hk.curate hs₁ (.uninvite slug team owner) trivial id

theorem handleLeaveCurationTeam_keeps :
    Keeps I bad (handleLeaveCurationTeam ctx s actor slug team) := by
  refine chargedCuration_keeps hk hs fun s₁ owner pow _ _ hs₁ => ?_
  cases hget : s₁.curation.getCurationTeam slug team with
  | none => exact hk.error id
  | some t =>
    refine hk.read_bind (Avoids.failIf fun _ => id) fun _ hne => ?_
    exact hk.curate hs₁ (.remove t.community t.teamId owner)
      ⟨slug, team, t, hget, failIf_eq_ok.mp hne, .inr ⟨rfl, rfl⟩⟩ id

theorem handleRemoveCurator_keeps :
    Keeps I bad (handleRemoveCurator ctx s actor slug team target) := by
  refine chargedCuration_keeps hk hs fun s₁ owner pow _ _ hs₁ =>
    hk.read_bind (Avoids.failIf fun _ => id) fun _ hne =>
    hk.read_bind requireTeamOwner_avoids fun t ht => ?_
  obtain ⟨hlive, howner⟩ := requireTeamOwner_cases ht
  refine hk.curate hs₁ (.remove slug team target) ⟨slug, team, t,
    (CurationState.liveTeam_eq_some.mp hlive).1, ?_, .inl ⟨rfl, rfl⟩⟩ id
  rw [howner]
  exact fun h => failIf_eq_ok.mp hne h.symm

theorem handleTransferCurationTeam_keeps :
    Keeps I bad (handleTransferCurationTeam ctx s actor slug team target) :=
  chargedCuration_keeps hk hs fun _ _ _ _ _ hs₁ => hk.read_bind requireTeamOwner_avoids fun _ _ =>
    hk.curate hs₁ (.setOwner slug team target) trivial id

theorem handleDeleteCurationTeam_keeps :
    Keeps I bad (handleDeleteCurationTeam env ctx s actor slug team) :=
  chargedCuration_keeps hk hs fun _ _ _ _ _ hs₁ => hk.read_bind requireTeamOwner_avoids fun _ _ =>
    hk.curate hs₁ (.deleteTeam slug team) trivial id

theorem handleSetCurationPreference_keeps {mode : ℤ} :
    Keeps I bad (handleSetCurationPreference ctx s actor slug mode team) :=
  hk.read envelopeOwner_quiet fun owner howner => hk.read requireUsername_quiet fun core hcore =>
    chargedCuration_keeps hk hs fun s₁ owner' pow hactor hsame hs₁ => by
    obtain ⟨pow', hactor'⟩ := envelopeOwner_eq_ok howner
    obtain rfl : owner = owner' := by
      rw [hactor] at hactor'
      cases hactor'
      rfl
    exact hk.curate hs₁ (.prefer owner core slug mode team)
      (hsame.profile (requireUsername_eq_ok hcore).1) id

omit hk hs in
theorem requireTeamCurator_quiet {profiles : Profiles} {c : CurationState} :
    Quiet (requireTeamCurator profiles c owner slug team) := by
  unfold requireTeamCurator
  split
  · exact .error id
  · exact (Avoids.failIf fun _ => id).bind fun _ _ => (Avoids.failIf fun _ => id).bind
      fun _ _ => .ok _

theorem chargedCurator_keeps {f : ChainState → Addr → Except ChainError CurationState}
    (hf : ∀ s₁ owner, I s₁ → Keeps I bad (do
        let curation ← f s₁ owner
        return { s₁ with curation := curation })) :
    Keeps I bad (chargedCurator ctx s actor slug team f) :=
  chargedCuration_keeps hk hs fun s₁ owner _ _ _ hs₁ => hk.read_bind requireTeamCurator_quiet
    fun _ _ => hf s₁ owner hs₁

omit hk hs in
theorem isCommunityCurator_quiet {c : CurationState} : Quiet (isCommunityCurator c owner slug) := by
  unfold isCommunityCurator
  split
  · exact .ok false
  · split
    · exact .error id
    · exact .ok _

theorem handleSetCurationPostHidden_keeps {hidden : Bool} :
    Keeps I bad (handleSetCurationPostHidden ctx s actor slug team hash hidden) := by
  refine chargedCurator_keeps hk hs fun s₁ owner hs₁ => hk.read_bind ?_ fun _ _ => ?_
  · unfold checkHidePost
    split
    · exact .ok ()
    · exact .ok ()
    · exact (Avoids.failIf fun _ => id).bind fun _ _ => isCommunityCurator_quiet.bind
        fun _ _ => .failIf fun _ => id
  · refine hk.curate hs₁ (.moderate (setCurationActionHiddenPost s₁.curation slug team hash owner
      hidden)) ?_ id
    cases hidden <;> exact ⟨rfl, fun _ => id⟩

theorem handleSetCurationPostTag_keeps {tag : Text} {clear : Bool} :
    Keeps I bad (handleSetCurationPostTag env ctx s actor slug team hash tag clear) := by
  refine chargedCurator_keeps hk hs fun s₁ owner hs₁ =>
    hk.read_bind (Avoids.failIf fun _ => id) fun _ _ =>
      hk.read_bind (liftText_quiet _) fun _ _ => ?_
  refine hk.curate hs₁
    (.moderate (setCurationPostTag ctx.height s₁.curation slug team hash tag owner clear)) ?_ id
  cases clear <;> exact ⟨rfl, fun _ => id⟩

theorem handleSetCurationUserHidden_keeps {hidden : Bool} :
    Keeps I bad (handleSetCurationUserHidden ctx s actor slug team target hidden) := by
  refine chargedCurator_keeps hk hs fun s₁ owner hs₁ => ?_
  split
  · exact hk.read_bind isCommunityCurator_quiet fun _ _ =>
      hk.read_bind (Avoids.failIf fun _ => id) fun _ _ =>
      hk.curate hs₁ (.ban slug team target owner) trivial id
  · refine hk.curate hs₁ (.moderate (setCurationActionHiddenUser s₁.curation slug team target owner
      false)) ⟨rfl, fun k hk => ?_⟩ id
    obtain ⟨v, hv⟩ := has_iff.mp hk
    exact has_iff.mpr ⟨v, get_of_get_erase hv⟩

theorem handleSetCurationThreadLocked_keeps {locked : Bool} :
    Keeps I bad (handleSetCurationThreadLocked ctx s actor slug team hash locked) := by
  refine chargedCurator_keeps hk hs fun s₁ owner hs₁ => ?_
  have hmoderated : ∀ c, (CurationCall.moderate c).Ready s₁ → I { s₁ with curation := c } :=
    fun c hc => hk.curate hs₁ (.moderate c) hc id
  unfold setCurationThreadLocked
  dsimp only
  split
  · exact hs₁
  · exact hk.read_bind (Avoids.failIf fun _ => id) fun _ _ => hmoderated _ ⟨rfl, fun _ => id⟩
  · exact hmoderated _ ⟨rfl, fun _ => id⟩
  · exact hs₁

theorem handleSetCurationSubscriberOnly_keeps {enabled : Bool} :
    Keeps I bad (handleSetCurationSubscriberOnly ctx s actor slug team enabled) :=
  chargedCuration_keeps hk hs fun _ _ _ _ _ hs₁ => hk.read_bind requireTeamOwner_avoids fun t ht =>
    hk.curate hs₁ (.decorate t t.tag enabled) ⟨slug, team, (requireTeamOwner_cases ht).1⟩ id

theorem handleSetCurationTag_keeps {tag : Text} :
    Keeps I bad (handleSetCurationTag env ctx s actor slug team tag) := by
  refine chargedCuration_keeps hk hs fun s₁ _ _ _ _ hs₁ => hk.read_bind requireTeamOwner_avoids
    fun t _ => hk.read_bind (liftText_quiet _) fun _ _ => ?_
  unfold setCurationTeamTag
  cases hlive : s₁.curation.liveTeam slug team with
  | none => exact hk.error id
  | some t' => exact hk.curate hs₁ (.decorate t' tag t'.subscriberOnly) ⟨slug, team, hlive⟩ id

/-! ### Governance -/

theorem handleUpdateParams_keeps {updated : Params} (hallow : allow (.updateParams updated) s) :
    Keeps I bad (handleUpdateParams ctx s updated) := by
  refine hk.read (.mapError fun _ _ => id) fun _ hcheck => ?_
  have hregrid : Passes s (regridIfChanged ctx s updated.creatorEpochSeconds) := by
    unfold regridIfChanged
    split
    · exact onCreator_passes _ _
    · exact .ok (.refl s)
  refine hk.pass hs hregrid fun s₁ hsame hs₁ => ?_
  refine hk.call (.updateParams updated) s₁ hs₁ ?_ fun _ => hk.allow_same hsame hallow
  show checkParams s₁.upgraded updated = .ok ()
  rw [hsame.upgraded]
  exact mapError_eq_ok.mp hcheck

theorem handleSetLevel_keeps : Keeps I bad (handleSetLevel env ctx s target level) := by
  unfold handleSetLevel
  cases hcore : s.profiles.get target with
  | none => exact hk.error id
  | some core =>
    refine hk.failIf id fun hlevel => ?_
    have hcall := hk.plain (.setLevel target core level) hs ⟨hcore, hlevel⟩ id
    dsimp only
    cases hrun : saveAndTransition env.toTextRules ctx s target core { core with
      level := if level = levelFree ∧ core.effectivePaid then levelSubscriber else level } with
    | ok s' => exact hcall.of_eq_ok hrun
    | error e =>
      have hcall' : Keeps I bad (.error e) := by
        rw [← hrun]
        exact hcall
      exact mt (hk.levelTransition e) hcall'

theorem inviteAsOwner_keeps : Keeps I bad (inviteAsOwner s slug team target) := by
  unfold inviteAsOwner
  split
  · exact hk.error id
  · next t _ => exact hk.curate hs (.invite t.owner slug team target) trivial id

theorem handleGovSetCuratorMembership_keeps {present : Bool}
    (hallow : present = false → allow (.curate (.dismiss slug team target)) s) :
    Keeps I bad (handleGovSetCuratorMembership env s slug team target present) := by
  cases present with
  | true =>
    exact (inviteAsOwner_keeps hk hs).bind fun s₁ _ hs₁ =>
      hk.curate hs₁ (.accept target slug team) trivial id
  | false => exact hk.call (.curate (.dismiss slug team target)) s hs trivial fun _ => hallow rfl

theorem handleGovSetCommunityPreference_keeps {mode : ℤ} {present : Bool}
    (hallow : ∀ core, s.profiles.get owner = some core → if present then
      allow (.curate (.govPrefer owner core slug mode team)) s
      else allow (.curate (.leave owner core slug)) s) :
    Keeps I bad (handleGovSetCommunityPreference env ctx s owner slug mode team present) := by
  unfold handleGovSetCommunityPreference
  cases hcore : s.profiles.get owner with
  | none => exact hk.error id
  | some core =>
    have hallow := hallow core hcore
    cases present with
    | false => exact leaveAs_keeps hk hs hcore hallow
    | true =>
      have hprefer : ∀ s₁, I s₁ → s₁.profiles = s.profiles →
          allow (.curate (.govPrefer owner core slug mode team)) s₁ →
          Keeps I bad (onCuration s₁ fun c =>
            setCurationPreference c owner slug mode team core.effectivePaid) := by
        intro s₁ hs₁ hprofiles hallow₁
        refine hk.call (.curate (.govPrefer owner core slug mode team)) s₁ hs₁ ?_ fun _ => hallow₁
        exact (congrArg (fun p => p.get owner) hprofiles).trans hcore
      simp only [if_true, ensureJoined]
      split
      · exact hprefer s hs rfl hallow
      · refine hk.read_bind communityTier_quiet fun tier _ => ?_
        refine (hk.curate hs (.join owner slug (uint32 tier.maxJoinedCommunities)) trivial id).bind
          fun s₁ hs₁eq hs₁ => ?_
        obtain ⟨c, hc, hs₁eq⟩ := bind_eq_ok.mp hs₁eq
        cases hs₁eq
        exact hprefer _ hs₁ rfl (hk.joinedFirst owner core slug _ mode team s c hs hc hallow)

theorem handleGovSetCommunityBlock_keeps {blocked : Bool} :
    Keeps I bad (handleGovSetCommunityBlock s owner pattern blocked) := by
  unfold handleGovSetCommunityBlock
  split
  · split
    · exact hk.error id
    · exact hk.read communityTier_quiet fun tier _ =>
        hk.plain (.block owner pattern (uint32 tier.maxBlockedCommunities)) hs trivial id
  · exact hk.plain (.unblock owner pattern) hs trivial id

theorem handleGovSetCuratorInvitation_keeps {action : InvitationAction} :
    Keeps I bad (handleGovSetCuratorInvitation s slug team target action) := by
  cases action with
  | create => exact inviteAsOwner_keeps hk hs
  | revoke | decline => exact hk.curate hs (.uninvite slug team target) trivial id

theorem handleGovSetSubscriptionState_keeps {subscribed : Bool} {expiry : ℤ} {autoRenew : Bool}
    (hallow : ∀ core, s.profiles.get owner = some core →
      if subscribed then allow (.govExtend owner core autoRenew expiry) s
      else allow (.unsubscribe owner) s) :
    Keeps I bad (handleGovSetSubscriptionState env ctx s owner subscribed expiry autoRenew) := by
  unfold handleGovSetSubscriptionState
  cases hcore : s.profiles.get owner with
  | none => exact hk.error id
  | some core =>
    cases subscribed with
    | true =>
      exact hk.failIf id fun htime => hk.call (.govExtend owner core autoRenew expiry) s hs
        ⟨hcore, not_le.mp htime⟩ fun _ => hallow core hcore
    | false =>
      exact hk.failIf id fun _ =>
        hk.call (.unsubscribe owner) s hs trivial fun _ => hallow core hcore

end Calling

/-! ## 4. Messages -/

/-- The condition on the special calls of a relay message. -/
def RelayMsg.Allowed (allow : KeeperCall → ChainState → Prop) (env : ChainEnv) (s : ChainState)
    (actor : Actor) : RelayMsg → Prop
  | leaveCommunity slug | unfollowTopic _ slug => ∀ owner pow core, actor = .user owner pow →
      s.profiles.get owner = some core → allow (.curate (.leave owner core slug)) s
  | blockTopic _ pattern => ∀ owner pow core slug, actor = .user owner pow →
      s.profiles.get owner = some core → s.curation.joins.has (toLex (owner, slug)) = true →
      env.matchesPattern slug pattern = true → allow (.curate (.leave owner core slug)) s
  | deleteUser target => ∀ core, s.profiles.get target = some core →
      allow (.deleteUser target core) s
  | _ => True

/-- The condition on the special calls of a governance message. -/
def GovMsg.Allowed (allow : KeeperCall → ChainState → Prop) (s : ChainState) : GovMsg → Prop
  | updateParams updated => allow (.updateParams updated) s
  | setCuratorMembership slug team target present =>
    present = false → allow (.curate (.dismiss slug team target)) s
  | setCommunityPreference owner slug mode team present => ∀ core,
      s.profiles.get owner = some core →
      if present then allow (.curate (.govPrefer owner core slug mode team)) s
      else allow (.curate (.leave owner core slug)) s
  | setSubscriptionState user subscribed expiry autoRenew => ∀ core,
      s.profiles.get user = some core →
      if subscribed then allow (.govExtend user core autoRenew expiry) s
      else allow (.unsubscribe user) s
  | _ => True

theorem RelayMsg.keeps {env : ChainEnv} {ctx : BlockCtx} {I : ChainState → Prop}
    {bad : ChainError → Prop} {allow : KeeperCall → ChainState → Prop}
    (hk : Sound env ctx I bad allow) {s : ChainState} (hs : I s) {actor : Actor} {msg : RelayMsg}
    (hallow : msg.Allowed allow env s actor) : Keeps I bad (msg.exec env ctx s actor) := by
  cases msg with
  | post => exact hk.last hs handlePost_passes
  | vote => exact hk.last hs handleVote_passes
  | setUsername => exact handleSetUsername_keeps hk hs
  | followUser => exact handleFollowUser_keeps hk hs
  | unfollowUser => exact hk.last hs handleUnfollowUser_passes
  | followTopic => exact handleFollowTopic_keeps hk hs
  | unfollowTopic => exact handleUnfollowTopic_keeps hk hs hallow
  | blockTopic => exact handleBlockTopic_keeps hk hs hallow
  | unblockTopic => exact handleUnblockTopic_keeps hk hs
  | joinCommunity => exact handleJoinCommunity_keeps hk hs
  | leaveCommunity => exact handleLeaveCommunity_keeps hk hs hallow
  | blockPost => exact hk.last hs handleBlockPost_passes
  | unblockPost => exact hk.last hs handleUnblockPost_passes
  | blockUser => exact hk.last hs handleBlockUser_passes
  | unblockUser => exact hk.last hs handleUnblockUser_passes
  | blockCommunity => exact handleBlockCommunity_keeps hk hs
  | unblockCommunity => exact handleUnblockCommunity_keeps hk hs
  | delete => exact hk.last hs handleDelete_passes
  | deleteUser => exact handleDeleteUser_keeps hk hs hallow
  | sendTokens => exact hk.last hs handleSendTokens_passes
  | edit => exact hk.last hs handleEdit_passes
  | subscribe => exact handleSubscribe_keeps hk hs
  | setAutoRenewal => exact handleSetAutoRenewal_keeps hk hs
  | award => exact hk.last hs handleAward_passes
  | setBiography => exact handleSetBiography_keeps hk hs
  | createCurationTeam => exact handleCreateCurationTeam_keeps hk hs
  | setCurationTeamProfile => exact handleSetCurationTeamProfile_keeps hk hs
  | inviteCurator => exact handleInviteCurator_keeps hk hs
  | revokeCuratorInvite => exact handleRevokeCuratorInvite_keeps hk hs
  | acceptCuratorInvite => exact handleAcceptCuratorInvite_keeps hk hs
  | declineCuratorInvite => exact handleDeclineCuratorInvite_keeps hk hs
  | leaveCurationTeam => exact handleLeaveCurationTeam_keeps hk hs
  | removeCurator => exact handleRemoveCurator_keeps hk hs
  | transferCurationTeam => exact handleTransferCurationTeam_keeps hk hs
  | deleteCurationTeam => exact handleDeleteCurationTeam_keeps hk hs
  | setCurationPreference => exact handleSetCurationPreference_keeps hk hs
  | setCurationPostHidden => exact handleSetCurationPostHidden_keeps hk hs
  | setCurationUserHidden => exact handleSetCurationUserHidden_keeps hk hs
  | setCurationThreadLocked => exact handleSetCurationThreadLocked_keeps hk hs
  | setCurationSubscriberOnly => exact handleSetCurationSubscriberOnly_keeps hk hs
  | setCurationTag => exact handleSetCurationTag_keeps hk hs
  | setCurationPostTag => exact handleSetCurationPostTag_keeps hk hs
  | claimCreatorRewards => exact hk.last hs handleClaimCreatorRewards_passes

theorem GovMsg.keeps {env : ChainEnv} {ctx : BlockCtx} {I : ChainState → Prop}
    {bad : ChainError → Prop} {allow : KeeperCall → ChainState → Prop}
    (hk : Sound env ctx I bad allow) {s : ChainState} (hs : I s) {msg : GovMsg}
    (hallow : msg.Allowed allow s) : Keeps I bad (msg.exec env ctx s) := by
  cases msg with
  | updateParams => exact handleUpdateParams_keeps hk hs hallow
  | setLevel => exact handleSetLevel_keeps hk hs
  | mintTokens => exact hk.last hs handleMintTokens_passes
  | burnTokens => exact hk.last hs handleBurnTokens_passes
  | createCurationTeam owner slug name description =>
    exact hk.curate hs (.createTeam owner slug name description) trivial id
  | setCurationTeamOwner slug team newOwner =>
    exact hk.curate hs (.setOwner slug team newOwner) trivial id
  | setCuratorMembership => exact handleGovSetCuratorMembership_keeps hk hs hallow
  | setCommunityPreference => exact handleGovSetCommunityPreference_keeps hk hs hallow
  | setCommunityBlock => exact handleGovSetCommunityBlock_keeps hk hs
  | setCuratorInvitation => exact handleGovSetCuratorInvitation_keeps hk hs
  | setSubscriptionState => exact handleGovSetSubscriptionState_keeps hk hs hallow
  | claimCreatorRewards creator epochs =>
    have hclaim : Passes s (onCreator s fun c =>
        MirageNode.claimCreatorRewards s.params ctx c creator epochs) :=
      onCreator_passes _ _
    exact hk.last hs hclaim

end MirageNode
