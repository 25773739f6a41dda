import MirageNode.ChainRun
import MirageNode.MigrationSpec
import MirageNode.SubscriptionCalls

/-!
# The books of curation along runs

What a keeper call does to the curation store is nothing, one call of `CurationCall`, or the
move of an account's records to a new eligibility (`KeeperCall.curation_cases`). Each of these
keeps the books and the teams that are there (`CurationCall.continues`) and returns no error
that stands for books out of order (`KeeperCall.avoids`). The books are in order after genesis
and after the migration, so they are in every state of every run (`curation_books_kept`).
-/

namespace MirageNode

open OrderedStore OrderedMap Fallible CurationState

/-! ## 1. Calls -/

variable {rules : TextRules} {profiles : Profiles} {owner : Addr} {k : KeeperCall}

section Calls

variable {env : ChainEnv} {ctx : BlockCtx} {s s' : ChainState} {c₀ c c' : CurationState}

/-- The books do not look at what curators did to posts and users. -/
theorem Continues.moderated (hc : Continues rules c₀ c)
    (h : c.SameButModeration c') : Continues rules c₀ c' := by
  rw [h]
  exact ⟨⟨hc.joins, hc.invites, hc.roster, hc.teams, hc.seated, hc.pending⟩, hc.kept⟩

theorem sameButModeration_hideUser (c : CurationState) (slug : Slug) (team : ℕ)
    (target actor : Addr) (hidden : Bool) :
    c.SameButModeration (setCurationActionHiddenUser c slug team target actor hidden) := by
  cases hidden <;> rfl

theorem Continues.of_rerouteBannedUserPreference (hc : Continues rules c₀ c) {slug : Slug}
    {team : ℕ} {target : Addr}
    (h : rerouteBannedUserPreference profiles c slug team target = .ok c') :
    Continues rules c₀ c' := by
  rcases rerouteBannedUserPreference_cases h with ⟨rfl, -⟩ | ⟨core, mode, next, -, -, hset⟩
  · exact hc
  · exact hc.of_setCurationPreference hset

theorem Continues.of_setCurationTeamOwner (hc : Continues rules c₀ c) {slug : Slug} {team : ℕ}
    {newOwner : Addr} (h : setCurationTeamOwner profiles c slug team newOwner = .ok c') :
    Continues rules c₀ c' := by
  obtain ⟨t, hlive, -, -, rfl⟩ := setCurationTeamOwner_cases h
  exact hc.decorated hlive newOwner t.tag t.subscriberOnly

variable {call : CurationCall}

/-- Every call on the curation store keeps the books and the teams. -/
theorem CurationCall.continues (hheight : ctx.height ≠ 0)
    (hc : Continues env.toTextRules c₀ s.curation) (hready : call.Ready s)
    (h : call.exec env ctx s = .ok c) : Continues env.toTextRules c₀ c := by
  cases call with
  | join owner slug cap => exact hc.of_joinCommunity h
  | joinWithLens owner core slug cap mode team => exact hc.of_joinCommunityWithLens h
  | prefer owner core slug mode team => exact hc.of_setCurationPreference h
  | govPrefer owner core slug mode team => exact hc.of_setCurationPreference h
  | leave owner core slug => exact hc.of_leaveCommunity hheight h
  | createTeam owner slug name description => exact hc.of_createCurationTeam h
  | invite actor slug team target => exact hc.of_inviteCurator h
  | uninvite slug team target => exact hc.of_clearPendingInvite h
  | accept actor slug team => exact hc.of_acceptCuratorInvite h
  | remove slug team target => exact hc.of_removeCuratorFromTeam h
  | dismiss slug team target => exact hc.of_removeCuratorFromTeam h
  | setOwner slug team newOwner => exact hc.of_setCurationTeamOwner h
  | deleteTeam slug team => exact hc.of_deleteCurationTeam hheight h
  | rename actor slug team name description => exact hc.of_updateCurationTeamProfile h
  | decorate t tag subscriberOnly =>
    obtain ⟨slug, team, hlive⟩ := hready
    exact Except.ok.inj h ▸ hc.decorated hlive t.owner tag subscriberOnly
  | moderate c' => exact Except.ok.inj h ▸ hc.moderated hready.1
  | ban slug team target actor =>
    exact (hc.moderated (sameButModeration_hideUser _ slug team target actor true))
      |>.of_rerouteBannedUserPreference h

/-- What a keeper call does to the curation store, and to who may curate. -/
inductive CurationChange (env : ChainEnv) (ctx : BlockCtx) (s s' : ChainState) :
    KeeperCall → Prop
  | same {k : KeeperCall} : s'.curation = s.curation →
      s'.profiles.eligible = s.profiles.eligible → CurationChange env ctx s s' k
  | call (call : CurationCall) : call.exec env ctx s = .ok s'.curation →
      s'.profiles = s.profiles → CurationChange env ctx s s' (.curate call)
  | moved {k : KeeperCall} (owner : Addr) (before after : ProfileCore) :
      s.profiles.get owner = some before →
      transitionCurationEligibility env.toTextRules s.params ctx.height
        (s.profiles.set owner after) s.curation owner (canCurate before) (canCurate after) =
        .ok s'.curation →
      s'.profiles = s.profiles.set owner after → CurationChange env ctx s s' k
  | deleted (target : Addr) (core : ProfileCore) : s'.curation = s.curation →
      s'.profiles = s.profiles.erase target →
      CurationChange env ctx s s' (.deleteUser target core)

theorem Profiles.eligible_set (profiles : Profiles) (owner : Addr) (core : ProfileCore) :
    Profiles.eligible (profiles.set owner core) =
      fun a => if a = owner then canCurate core else profiles.eligible a := by
  funext a
  simp only [Profiles.eligible, get_set]
  by_cases ha : a = owner <;> simp [ha]

variable {core : ProfileCore}

theorem Profiles.eligible_of_get
    (h : profiles.get owner = some core) : profiles.eligible owner = canCurate core := by
  rw [Profiles.eligible, h]

/-- A profile that is written with the eligibility that the account had. -/
theorem Profiles.eligible_set_of_eq (h : canCurate core = profiles.eligible owner) :
    Profiles.eligible (profiles.set owner core) = profiles.eligible := by
  rw [Profiles.eligible_set]
  funext a
  split
  next ha => rw [ha, h]
  next => rfl

theorem canCurate_getD_blank (profiles : Profiles) (owner : Addr) :
    canCurate ((profiles.get owner).getD .blank) = profiles.eligible owner := by
  unfold Profiles.eligible
  cases profiles.get owner <;> rfl

theorem KeeperCall.curation_cases (hready : k.Ready ctx s)
    (h : k.exec env ctx s = .ok s') : CurationChange env ctx s s' k := by
  have hreplace : ∀ s₁ owner, (replaceSubscriptionRenewalSchedule ctx.time s₁ owner).curation =
        s₁.curation ∧
      (replaceSubscriptionRenewalSchedule ctx.time s₁ owner).profiles = s₁.profiles := by
    intro s₁ owner
    obtain ⟨_, _, hframe⟩ := replaceSubscriptionRenewalSchedule_frame ctx.time s₁ owner
    rw [hframe]
    exact ⟨rfl, rfl⟩
  cases k with
  | other s₁ =>
    cases h
    exact .same hready.curation (congrArg Profiles.eligible hready.profiles)
  | curate call =>
    obtain ⟨c, hc, h⟩ := bind_eq_ok.mp h
    cases h
    exact .call call hc rfl
  | block owner pattern cap | unblock owner pattern =>
    obtain ⟨b, -, h⟩ := bind_eq_ok.mp h
    cases h
    exact .same rfl rfl
  | extend user core autoRenew stop | govExtend user core autoRenew stop =>
    obtain ⟨-, -, c, ⟨hpaid, rfl⟩ | ⟨-, hc⟩, rfl⟩ := extendSubscription_eq_ok h
    · refine .same (hreplace _ _).1 ?_
      rw [(hreplace _ _).2]
      refine Profiles.eligible_set_of_eq ?_
      rw [Profiles.eligible_of_get hready.1, canCurate, canCurate, hpaid,
        ProfileCore.extended_effectivePaid, Bool.true_or, Bool.true_or]
    · refine .moved user core _ hready.1 ?_ (hreplace _ _).2
      rw [(hreplace _ _).1]
      exact hc
  | unsubscribe user =>
    obtain ⟨core, c, hcore, hc, rfl⟩ := deactivatePaidState_eq_ok h
    refine .moved user core _ hcore ?_ (hreplace _ _).2
    rw [(hreplace _ _).1]
    exact hc
  | expire sub =>
    obtain ⟨core, c, hcore, hc, rfl⟩ := deactivatePaidState_eq_ok h
    refine .moved sub.2 core _ hcore ?_ (hreplace _ _).2
    rw [(hreplace _ _).1]
    exact hc
  | setLevel target core level =>
    obtain ⟨c, hc, rfl⟩ := saveAndTransition_frame h
    exact .moved target core _ hready.1 hc rfl
  | setAutoRenew owner core autoRenew =>
    obtain rfl := Except.ok.inj h
    refine .same (hreplace _ _).1 ?_
    rw [(hreplace _ _).2]
    refine Profiles.eligible_set_of_eq ?_
    rw [Profiles.eligible_of_get hready.1]
    rfl
  | reschedule key =>
    obtain rfl := Except.ok.inj h
    exact .same (hreplace _ _).1 (congrArg Profiles.eligible (hreplace _ _).2)
  | dequeue key =>
    obtain rfl := Except.ok.inj h
    exact .same rfl rfl
  | touch owner =>
    obtain rfl := Except.ok.inj h
    exact .same rfl (Profiles.eligible_set_of_eq (canCurate_getD_blank s.profiles owner))
  | setUsername owner username =>
    obtain ⟨names, rfl⟩ := assignUsername_frame h
    exact .same rfl (Profiles.eligible_set_of_eq (canCurate_getD_blank s.profiles owner))
  | deleteUser target core =>
    have hdeleted := deleteUserState_deleted h
    exact .deleted target core hdeleted.curation hdeleted.profiles
  | updateParams p =>
    obtain rfl := Except.ok.inj h
    exact .same rfl rfl

theorem KeeperCall.continues (hheight : ctx.height ≠ 0)
    (hc : Continues env.toTextRules c₀ s.curation) (hready : k.Ready ctx s)
    (h : k.exec env ctx s = .ok s') : Continues env.toTextRules c₀ s'.curation := by
  cases KeeperCall.curation_cases hready h with
  | same hsame _ => exact hsame ▸ hc
  | call call hcall _ => exact CurationCall.continues hheight hc hready hcall
  | moved owner before after _ hmove _ => exact hc.of_transitionCurationEligibility hheight hmove
  | deleted target core hsame _ => exact hsame ▸ hc

/-! ## 2. Errors -/

/-- The calls that may take a subscriber from a team's count. -/
def CurationCall.Recounts : CurationCall → Prop
  | joinWithLens .. | prefer .. | govPrefer .. | leave .. | createTeam .. | ban .. => True
  | _ => False

section Avoids

variable {bad : ChainError → Prop} (hbad : ∀ e, bad e → e.Serious)

include hbad

theorem CurationCall.avoids (hb : Bookkept env.toTextRules s.curation)
    (hrecount : call.Recounts → Avoids bad (call.exec env ctx s)) :
    Avoids bad (call.exec env ctx s) := by
  cases call with
  | join owner slug cap => exact joinCommunity_avoids.mono hbad
  | invite actor slug team target => exact inviteCurator_avoids.mono hbad
  | uninvite slug team target => exact (clearPendingInvite_avoids hb).mono hbad
  | accept actor slug team => exact (acceptCuratorInvite_avoids hb).mono hbad
  | remove slug team target => exact (removeCuratorFromTeam_avoids hb).mono hbad
  | dismiss slug team target => exact (removeCuratorFromTeam_avoids hb).mono hbad
  | setOwner slug team newOwner => exact setCurationTeamOwner_avoids.mono hbad
  | deleteTeam slug team => exact (deleteCurationTeam_avoids hb).mono hbad
  | rename actor slug team name description => exact updateCurationTeamProfile_avoids.mono hbad
  | decorate t tag subscriberOnly => exact .ok _
  | moderate c' => exact .ok _
  | _ => exact hrecount trivial

/-- The moves of an account to another eligibility avoid the errors. -/
def MovesAvoid (bad : ChainError → Prop) (rules : TextRules) (ctx : BlockCtx) (s : ChainState) :
    Prop :=
  ∀ owner before after, s.profiles.get owner = some before →
    Avoids bad (transitionCurationEligibility rules s.params ctx.height
      (s.profiles.set owner after) s.curation owner (canCurate before) (canCurate after))

omit hbad in
theorem saveAndTransition_avoids {before after : ProfileCore}
    (hmoves : MovesAvoid bad env.toTextRules ctx s) (hbefore : s.profiles.get owner = some before) :
    Avoids bad (saveAndTransition env.toTextRules ctx s owner before after) :=
  (hmoves owner before after hbefore).bind fun _ _ => .ok _

theorem deactivatePaidState_avoids (hmoves : MovesAvoid bad env.toTextRules ctx s) :
    Avoids bad (deactivatePaidState env.toTextRules ctx s owner) := by
  unfold deactivatePaidState
  split
  · exact .error (mt (hbad _) id)
  · next core hcore => exact (saveAndTransition_avoids hmoves hcore).bind fun _ _ => .ok _

theorem extendSubscription_avoids {autoRenew : Bool} {stop : ℤ}
    (hmoves : MovesAvoid bad env.toTextRules ctx s) (hcore : s.profiles.get owner = some core) :
    Avoids bad (extendSubscription env.toTextRules ctx s owner core autoRenew stop) := by
  have hquiet : ∀ {e : ChainError}, ¬ e.Serious → ¬ bad e := fun he hbad' => he (hbad _ hbad')
  unfold extendSubscription activatePaidState
  rw [dropSubscription_eq]
  refine Avoids.bind ?_ fun _ _ => Avoids.bind ((Avoids.failIf fun _ => hquiet id).bind
    fun _ _ => .ok _) fun _ _ => .ok _
  simp only [ChainState.saveProfile, get_set_self]
  split
  · exact .ok _
  · -- the profile that was just written is as eligible as the one before
    refine (Avoids.failIf fun _ => hquiet id).bind fun _ _ => Avoids.bind ?_ fun _ _ => .ok _
    rw [ChainState.saveProfile, set_set]
    exact hmoves owner core _ hcore

omit hbad in
theorem assignUsername_quiet {username : Name} : Quiet (assignUsername env s owner username) :=
  (liftText_quiet _).bind fun _ _ => ((Avoids.failIf fun _ => id).bind fun _ _ => .ok _).bind
    fun _ _ => tierOf_quiet.bind fun _ _ => (liftText_quiet _).bind fun _ _ => .ok _

/-- A keeper call fails seriously only through the counters of blocked communities, a curation
call, or a move to another eligibility. -/
theorem KeeperCall.avoids (hready : k.Ready ctx s)
    (hblocked : Tally s.blockedCommunities.idx s.blockedCommunities.counts)
    (hcall : ∀ call, k = .curate call → Avoids bad (call.exec env ctx s))
    (hmoves : MovesAvoid bad env.toTextRules ctx s) : Avoids bad (k.exec env ctx s) := by
  cases k with
  | other s₁ => exact .ok _
  | curate call => exact (hcall call rfl).bind fun _ _ => .ok _
  | block owner pattern cap => exact ((add_avoids hblocked).mono hbad).bind fun _ _ => .ok _
  | unblock owner pattern => exact ((remove_avoids hblocked).mono hbad).bind fun _ _ => .ok _
  | extend user core autoRenew stop | govExtend user core autoRenew stop =>
    exact extendSubscription_avoids hbad hmoves hready.1
  | unsubscribe user => exact deactivatePaidState_avoids hbad hmoves
  | expire sub =>
    exact deactivatePaidState_avoids (s := removeSubscription s sub.2 sub.1) hbad hmoves
  | setLevel target core level => exact saveAndTransition_avoids hmoves hready.1
  | setAutoRenew owner core autoRenew => exact .ok _
  | reschedule key => exact .ok _
  | dequeue key => exact .ok _
  | touch owner => exact .ok _
  | setUsername owner username => exact assignUsername_quiet.mono hbad
  | deleteUser target core =>
    exact Avoids.mono ((liftCore_quiet _).bind fun _ _ => .ok _) hbad
  | updateParams p => exact .ok _

end Avoids

/-- With the books in order no recount returns an error that stands for books out of order. -/
theorem CurationCall.avoids_corrupt (hheight : ctx.height ≠ 0)
    (hb : Bookkept env.toTextRules s.curation) :
    Avoids ChainError.Corrupt (call.exec env ctx s) := by
  have hserious : ∀ e : ChainError, e.Corrupt → e.Serious := fun _ => ChainError.Corrupt.serious
  have hset : ∀ c owner slug mode team paid, Avoids ChainError.Corrupt
      (setCurationPreference c owner slug mode team paid) := fun _ _ _ _ _ _ =>
    setCurationPreference_avoids hserious fun _ _ => removePaidContribution_avoids
  refine CurationCall.avoids hserious hb fun hrecount => ?_
  cases call with
  | joinWithLens owner core slug cap mode team =>
    exact joinCommunityWithLens_avoids hserious fun _ _ _ _ => hset _ _ _ _ _ _
  | prefer owner core slug mode team => exact hset _ _ _ _ _ _
  | govPrefer owner core slug mode team => exact hset _ _ _ _ _ _
  | leave owner core slug =>
    exact leaveCommunity_avoids hserious hb hheight fun _ _ _ _ => removePaidContribution_avoids
  | createTeam owner slug name description =>
    exact createCurationTeam_avoids hserious fun _ _ _ _ _ _ => hset _ _ _ _ _ _
  | ban slug team target actor =>
    exact rerouteBannedUserPreference_avoids hserious fun _ _ _ _ => hset _ _ _ _ _ _
  | _ => exact hrecount.elim

/-- The books that the counters and the reverse records belong to. -/
structure CurationBooks (rules : TextRules) (s : ChainState) : Prop where
  curation : Bookkept rules s.curation
  blocked : Tally s.blockedCommunities.idx s.blockedCommunities.counts

theorem KeeperCall.avoids_corrupt (hheight : ctx.height ≠ 0) (hready : k.Ready ctx s)
    (hb : CurationBooks env.toTextRules s) : Avoids ChainError.Corrupt (k.exec env ctx s) := by
  have hserious : ∀ e : ChainError, e.Corrupt → e.Serious := fun _ => ChainError.Corrupt.serious
  refine KeeperCall.avoids hserious hready hb.blocked
    (fun _ _ => CurationCall.avoids_corrupt hheight hb.curation) fun _ _ _ _ => ?_
  exact transitionCurationEligibility_avoids hserious hb.curation hheight
    fun _ => shiftContributions_avoids fun slug => mem_joinedCommunities.mp

theorem KeeperCall.blocked_kept (hb : Tally s.blockedCommunities.idx s.blockedCommunities.counts)
    (hready : k.Ready ctx s) (h : k.exec env ctx s = .ok s') :
    Tally s'.blockedCommunities.idx s'.blockedCommunities.counts := by
  cases k with
  | block owner pattern cap =>
    obtain ⟨b, hadd, h⟩ := bind_eq_ok.mp h
    cases h
    exact hb.of_add hadd
  | unblock owner pattern =>
    obtain ⟨b, hremove, h⟩ := bind_eq_ok.mp h
    cases h
    exact hb.of_remove hremove
  | _ =>
    rw [(KeeperCall.settings_kept hready h).2.2 id]
    exact hb

end Calls

/-! ## 3. The migration -/

section Migration

variable {rules : TextRules} {c c' : CurationState} {topics : ListStore}

theorem uint32_size (h : Tally topics.entries topics.counts) (owner : Addr) :
    uint32 (topics.entries.slice owner).size = (topics.entries.slice owner).size := by
  rw [← h.rows owner]
  exact Nat.mod_eq_of_lt (h.fits owner)

theorem size_slice_joins (c : CurationState) (owner : Addr) :
    (c.joins.slice owner).size = (c.joinedCommunities owner).length :=
  (List.length_map _).symm

/-- Followed topics become joins that are mirrored and counted. -/
theorem JoinBook.of_migrateFollowedTopics (hc : JoinBook c.joins c.joinRev c.joinCount)
    (htopics : Tally topics.entries topics.counts)
    (hunjoined : ∀ owner topic, topics.hasEntry owner topic = true → c.joinedCommunities owner = [])
    (h : migrateFollowedTopics topics c = .ok c') : JoinBook c'.joins c'.joinRev c'.joinCount := by
  have hrows : ∀ owner, c'.joinCount.count owner = (c'.joins.slice owner).size ∧
      c'.joinCount.count owner < 2 ^ 32 := by
    intro owner
    by_cases htopic : ∃ topic, topics.hasEntry owner topic = true
    · obtain ⟨topic, htopic⟩ := htopic
      have hmigrated := followsMigrated_of_eq_ok h htopic (hunjoined owner topic htopic)
      have hlength := ListStore.length_eq_size (nodup_joinedCommunities c' owner) hmigrated.joined
      rw [size_slice_joins, hmigrated.count, hlength, uint32_size htopics, ← htopics.rows owner]
      exact ⟨rfl, htopics.fits owner⟩
    · have hnone : ∀ topic, topics.hasEntry owner topic ≠ true := fun topic ht => htopic ⟨topic, ht⟩
      have hc' := migrateFollowedTopics_eq_ok h
      have hcount : c'.joinCount.count owner = c.joinCount.count owner := by
        have hmem : owner ∉ topics.pairs.map Prod.fst := by
          rintro hmem
          obtain ⟨⟨_, topic⟩, hpair, rfl⟩ := List.mem_map.mp hmem
          exact hnone topic (ListStore.mem_pairs.mp hpair)
        rw [hc', OrderedMap.count, get_foldl_set_entries, get_countOwners, if_neg hmem]
        rfl
      have hslice : c'.joins.slice owner = c.joins.slice owner := by
        refine ext_get fun slug => ?_
        rw [get_slice, get_slice, hc']
        refine get_foldl_set_of_not_mem toLex (fun _ => CommunityPreference.default) _
          fun j hj heq => hnone slug (ListStore.mem_pairs.mp ?_)
        exact toLex.injective heq ▸ hj
      rw [hcount, hslice]
      exact ⟨hc.tally.rows owner, hc.tally.fits owner⟩
  refine ⟨?_, fun owner => (hrows owner).1, fun owner => (hrows owner).2⟩
  simp only [migrateFollowedTopics, bind_eq_ok, pure_eq_ok] at h
  obtain ⟨c₁, hloop, rfl⟩ := h
  refine foldlM_ok_induction (P := fun c => Mirror joinOrder c.joins c.joinRev) ?_ hloop hc.mirror
  intro join _ c₁ c₂ hstep hmirror
  rw [migrateFollowedTopic_eq_ok hstep]
  exact hmirror.set (toLex join) .default ()

/-- Two records of a team that are the same to the books. -/
structure CurationTeam.SameBooks (t t' : CurationTeam) : Prop where
  community : t'.community = t.community
  teamId : t'.teamId = t.teamId
  name : t'.name = t.name
  live : t'.live = t.live
  nextMemberOrder : t'.nextMemberOrder = t.nextMemberOrder

theorem Bookkept.of_map (hb : Bookkept rules c) (f : Slug ×ₗ ℕ → CurationTeam → CurationTeam)
    (hf : ∀ k (t : CurationTeam), t.SameBooks (f k t))
    (hget : ∀ k, c'.teams.get k = (c.teams.get k).map (f k))
    (hrest : c' = { c with teams := c'.teams }) : Bookkept rules c' := by
  have hold : ∀ {k t'}, c'.teams.get k = some t' → ∃ t, c.teams.get k = some t ∧
      t.SameBooks t' := by
    intro k t' ht'
    obtain ⟨t, ht, rfl⟩ := Option.map_eq_some_iff.mp ((hget k).symm.trans ht')
    exact ⟨t, ht, hf k t⟩
  have hnew : ∀ {k t}, c.teams.get k = some t → ∃ t', c'.teams.get k = some t' ∧
      t.SameBooks t' := by
    intro k t ht
    exact ⟨f k t, by rw [hget, ht, Option.map_some], hf k t⟩
  generalize c'.teams = teams at hrest hold hnew
  subst hrest
  refine ⟨hb.joins, hb.invites, hb.roster, ⟨?_, ?_, ?_⟩, ?_, ?_⟩
  · intro slug id t' ht'
    obtain ⟨t, ht, hsame⟩ := hold ht'
    rw [hsame.community, hsame.teamId]
    exact hb.teams.keyed slug id t ht
  · intro slug id t' ht'
    obtain ⟨t, ht, -⟩ := hold ht'
    exact hb.teams.below slug id t ht
  · intro slug key id
    rw [hb.teams.named]
    constructor
    · rintro ⟨t, ht, hlive, hname⟩
      obtain ⟨t', ht', hsame⟩ := hnew ht
      exact ⟨t', ht', hsame.live.trans hlive, hsame.name ▸ hname⟩
    · rintro ⟨t', ht', hlive, hname⟩
      obtain ⟨t, ht, hsame⟩ := hold ht'
      exact ⟨t, ht, hsame.live.symm.trans hlive, hsame.name ▸ hname⟩
  · intro slug id a m hm
    obtain ⟨t, ht, hlive, horder⟩ := hb.seated slug id a m hm
    obtain ⟨t', ht', hsame⟩ := hnew ht
    exact ⟨t', ht', hsame.live.trans hlive, hsame.nextMemberOrder ▸ horder⟩
  · intro slug id a ha
    obtain ⟨t, ht, hlive⟩ := hb.pending slug id a ha
    obtain ⟨t', ht', hsame⟩ := hnew ht
    exact ⟨t', ht', hsame.live.trans hlive⟩

theorem Bookkept.teamsFiled (hb : Bookkept rules c) : TeamsFiled c.teams := fun k team hteam =>
  congrArg toLex (Prod.ext (hb.teams.keyed (ofLex k).1 (ofLex k).2 team hteam).1.symm
    (hb.teams.keyed (ofLex k).1 (ofLex k).2 team hteam).2.symm)

/-- A recount changes nothing that the books look at. -/
theorem Bookkept.of_migrateCuratorDefinedCommunities {eligible : Addr → Bool}
    (hb : Bookkept rules c) (h : migrateCuratorDefinedCommunities eligible c = .ok c') :
    Bookkept rules c' := by
  obtain ⟨hc', hget⟩ := migrateCuratorDefinedCommunities_eq_ok hb.teamsFiled h
  refine hb.of_map (fun k t => t.uncounted.joinedBy
    (c.subscribers eligible (ofLex k).1 (ofLex k).2))
    (fun k t => ?_) (fun k => hget (ofLex k).1 (ofLex k).2) hc'
  unfold CurationTeam.joinedBy
  split <;> exact ⟨rfl, rfl, rfl, rfl, rfl⟩

theorem tally_of_migrateBlockedTopics {b : BlockedCommunities}
    (htopics : Tally topics.entries topics.counts)
    (h : migrateBlockedTopics topics .empty = .ok b) : Tally b.idx b.counts := by
  have hb := migrateBlockedTopics_eq_ok h
  have hidx : b.idx = topics.entries := by
    refine ext_get fun k => ?_
    rw [hb]
    exact (get_foldl_set_entries _ _ k).trans Option.or_none
  have hcount : ∀ owner, b.counts.count owner = (topics.entries.slice owner).size := by
    intro owner
    rw [hb, ← uint32_size htopics]
    exact topics.count_written _ (.inr rfl)
  refine ⟨fun owner => ?_, fun owner => ?_⟩
  · rw [hcount, hidx]
  · rw [hcount, ← htopics.rows]
    exact htopics.fits owner

/-- A store of before v1.39.0: its books are in order, the topic lists are counted, and nobody
who follows topics has joined a community or blocked one. -/
structure PreUpgrade (rules : TextRules) (s : ChainState) : Prop where
  upgraded : s.upgraded = false
  curation : Bookkept rules s.curation
  unjoined : FollowersUnjoined s
  unblocked : s.blockedCommunities = .empty
  followedTopics : Tally s.followedTopics.entries s.followedTopics.counts
  blockedTopics : Tally s.blockedTopics.entries s.blockedTopics.counts

theorem curationBooks_of_migrateV139 {ctx : BlockCtx} {s s' : ChainState} (hs : PreUpgrade rules s)
    (h : migrateV139 ctx s = .ok s') : CurationBooks rules s' := by
  obtain ⟨c₁, hfollowed, hteams, hblocked, -⟩ := migrateV139_curation hs.upgraded h
  have hjoins := hs.curation.joins.of_migrateFollowedTopics hs.followedTopics hs.unjoined hfollowed
  have hc₁ : Bookkept rules c₁ := by
    have heq := migrateFollowedTopics_eq_ok hfollowed
    rw [heq] at hjoins ⊢
    have hb := hs.curation
    exact ⟨hjoins, hb.invites, hb.roster, hb.teams, hb.seated, hb.pending⟩
  rw [hs.unblocked] at hblocked
  exact ⟨hc₁.of_migrateCuratorDefinedCommunities hteams,
    tally_of_migrateBlockedTopics hs.blockedTopics hblocked⟩

end Migration

/-! ## 4. Genesis -/

section Genesis

variable {env : GenesisEnv} {s s' : ChainState} {P : CurationState → BlockedCommunities → Prop}

theorem claimOrWarn_frame (env : ChainEnv) (s : ChainState) (username : Name) (owner : Addr) :
    ∃ names, claimOrWarn env s username owner = { s with usernames := names } := by
  unfold claimOrWarn
  split
  next hclaim =>
    obtain ⟨-, rfl⟩ := claimUsername_eq_ok hclaim
    exact ⟨_, rfl⟩
  next => exact ⟨s.usernames, rfl⟩

theorem importAccount_frame (env : GenesisEnv) (s : ChainState) (owner : Addr)
    (core : ProfileCore) :
    ∃ names profiles, importAccount env s owner core =
      { s with usernames := names, profiles := profiles } := by
  have hsaved : ∀ names, ∃ names' profiles,
      (if ({ s with usernames := names } : ChainState).profiles.has owner
        then { s with usernames := names }
        else ({ s with usernames := names } : ChainState).saveProfile owner core) =
        { s with usernames := names', profiles := profiles } := by
    intro names
    split <;> exact ⟨_, _, rfl⟩
  unfold importAccount
  split
  · exact hsaved s.usernames
  · next username _ =>
    obtain ⟨names, hframe⟩ := claimOrWarn_frame env.toChainEnv s username owner
    rw [hframe]
    exact hsaved names

section Keeps

variable
  (hjoin : ∀ p c c' b owner slug cap, joinCommunity env.toTextRules p c owner slug cap = .ok c' →
    P c b → P c' b)
  (hblock : ∀ c b b' owner pattern cap, b.add owner pattern cap = .ok b' → P c b → P c b')

include hjoin hblock

/-- Initial profiles join communities and block others. -/
theorem importProfile_keeps {ip : InitialProfile} (h : importProfile env s ip = .ok s')
    (hs : P s.curation s.blockedCommunities) : P s'.curation s'.blockedCommunities := by
  unfold importProfile at h
  split at h
  next => exact Except.ok.inj h ▸ hs
  next owner core _ =>
    obtain ⟨names, profiles, hframe⟩ := importAccount_frame env s owner core
    rw [hframe] at h
    simp only [importLists, bind_eq_ok, pure_eq_ok, mapError_eq_ok] at h
    obtain ⟨_, -, c, hjoins, _, -, _, -, b, hblocks, rfl⟩ := h
    have hc : P c s.blockedCommunities := foldlM_ok_induction (P := fun c => P c _)
      (fun _ _ _ _ hstep hc => hjoin _ _ _ _ _ _ _ hstep hc) hjoins hs
    refine foldlM_ok_induction (P := P c) (fun pattern _ b₁ b₂ hstep hb => ?_) hblocks hc
    split at hstep
    · cases hstep
    · exact hblock _ _ _ _ _ _ (mapError_eq_ok.mp hstep) hb

theorem initGenesis_keeps {bank : Bank} {locked : OrderedMap Addr ℕ} {g : Genesis}
    (hempty : P .empty .empty)
    (hraw : ∀ raw, g.rawState = some raw → P raw.curation raw.blockedCommunities)
    (h : initGenesis env bank locked g = .ok s) : P s.curation s.blockedCommunities := by
  simp only [initGenesis, bind_eq_ok] at h
  obtain ⟨_, -, hprofiles⟩ := h
  refine foldlM_ok_induction (P := fun s => P s.curation s.blockedCommunities)
    (fun _ _ _ _ hstep hs => importProfile_keeps hjoin hblock hstep hs) hprofiles ?_
  unfold importRecords
  cases hstate : g.rawState with
  | none =>
    refine List.foldlRecOn (motive := fun (s : ChainState) => P s.curation s.blockedCommunities)
      _ _ hempty fun s hs modName _ => ?_
    obtain ⟨names, hframe⟩ := claimOrWarn_frame env.toChainEnv s (reservedUsername modName)
      (env.moduleAddress modName)
    rw [reserveModule, hframe]
    exact hs
  | some raw => exact hraw raw hstate

end Keeps

theorem curationBooks_of_initGenesis {bank : Bank} {locked : OrderedMap Addr ℕ} {g : Genesis}
    (hraw : ∀ raw, g.rawState = some raw → CurationBooks env.toTextRules raw)
    (h : initGenesis env bank locked g = .ok s) : CurationBooks env.toTextRules s := by
  have hs := initGenesis_keeps
    (P := fun c b => Bookkept env.toTextRules c ∧ Tally b.idx b.counts)
    (fun _ _ _ _ _ _ _ hstep hs => ⟨(hs.1.self.of_joinCommunity hstep).toBookkept, hs.2⟩)
    (fun _ _ _ _ _ _ hstep hs => ⟨hs.1, hs.2.of_add hstep⟩) ⟨.empty _, .empty⟩
    (fun raw hr => ⟨(hraw raw hr).curation, (hraw raw hr).blocked⟩) h
  exact ⟨hs.1, hs.2⟩

/-- A new chain has joins, but no teams. -/
structure Unfounded (c : CurationState) : Prop where
  teams : c.teams = .empty
  unpinned : ∀ k pref, c.joins.get k = some pref → pref.mode ≠ .pinned

theorem Unfounded.of_joinCommunity {rules : TextRules} {p : Params} {c c' : CurationState}
    {owner : Addr} {slug : Slug} {cap : ℕ} (h : Unfounded c)
    (hjoin : joinCommunity rules p c owner slug cap = .ok c') : Unfounded c' := by
  rcases joinCommunity_cases hjoin with ⟨-, rfl⟩ | ⟨-, -, rfl⟩
  · exact h
  · refine ⟨h.teams, fun k pref hpref => ?_⟩
    rcases get_set_cases hpref with ⟨-, rfl⟩ | ⟨-, hpref⟩
    · exact nofun
    · exact h.unpinned k pref hpref

theorem Unfounded.liveTeam_eq_none {c : CurationState} (h : Unfounded c) (slug : Slug) (id : ℕ) :
    c.liveTeam slug id = none := by
  rw [liveTeam, getCurationTeam, h.teams]
  rfl

theorem unfounded_of_initGenesis {bank : Bank} {locked : OrderedMap Addr ℕ} {g : Genesis}
    (hraw : g.rawState = none) (h : initGenesis env bank locked g = .ok s) :
    CurationBooks env.toTextRules s ∧ Unfounded s.curation := by
  have hnone : ∀ raw, g.rawState ≠ some raw := by simp [hraw]
  exact ⟨curationBooks_of_initGenesis (fun raw hr => absurd hr (hnone raw)) h,
    initGenesis_keeps (P := fun c _ => Unfounded c)
      (fun _ _ _ _ _ _ _ hstep hc => hc.of_joinCommunity hstep) (fun _ _ _ _ _ _ _ hc => hc)
      ⟨rfl, nofun⟩ (fun raw hr => absurd hr (hnone raw)) h⟩

end Genesis

/-! ## 5. Runs -/

theorem curationBooks_sound (env : ChainEnv) {ctx : BlockCtx} (hctx : ctx.Valid) :
    Sound env ctx (CurationBooks env.toTextRules) ChainError.Corrupt (fun _ _ => True) where
  serious _ h := h.serious
  founderJoin _ _ _ h := h
  founderPin _ _ _ _ h := h
  levelTransition _ h := h
  stable _ _ _ _ _ _ _ _ := trivial
  leftOther _ _ _ _ _ _ _ _ _ _ := trivial
  joinedFirst _ _ _ _ _ _ _ _ _ _ _ := trivial
  call _ _ hs hready _ := .of_avoids
    (fun _ h => ⟨(KeeperCall.continues hctx.height.ne' hs.curation.self hready h).toBookkept,
      KeeperCall.blocked_kept hs.blocked hready h⟩)
    (KeeperCall.avoids_corrupt hctx.height.ne' hready hs)

theorem continues_sound (env : ChainEnv) (c₀ : CurationState) {ctx : BlockCtx} (hctx : ctx.Valid) :
    Sound env ctx (fun s => Continues env.toTextRules c₀ s.curation) (fun _ => False)
      (fun _ _ => True) :=
  .of_step (fun _ _ _ => id) fun _ _ _ hs hready _ h =>
    KeeperCall.continues hctx.height.ne' hs hready h

/-- The store that a chain starts from, or that the migration leaves. -/
inductive Origin (env : GenesisEnv) : ChainState → Prop
  | genesis {bank : Bank} {locked : OrderedMap Addr ℕ} {g : Genesis} {s : ChainState} :
      (∀ raw, g.rawState = some raw → CurationBooks env.toTextRules raw) →
      initGenesis env bank locked g = .ok s → Origin env s
  | migrated {ctx : BlockCtx} {s₀ s : ChainState} : PreUpgrade env.toTextRules s₀ →
      migrateV139 ctx s₀ = .ok s → Origin env s

theorem Origin.curationBooks {env : GenesisEnv} {s : ChainState} (h : Origin env s) :
    CurationBooks env.toTextRules s := by
  cases h with
  | genesis hraw hgenesis => exact curationBooks_of_initGenesis hraw hgenesis
  | migrated hs hmigrate => exact curationBooks_of_migrateV139 hs hmigrate

/-- In every state that any inputs lead to from genesis or from the migration, the books of
curation are in order, deleted teams have neither curators nor invitations, the teams stay
under their numbers in whatever follows, and no input returns an error that stands for books
out of order. -/
theorem curation_books_kept {env : GenesisEnv} {s₀ s : ChainState} {t₀ t : ℤ}
    (horigin : Origin env s₀) (hrun : ChainRun env.toChainEnv (fun _ _ _ => True) s₀ t₀ s t) :
    Bookkept env.toTextRules s.curation ∧
    (∀ slug id u, s.curation.teams.get (toLex (slug, id)) = some u → u.live = false → ∀ a,
      s.curation.members.has (rosterKey slug id a) = false ∧
      s.curation.invites.has (rosterKey slug id a) = false) ∧
    (∀ s' t', ChainRun env.toChainEnv (fun _ _ _ => True) s t s' t' →
      TeamsKept s.curation s'.curation) ∧
    ∀ (ctx : BlockCtx) (input : ChainInput), ctx.Valid →
      Avoids ChainError.Corrupt (input.exec env.toChainEnv ctx s) := by
  have hall : ∀ (ctx : BlockCtx) (s : ChainState) (input : ChainInput), True →
      input.Allowed (fun _ _ => True) env.toChainEnv s :=
    fun _ _ input _ => input.allowed_of_forall fun _ _ => trivial
  have hbooks : CurationBooks env.toTextRules s :=
    hrun.keeps (fun _ hctx => curationBooks_sound env.toChainEnv hctx) hall horigin.curationBooks
  refine ⟨hbooks.curation, fun slug id u hu hdead a => ⟨?_, ?_⟩, fun s' t' hlater => ?_,
    fun ctx input hctx => ?_⟩
  · refine Bool.eq_false_iff.mpr fun hhas => ?_
    obtain ⟨m, hm⟩ := has_iff.mp hhas
    obtain ⟨v, hv, hlive, -⟩ := hbooks.curation.seated slug id a m hm
    obtain rfl : u = v := Option.some.inj (hu.symm.trans hv)
    exact absurd hlive (Bool.eq_false_iff.mp hdead)
  · refine Bool.eq_false_iff.mpr fun hhas => ?_
    obtain ⟨v, hv, hlive⟩ := hbooks.curation.pending slug id a hhas
    obtain rfl : u = v := Option.some.inj (hu.symm.trans hv)
    exact absurd hlive (Bool.eq_false_iff.mp hdead)
  · have hcontinues : Continues env.toTextRules s.curation s'.curation :=
      hlater.keeps (I := fun s' => Continues env.toTextRules s.curation s'.curation)
        (fun _ hctx => continues_sound env.toChainEnv s.curation hctx) hall hbooks.curation.self
    exact hcontinues.kept
  · exact hrun.avoids (fun _ hctx => curationBooks_sound env.toChainEnv hctx) hall
      horigin.curationBooks hctx trivial

/-- A chain that starts with two admins, accounts 1 and 2, who do not pay. -/
def twoAdmins : Genesis where
  params := defaultParams
  rawState := none
  initialProfiles := [1, 2].map fun a =>
    ⟨some (a, { ProfileCore.blank with level := levelAdminMin, username := some (a + 4) }),
      [], [], [], [], []⟩

/-- Runs inputs on the chain of two admins. -/
def runAdmins (inputs : List (BlockCtx × ChainInput)) : Option (ChainState × ChainState) := do
  let s₀ ← (initGenesis plainEnv ⟨.empty, 0, 0⟩ .empty twoAdmins).toOption
  let s ← runInputs plainEnv.toChainEnv inputs s₀
  return (s₀, s)

theorem runAdmins_eq_some {inputs : List (BlockCtx × ChainInput)} {s₀ s : ChainState} :
    runAdmins inputs = some (s₀, s) ↔
      initGenesis plainEnv ⟨.empty, 0, 0⟩ .empty twoAdmins = .ok s₀ ∧
        runInputs plainEnv.toChainEnv inputs s₀ = some s := by
  simp [runAdmins, Option.bind_eq_some_iff, toOption_eq_some, and_left_comm, ← and_assoc]

/-- Account 1 founds a team for community 3, invites account 2, who accepts and pins the team, and
founds a team for community 4 that it deletes again. -/
def adminsCurate : List (BlockCtx × ChainInput) :=
  [(⟨10, 1, 0⟩, .relay (.user 1 0) (.createCurationTeam 3 5 0)),
    (⟨10, 1, 0⟩, .relay (.user 1 0) (.inviteCurator 3 1 2)),
    (⟨20, 2, 0⟩, .relay (.user 2 0) (.acceptCuratorInvite 3 1)),
    (⟨20, 2, 0⟩, .relay (.user 2 0) (.setCurationPreference 3 1 1)),
    (⟨20, 2, 0⟩, .relay (.user 1 0) (.createCurationTeam 4 5 0)),
    (⟨30, 3, 0⟩, .relay (.user 1 0) (.deleteCurationTeam 4 1))]

/-- Two curators pin the team of community 3, and the team of community 4 is gone. -/
theorem curation_books_kept_admins : ∃ s₀ s, runAdmins adminsCurate = some (s₀, s) ∧
    ((s.curation.liveTeam 3 1).map CurationTeam.subscriberCount = some 2 ∧
      s.curation.members.has (rosterKey 3 1 2) = true ∧
      (s.curation.teams.get (toLex (4, 1))).map CurationTeam.live = some false) ∧
    Bookkept plainRules s.curation ∧
    (∀ slug id u, s.curation.teams.get (toLex (slug, id)) = some u → u.live = false → ∀ a,
      s.curation.members.has (rosterKey slug id a) = false ∧
      s.curation.invites.has (rosterKey slug id a) = false) ∧
    (∀ s' t', ChainRun plainEnv.toChainEnv (fun _ _ _ => True) s 30 s' t' →
      TeamsKept s.curation s'.curation) ∧
    ∀ (ctx : BlockCtx) (input : ChainInput), ctx.Valid →
      Avoids ChainError.Corrupt (input.exec plainEnv.toChainEnv ctx s) := by
  have hok : (runAdmins adminsCurate).map (fun r => decide (
      (r.2.curation.liveTeam 3 1).map CurationTeam.subscriberCount = some 2 ∧
      r.2.curation.members.has (rosterKey 3 1 2) = true ∧
      (r.2.curation.teams.get (toLex (4, 1))).map CurationTeam.live = some false)) =
      some true := by decide +kernel
  obtain ⟨⟨s₀, s⟩, hadmins, hview⟩ := Option.map_eq_some_iff.mp hok
  obtain ⟨hgenesis, hinputs⟩ := runAdmins_eq_some.mp hadmins
  have hrun : ChainRun plainEnv.toChainEnv (fun _ _ _ => True) s₀ 0 s 30 :=
    ChainRun.start.append adminsCurate hinputs (by decide) (by decide) fun _ _ _ => trivial
  exact ⟨s₀, s, hadmins, of_decide_eq_true hview,
    curation_books_kept (.genesis (by simp [twoAdmins]) hgenesis) hrun⟩

end MirageNode
