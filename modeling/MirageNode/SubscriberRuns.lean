import MirageNode.BanLens
import MirageNode.FounderPins

/-!
# Subscriber counts along runs

Most callers tell the curation functions whether an account may curate (`canCurate`). A
departure and the preference that governance sets tell them whether it pays, which is something
else for an admin who does not pay, and a deletion takes the profile but leaves the preferences.
`CountsTruly` is the condition under which these three change what the counts are about as much
as they change the counts; all other calls keep the counts true (`KeeperCall.counted`).
-/

namespace MirageNode

open OrderedStore OrderedMap Fallible CurationState

/-! ## 1. Other communities -/

/-- Two stores with the same records of every community but one. -/
structure SameElsewhere (slug₀ : Slug) (s s' : CurationState) : Prop where
  joins : ∀ a slug, slug ≠ slug₀ → s'.joins.get (toLex (a, slug)) = s.joins.get (toLex (a, slug))
  teams : ∀ slug id, slug ≠ slug₀ → s'.teams.get (toLex (slug, id)) = s.teams.get (toLex (slug, id))
  teamUser : ∀ a slug, slug ≠ slug₀ →
    s'.teamUser.get (toLex (a, slug)) = s.teamUser.get (toLex (a, slug))
  members : ∀ slug id a, slug ≠ slug₀ →
    s'.members.get (rosterKey slug id a) = s.members.get (rosterKey slug id a)

section Elsewhere

variable {rules : TextRules} {p : Params} {height : ℤ} {profiles : Profiles}
  {s s₁ s' : CurationState} {owner : Addr} {slug₀ slug : Slug} {team : ℕ}

theorem SameElsewhere.refl (slug₀ : Slug) (s : CurationState) : SameElsewhere slug₀ s s :=
  ⟨fun _ _ _ => rfl, fun _ _ _ => rfl, fun _ _ _ => rfl, fun _ _ _ _ => rfl⟩

theorem SameElsewhere.trans (h : SameElsewhere slug₀ s s₁) (h' : SameElsewhere slug₀ s₁ s') :
    SameElsewhere slug₀ s s' where
  joins a slug hne := (h'.joins a slug hne).trans (h.joins a slug hne)
  teams slug id hne := (h'.teams slug id hne).trans (h.teams slug id hne)
  teamUser a slug hne := (h'.teamUser a slug hne).trans (h.teamUser a slug hne)
  members slug id a hne := (h'.members slug id a hne).trans (h.members slug id a hne)

theorem SameElsewhere.of_eq (hjoins : s'.joins = s.joins) (hteams : s'.teams = s.teams)
    (hteamUser : s'.teamUser = s.teamUser) (hmembers : s'.members = s.members) :
    SameElsewhere slug₀ s s' :=
  ⟨fun _ _ _ => by rw [hjoins], fun _ _ _ => by rw [hteams], fun _ _ _ => by rw [hteamUser],
    fun _ _ _ _ => by rw [hmembers]⟩

theorem sameElsewhere_setCurationTeam {t : CurationTeam} (ht : t.community = slug₀) :
    SameElsewhere slug₀ s (s.setCurationTeam t) := by
  refine ⟨fun _ _ _ => rfl, fun slug id hne => ?_, fun _ _ _ => rfl, fun _ _ _ _ => rfl⟩
  refine get_set_of_ne _ fun hk => hne ?_
  exact (Prod.mk.inj (toLex.injective hk)).1.trans ht

theorem sameElsewhere_removeCuratorFromTeam
    (h : removeCuratorFromTeam p s slug₀ team owner = .ok s') : SameElsewhere slug₀ s s' := by
  obtain ⟨-, -, rfl⟩ := removeCuratorFromTeam_cases h
  refine ⟨fun _ _ _ => rfl, fun _ _ _ => rfl, fun a slug hne => ?_, fun slug id a hne => ?_⟩
  · refine get_erase_of_ne fun hk => hne ?_
    exact (Prod.mk.inj (toLex.injective hk)).2
  · exact get_erase_of_ne fun hk => hne (rosterKey_inj.mp hk).1

theorem sameElsewhere_deleteCurationTeam (hkeyed : s.Keyed)
    (h : deleteCurationTeam rules p height s slug₀ team = .ok s') : SameElsewhere slug₀ s s' := by
  obtain ⟨t, s₁, s₂, hlive, h₁, h₂, rfl⟩ := deleteCurationTeam_cases h
  have hfirst : SameElsewhere slug₀ s s₁ := foldlM_ok_induction (P := SameElsewhere slug₀ s)
    (fun _ _ _ _ hstep hs => hs.trans (sameElsewhere_removeCuratorFromTeam hstep)) h₁
      (.refl slug₀ s)
  have hsecond : SameElsewhere slug₀ s₁
      { s₂ with teamName := s₂.teamName.erase (toLex (slug₀, rules.teamNameKey t.name)) } := by
    refine .of_eq ?_ ?_ ?_ ?_ <;> rw [(uninviteAll_spec h₂).1]
  exact (hfirst.trans hsecond).trans
    (sameElsewhere_setCurationTeam (hkeyed _ _ t (liveTeam_eq_some.mp hlive).1).1)

theorem sameElsewhere_removeCurationMembership (hkeyed : s.Keyed)
    (h : removeCurationMembership rules p height profiles s owner slug₀ team = .ok s') :
    SameElsewhere slug₀ s s' := by
  rcases removeCurationMembership_cases h with
    ⟨-, rfl⟩ | ⟨t, hlive, ⟨-, h⟩ | ⟨-, -, h⟩ | ⟨-, next, s₁, -, h₁, rfl⟩⟩
  · exact .refl slug₀ _
  · exact sameElsewhere_removeCuratorFromTeam h
  · exact sameElsewhere_deleteCurationTeam hkeyed h
  · exact (sameElsewhere_removeCuratorFromTeam h₁).trans
      (sameElsewhere_setCurationTeam (hkeyed _ _ t (liveTeam_eq_some.mp hlive).1).1)

theorem sameElsewhere_removePaidContribution (hkeyed : s.Keyed) {pref : CommunityPreference}
    {paid : Bool} (h : removePaidContribution s slug₀ pref paid = .ok s') :
    SameElsewhere slug₀ s s' := by
  cases paid with
  | false => exact Except.ok.inj h ▸ .refl slug₀ s
  | true =>
    rcases shifted_removeSubscriber h with ⟨-, rfl⟩ | ⟨t, _, ht, -, rfl⟩
    · exact .refl slug₀ _
    · obtain ⟨-, hlive⟩ := countedTeam_eq_some.mp ht
      exact sameElsewhere_setCurationTeam (hkeyed _ _ t (liveTeam_eq_some.mp hlive).1).1

/-- A departure touches no record of another community. -/
theorem sameElsewhere_leaveCommunity (hkeyed : s.Keyed) (hheight : height ≠ 0) {paid : Bool}
    (h : leaveCommunity rules p height profiles s owner slug₀ paid = .ok s') :
    SameElsewhere slug₀ s s' := by
  obtain ⟨pref, s₁, s₂, -, h₁, h₂, rfl⟩ := leaveCommunity_cases h
  have hfirst : SameElsewhere slug₀ s s₁ := by
    rcases leaveTeam_cases h₁ with ⟨rfl, -⟩ | ⟨team, -, h₁⟩
    · exact .refl slug₀ _
    · exact sameElsewhere_removeCurationMembership hkeyed h₁
  have hkeyed₁ : s₁.Keyed := (sameCounts_leaveTeam hkeyed hheight h₁).keyed hkeyed
  refine (hfirst.trans (sameElsewhere_removePaidContribution hkeyed₁ h₂)).trans
    ⟨fun a slug hne => ?_, fun _ _ _ => rfl, fun _ _ _ => rfl, fun _ _ _ _ => rfl⟩
  refine get_erase_of_ne fun hk => hne ?_
  exact (Prod.mk.inj (toLex.injective hk)).2

theorem SameElsewhere.successor (h : SameElsewhere slug₀ s s') (hne : slug ≠ slug₀) :
    successor profiles s' slug team owner = successor profiles s slug team owner := by
  have hroster : s'.roster slug team = s.roster slug team := by
    refine ext_get fun a => ?_
    simp only [roster, get_slice]
    exact h.members slug team a hne
  rw [MirageNode.successor, MirageNode.successor, hroster]

theorem SameElsewhere.countedTeam (h : SameElsewhere slug₀ s s') (hne : slug ≠ slug₀)
    (pref : CommunityPreference) : s'.countedTeam slug pref = s.countedTeam slug pref := by
  simp only [CurationState.countedTeam, liveTeam, getCurationTeam, h.teams slug _ hne]

end Elsewhere

/-! ## 2. The condition -/

/-- An admin who does not pay: curates, but not by a subscription. -/
def ProfileCore.UnpaidAdmin (core : ProfileCore) : Prop :=
  canCurate core = true ∧ core.effectivePaid = false

theorem ProfileCore.effectivePaid_eq {core : ProfileCore} (h : ¬ core.UnpaidAdmin) :
    core.effectivePaid = canCurate core := by
  unfold UnpaidAdmin canCurate at *
  cases hpaid : core.effectivePaid <;> simp_all

/-- The team ends when the account leaves: the account owns it, and nobody can succeed. -/
structure ClosesWith (profiles : Profiles) (c : CurationState) (owner : Addr) (slug : Slug)
    (t : CurationTeam) : Prop where
  member : c.teamUser.get (toLex (owner, slug)) = some t.teamId
  owns : t.owner = owner
  alone : successor profiles c slug t.teamId owner = none

/-- The condition on the calls that do not ask whether the account may curate. -/
def TrulyCounted (profiles : Profiles) (c : CurationState) : KeeperCall → Prop
  | .curate (.leave owner core slug) => core.UnpaidAdmin → ∀ pref t,
      c.getPreference owner slug = some pref → c.countedTeam slug pref = some t →
      ClosesWith profiles c owner slug t
  | .curate (.govPrefer owner core slug mode team) => core.UnpaidAdmin → ∀ m,
      PreferenceMode.ofInt mode = some m →
      c.countedTeam slug ((c.getPreference owner slug).getD .default) =
        c.countedTeam slug ⟨m, team⟩
  | .deleteUser target core => canCurate core = true → ∀ slug pref,
      c.getPreference target slug = some pref → c.countedTeam slug pref = none
  | _ => True

/-- An admin who does not pay leaves no live team that they are pinned to, unless it ends with
them; governance moves such an admin to no other live team and from none; and whoever may
curate is deleted only without being pinned to a live team. -/
def CountsTruly (k : KeeperCall) (s : ChainState) : Prop := TrulyCounted s.profiles s.curation k

/-! ## 3. Calls -/

/-- The books of curation with true counts. -/
structure CountBooks (rules : TextRules) (s : ChainState) : Prop where
  lenses : LensBooks rules s.curation
  blocked : Tally s.blockedCommunities.idx s.blockedCommunities.counts
  counted : Counted s.profiles.eligible s.curation

theorem LensesOpen.pinsKnown {c : CurationState} (h : LensesOpen c) : PinsKnown c := by
  intro a slug pref hpref hmode
  obtain ⟨-, t, ht, -⟩ := h _ pref hpref hmode
  exact ⟨t, ht⟩

section Calls

variable {env : ChainEnv} {ctx : BlockCtx} {s s' : ChainState} {c c' : CurationState}
  {owner : Addr} {slug : Slug}

/-- A team that closes with an account is not live once the account has left it. -/
theorem ClosesWith.countedTeam_none {rules : TextRules} {p : Params} {height : ℤ}
    {profiles : Profiles} (hb : Bookkept rules c) (hheight : height ≠ 0)
    {pref : CommunityPreference} {t : CurationTeam} (ht : c.countedTeam slug pref = some t)
    (hcloses : ClosesWith profiles c owner slug t)
    (h : leaveTeam rules p height profiles c owner slug = .ok c') :
    c'.countedTeam slug pref = none := by
  obtain ⟨hmode, hlive⟩ := countedTeam_eq_some.mp ht
  have hget := (liveTeam_eq_some.mp hlive).1
  obtain ⟨rfl, hid⟩ := hb.teams.keyed _ _ t hget
  rw [← hid] at hlive hget
  rcases leaveTeam_cases h with ⟨-, hzero⟩ | ⟨team, hteam, h⟩
  · exact absurd (hzero _ hcloses.member) (hb.teams.below _ _ t hget).1.ne'
  obtain rfl : team = t.teamId := Option.some.inj (hteam.symm.trans hcloses.member)
  rcases removeCurationMembership_cases h with
    ⟨hnone, -⟩ | ⟨u, hu, ⟨hne, -⟩ | ⟨-, -, hdelete⟩ | ⟨-, next, s₁, hnext, -⟩⟩
  · rw [hlive] at hnone
    cases hnone
  · obtain rfl : t = u := Option.some.inj (hlive.symm.trans hu)
    exact absurd hcloses.owns hne
  · rw [CurationState.countedTeam, if_pos hmode, ← hid]
    exact liveTeam_deleteCurationTeam hb.teams.keyed hheight hdelete
  · rw [hcloses.alone] at hnext
    cases hnext

theorem Counted.hideUser {eligible : Addr → Bool} (h : Counted eligible c) (slug : Slug) (team : ℕ)
    (target actor : Addr) :
    Counted eligible (setCurationActionHiddenUser c slug team target actor true) :=
  h.of_sameCounts (.of_teams rfl rfl)

theorem CurationCall.counted (hheight : ctx.height ≠ 0) {call : CurationCall}
    (hb : LensBooks env.toTextRules s.curation) (h : Counted s.profiles.eligible s.curation)
    (hready : call.Ready s) (hallow : TrulyCounted s.profiles s.curation (.curate call))
    (hexec : call.exec env ctx s = .ok c) : Counted s.profiles.eligible c := by
  cases call with
  | join owner slug cap => exact h.of_joinCommunity hexec
  | joinWithLens owner core slug cap mode team =>
    rw [CurationCall.exec, ← Profiles.eligible_of_get hready] at hexec
    exact h.of_joinCommunityWithLens hexec
  | prefer owner core slug mode team =>
    rw [CurationCall.exec, ← Profiles.eligible_of_get hready] at hexec
    exact h.of_setCurationPreference hexec
  | govPrefer owner core slug mode team =>
    by_cases hadmin : core.UnpaidAdmin
    · rw [CurationCall.exec, hadmin.2] at hexec
      refine h.of_uncounted (fun old m hold hm => ?_) hexec
      have hsame := hallow hadmin m hm
      rwa [getPreference, hold] at hsame
    · rw [CurationCall.exec, ProfileCore.effectivePaid_eq hadmin,
        ← Profiles.eligible_of_get hready] at hexec
      exact h.of_setCurationPreference hexec
  | leave owner core slug =>
    refine h.of_leaveCommunity hheight (fun pref s₁ hpref h₁ => ?_) hexec
    rw [Profiles.eligible_of_get hready]
    by_cases hadmin : core.UnpaidAdmin
    · right
      cases ht : s.curation.countedTeam slug pref with
      | some t =>
        exact (hallow hadmin pref t hpref ht).countedTeam_none hb.toBookkept hheight ht h₁
      | none =>
        cases ht₁ : s₁.countedTeam slug pref with
        | none => rfl
        | some t =>
          obtain ⟨hmode, hlive⟩ := countedTeam_eq_some.mp ht₁
          have hcount := (sameCounts_leaveTeam h.keyed hheight h₁).counts slug
            pref.pinnedTeamId t.subscriberCount (by rw [countOf, hlive, Option.map_some])
          obtain ⟨u, hu, -⟩ := Option.map_eq_some_iff.mp hcount
          rw [countedTeam_eq_some.mpr ⟨hmode, hu⟩] at ht
          cases ht
    · exact .inl (ProfileCore.effectivePaid_eq hadmin)
  | createTeam owner slug name description =>
    exact h.of_createCurationTeam hb.lenses.pinsKnown hb.get_nextTeamId hexec
  | invite actor slug team target =>
    obtain ⟨_, _, _, _, _, rfl⟩ := inviteCurator_cases hexec
    exact h.of_sameCounts (.of_teams rfl rfl)
  | uninvite slug team target =>
    obtain ⟨_, rfl⟩ := clearPendingInvite_cases hexec
    exact h.of_sameCounts (.of_teams rfl rfl)
  | accept actor slug team => exact h.of_acceptCuratorInvite hexec
  | remove slug team target => exact h.of_sameCounts (sameCounts_removeCuratorFromTeam hexec)
  | dismiss slug team target => exact h.of_sameCounts (sameCounts_removeCuratorFromTeam hexec)
  | setOwner slug team newOwner =>
    obtain ⟨t, hlive, _, _, rfl⟩ := setCurationTeamOwner_cases hexec
    exact h.of_sameCounts (sameCounts_setCurationTeam h.keyed hlive rfl rfl fun _ => rfl)
  | deleteTeam slug team =>
    exact h.of_sameCounts (sameCounts_deleteCurationTeam h.keyed hheight hexec)
  | rename actor slug team name description =>
    exact h.of_sameCounts (sameCounts_updateCurationTeamProfile h.keyed hexec)
  | decorate t tag subscriberOnly =>
    obtain rfl := Except.ok.inj hexec
    obtain ⟨slug, team, hlive⟩ := hready
    exact h.of_sameCounts (sameCounts_setCurationTeam h.keyed hlive rfl rfl fun _ => rfl)
  | moderate c' =>
    obtain rfl := Except.ok.inj hexec
    refine h.of_sameCounts (.of_teams ?_ ?_) <;> rw [hready.1]
  | ban slug team target actor =>
    exact (h.hideUser slug team target actor).of_rerouteBannedUserPreference hexec

/-- A deleted account that counted for no live team. -/
theorem Counted.deleted {target : Addr} {core : ProfileCore} {profiles : Profiles}
    (h : Counted profiles.eligible c) (hcore : profiles.get target = some core)
    (hallow : canCurate core = true → ∀ slug pref, c.getPreference target slug = some pref →
      c.countedTeam slug pref = none) : Counted (Profiles.eligible (profiles.erase target)) c := by
  have hothers : ∀ a, a ≠ target →
      Profiles.eligible (profiles.erase target) a = profiles.eligible a := fun a ha => by
    rw [Profiles.eligible, get_erase_of_ne ha, Profiles.eligible]
  have hgone : Profiles.eligible (profiles.erase target) target = false := by
    rw [Profiles.eligible, get_erase_self]
  refine ⟨h.keyed, fun slug id n hn => (h.count slug id n hn).trans ?_⟩
  cases hpref : c.joins.get (toLex (target, slug)) with
  | none => exact (subscribers_of_none hothers hpref id).symm
  | some pref =>
    have hsum := subscribers_of_get hothers hpref id
    have hnone : (if profiles.eligible target then pref.pins slug slug id else 0) = 0 := by
      rw [Profiles.eligible_of_get hcore]
      split
      next hcan => exact pins_of_countedTeam_none (hallow hcan slug pref hpref) hn
      next => rfl
    rw [hnone, hgone] at hsum
    exact hsum.symm

theorem KeeperCall.counted (hheight : ctx.height ≠ 0) {k : KeeperCall}
    (hb : CountBooks env.toTextRules s) (hready : k.Ready ctx s)
    (hallow : k.Special → CountsTruly k s) (h : k.exec env ctx s = .ok s') :
    Counted s'.profiles.eligible s'.curation := by
  cases KeeperCall.curation_cases hready h with
  | same hsame heligible => exact heligible ▸ hsame ▸ hb.counted
  | call call hcall hprofiles =>
    rw [hprofiles]
    refine CurationCall.counted hheight hb.lenses hb.counted hready ?_ hcall
    by_cases hspecial : (KeeperCall.curate call).Special
    · exact hallow hspecial
    · cases call with
      | leave => exact absurd trivial hspecial
      | govPrefer => exact absurd trivial hspecial
      | _ => trivial
  | moved owner before after hbefore hmove hprofiles =>
    rw [hprofiles]
    rw [← Profiles.eligible_of_get hbefore,
      ← Profiles.eligible_of_get (get_set_self s.profiles owner after)] at hmove
    refine hb.counted.of_transitionCurationEligibility (fun a ha => ?_) hheight hmove
    rw [Profiles.eligible_set]
    exact if_neg ha
  | deleted target core hsame hprofiles =>
    rw [hsame, hprofiles]
    exact hb.counted.deleted hready (hallow trivial)

/-- No call takes a subscriber from an empty count. -/
theorem CurationCall.avoids_underflow (hheight : ctx.height ≠ 0) {call : CurationCall}
    (hb : LensBooks env.toTextRules s.curation) (h : Counted s.profiles.eligible s.curation)
    (hready : call.Ready s) : Avoids ChainError.Underflow (call.exec env ctx s) := by
  have hserious : ∀ e : ChainError, e.Underflow → e.Serious := fun _ => ChainError.Underflow.serious
  have hpaid : ∀ {owner core}, s.profiles.get owner = some core → core.effectivePaid = true →
      s.profiles.eligible owner = true := fun hcore hpaid =>
    Profiles.eligible_iff.mpr ⟨_, hcore, by rw [canCurate, hpaid, Bool.true_or]⟩
  have hcan : ∀ {owner core}, s.profiles.get owner = some core → canCurate core = true →
      s.profiles.eligible owner = true := fun hcore hcan =>
    Profiles.eligible_iff.mpr ⟨_, hcore, hcan⟩
  refine CurationCall.avoids hserious hb.toBookkept fun hrecount => ?_
  cases call with
  | joinWithLens owner core slug cap mode team =>
    exact joinCommunityWithLens_avoids hserious fun s₁ _ _ hjoin =>
      (h.of_joinCommunity hjoin).prefers (hcan hready)
  | prefer owner core slug mode team => exact h.prefers (hcan hready)
  | govPrefer owner core slug mode team => exact h.prefers (hpaid hready)
  | leave owner core slug =>
    refine leaveCommunity_avoids hserious hb.toBookkept hheight fun pref s₁ hpref h₁ => ?_
    have hs₁ := h.of_sameCounts (sameCounts_leaveTeam h.keyed hheight h₁)
    refine CountedIn.removesPaid (hs₁.count slug) (hpaid hready) ?_
    rw [joins_leaveTeam h₁]
    exact hpref
  | createTeam owner slug name description =>
    refine createCurationTeam_avoids hserious fun core text cap s₁ hcore hjoin => ?_
    have hfounded := h.founded (t := .fresh slug (s.curation.nextTeamId slug) owner name text
      ctx.height) hb.lenses.pinsKnown (env.teamNameKey name) hb.get_nextTeamId rfl
    exact ((hfounded.enlisted slug _ owner 1).of_joinCommunity hjoin).prefers (hcan hcore)
  | ban slug team target actor =>
    exact rerouteBannedUserPreference_avoids hserious fun core mode next hcore =>
      (h.hideUser slug team target actor).prefers (hcan hcore)
  | _ => exact hrecount.elim

theorem KeeperCall.avoids_underflow (hheight : ctx.height ≠ 0) {k : KeeperCall}
    (hb : CountBooks env.toTextRules s) (hready : k.Ready ctx s) :
    Avoids ChainError.Underflow (k.exec env ctx s) := by
  have hserious : ∀ e : ChainError, e.Underflow → e.Serious := fun _ => ChainError.Underflow.serious
  refine KeeperCall.avoids hserious hready hb.blocked (fun call hk => ?_)
    fun owner before after hbefore => ?_
  · subst hk
    exact CurationCall.avoids_underflow hheight hb.lenses hb.counted hready
  · refine transitionCurationEligibility_avoids hserious hb.lenses.toBookkept hheight fun hne => ?_
    refine shiftContributions_uncount (nodup_keys _) hb.counted.keyed
      (fun slug _ => hb.counted.count slug) ?_ fun slug => mem_joinedCommunities.mp
    rw [Profiles.eligible_of_get hbefore]
    revert hne
    cases canCurate before <;> cases canCurate after <;> decide

end Calls

/-! ## 4. Runs -/

theorem countBooks_sound (env : ChainEnv) {ctx : BlockCtx} (hctx : ctx.Valid) :
    Sound env ctx (CountBooks env.toTextRules) ChainError.Underflow CountsTruly where
  serious _ h := h.serious
  founderJoin _ _ _ h := h
  founderPin _ _ _ _ h := h
  levelTransition _ h := h
  stable k s s' _ hprofiles hcuration _ h := by
    rw [CountsTruly, hprofiles, hcuration]
    exact h
  leftOther owner core slug slug' s c hs hne hleave h := by
    have hsame := sameElsewhere_leaveCommunity hs.counted.keyed hctx.height.ne' hleave
    intro hadmin pref t hpref ht
    rw [getPreference, hsame.joins owner slug hne.symm] at hpref
    rw [hsame.countedTeam hne.symm] at ht
    obtain ⟨hmember, howns, halone⟩ := h hadmin pref t hpref ht
    refine ⟨(hsame.teamUser owner slug hne.symm).trans hmember, howns, ?_⟩
    exact (hsame.successor hne.symm).trans halone
  joinedFirst owner core slug cap mode team s c _ hjoin h := by
    intro hadmin m hm
    have hsame := h hadmin m hm
    have hcounted : ∀ pref, c.countedTeam slug pref = s.curation.countedTeam slug pref := by
      intro pref
      simp only [CurationState.countedTeam, liveTeam, getCurationTeam,
        (frame_joinCommunity hjoin).1]
    have hpref : (c.getPreference owner slug).getD .default =
        (s.curation.getPreference owner slug).getD .default := by
      rcases joinCommunity_cases hjoin with ⟨-, rfl⟩ | ⟨hnew, -, rfl⟩
      · rfl
      · have hdefault : (s.curation.joined owner slug).getPreference owner slug = some .default :=
          get_set_self _ _ _
        rw [hdefault, getPreference, hnew]
        rfl
    rw [hcounted, hcounted, hpref]
    exact hsame
  call k s hs hready hallow := .of_avoids
    (fun s' h => ⟨⟨(KeeperCall.continues hctx.height.ne' hs.lenses.self hready h).toBookkept,
        KeeperCall.lensesOpen hctx.height.ne' hs.lenses.toBookkept hs.lenses.lenses hready h⟩,
      KeeperCall.blocked_kept hs.blocked hready h,
      KeeperCall.counted hctx.height.ne' hs hready hallow h⟩)
    (KeeperCall.avoids_underflow hctx.height.ne' hs hready)

/-- The store of a new chain, or the one that the migration leaves. -/
inductive Launch (env : GenesisEnv) : ChainState → Prop
  | genesis {bank : Bank} {locked : OrderedMap Addr ℕ} {g : Genesis} {s : ChainState} :
      g.rawState = none → initGenesis env bank locked g = .ok s → Launch env s
  | migrated {ctx : BlockCtx} {s₀ s : ChainState} : PreUpgrade env.toTextRules s₀ →
      LensesOpen s₀.curation → migrateV139 ctx s₀ = .ok s → Launch env s

theorem countBooks_of_initGenesis {env : GenesisEnv} {bank : Bank} {locked : OrderedMap Addr ℕ}
    {g : Genesis} {s : ChainState} (hraw : g.rawState = none)
    (h : initGenesis env bank locked g = .ok s) : CountBooks env.toTextRules s := by
  obtain ⟨hbooks, hunfounded⟩ := unfounded_of_initGenesis hraw h
  refine ⟨hunfounded.lensBooks hbooks.curation, hbooks.blocked, hbooks.curation.teams.keyed,
    fun slug id n hn => ?_⟩
  rw [countOf, hunfounded.liveTeam_eq_none] at hn
  cases hn

/-- Followed topics are joined with the default lens. -/
theorem LensesOpen.of_migrateFollowedTopics {topics : ListStore} {c c' : CurationState}
    (h : LensesOpen c) (hmigrate : migrateFollowedTopics topics c = .ok c') : LensesOpen c' := by
  have hc' := migrateFollowedTopics_eq_ok hmigrate
  have hjoins : ∀ k pref, c'.joins.get k = some pref → pref.mode = .pinned →
      c.joins.get k = some pref := by
    rw [hc']
    refine List.foldlRecOn (motive := fun (m : OrderedMap (Addr ×ₗ Slug) CommunityPreference) =>
      ∀ k pref, m.get k = some pref → pref.mode = .pinned → c.joins.get k = some pref) _ _
      (fun k pref hpref _ => hpref) fun m hm join _ k pref hpref hmode => ?_
    rcases get_set_cases hpref with ⟨-, rfl⟩ | ⟨-, hpref⟩
    · cases hmode
    · exact hm k pref hpref hmode
  intro k pref hpref hmode
  have hopen := h k pref (hjoins k pref hpref hmode) hmode
  rw [hc']
  exact hopen

theorem LensesOpen.of_migrateCuratorDefinedCommunities {eligible : Addr → Bool}
    {c c' : CurationState} (h : LensesOpen c) (hfiled : TeamsFiled c.teams)
    (hmigrate : migrateCuratorDefinedCommunities eligible c = .ok c') : LensesOpen c' := by
  obtain ⟨hc', hget⟩ := migrateCuratorDefinedCommunities_eq_ok hfiled hmigrate
  intro k pref hpref hmode
  rw [hc'] at hpref
  obtain ⟨hid, t, ht, hdead⟩ := h k pref hpref hmode
  refine ⟨hid, _, by rw [hget, ht, Option.map_some], fun hban => ?_⟩
  rw [hc'] at hban
  have hdeleted := hdead hban
  unfold CurationTeam.joinedBy
  split <;> exact hdeleted

theorem countBooks_of_migrateV139 {rules : TextRules} {ctx : BlockCtx} {s s' : ChainState}
    (hs : PreUpgrade rules s) (hopen : LensesOpen s.curation) (h : migrateV139 ctx s = .ok s') :
    CountBooks rules s' := by
  have hbooks := curationBooks_of_migrateV139 hs h
  have hcounted := (counted_of_migrateV139 hs.upgraded hs.curation.teamsFiled h).2.1
  refine ⟨⟨hbooks.curation, ?_⟩, hbooks.blocked, hcounted⟩
  obtain ⟨c₁, hfollowed, hteams, -, -, -, hfiled₁⟩ := migrateV139_curation hs.upgraded h
  exact (hopen.of_migrateFollowedTopics hfollowed).of_migrateCuratorDefinedCommunities
    (hfiled₁ hs.curation.teamsFiled) hteams

theorem Launch.countBooks {env : GenesisEnv} {s : ChainState} (h : Launch env s) :
    CountBooks env.toTextRules s := by
  cases h with
  | genesis hraw hgenesis => exact countBooks_of_initGenesis hraw hgenesis
  | migrated hs hopen hmigrate => exact countBooks_of_migrateV139 hs hopen hmigrate

/-- Along inputs that count truly, every live team stores the number of accounts that may curate
and are pinned to it, and no such input fails because a count is empty. -/
theorem subscriber_counts_true {env : GenesisEnv} {s₀ s : ChainState} {t₀ t : ℤ}
    (hlaunch : Launch env s₀)
    (hrun : ChainRun env.toChainEnv
      (fun _ s input => input.Allowed CountsTruly env.toChainEnv s) s₀ t₀ s t) :
    (∀ slug id team, s.curation.liveTeam slug id = some team →
      team.subscriberCount = s.curation.subscribers s.profiles.eligible slug id) ∧
    ∀ (ctx : BlockCtx) (input : ChainInput), ctx.Valid →
      input.Allowed CountsTruly env.toChainEnv s →
      Avoids ChainError.Underflow (input.exec env.toChainEnv ctx s) := by
  have hbooks : CountBooks env.toTextRules s :=
    hrun.keeps (fun _ hctx => countBooks_sound env.toChainEnv hctx) (fun _ _ _ h => h)
      hlaunch.countBooks
  refine ⟨fun slug id team hlive => ?_, fun ctx input hctx hallow => ?_⟩
  · exact hbooks.counted.count slug id _ (by rw [countOf, hlive, Option.map_some])
  · exact hrun.avoids (fun _ hctx => countBooks_sound env.toChainEnv hctx) (fun _ _ _ h => h)
      hlaunch.countBooks hctx hallow

/-- Account 1 founds a team, is pinned to it and is counted, and so is account 2, who joins. -/
theorem subscriber_counts_true_founded : ∃ s₀ s team,
    runAdmins [(⟨10, 1, 0⟩, .gov (.createCurationTeam 1 3 5 0)),
      (⟨10, 1, 0⟩, .relay (.user 2 0) (.joinCommunity 3 1 1))] = some (s₀, s) ∧
    s.curation.liveTeam 3 1 = some team ∧ team.subscriberCount = 2 ∧
    team.subscriberCount = s.curation.subscribers s.profiles.eligible 3 1 := by
  have hok : (runAdmins [(⟨10, 1, 0⟩, .gov (.createCurationTeam 1 3 5 0)),
      (⟨10, 1, 0⟩, .relay (.user 2 0) (.joinCommunity 3 1 1))]).map (fun r =>
        (r.2.curation.liveTeam 3 1).map CurationTeam.subscriberCount) = some (some 2) := by
    decide +kernel
  obtain ⟨⟨s₀, s⟩, hadmins, hview⟩ := Option.map_eq_some_iff.mp hok
  obtain ⟨team, hlive, hcount⟩ := Option.map_eq_some_iff.mp hview
  obtain ⟨hgenesis, hinputs⟩ := runAdmins_eq_some.mp hadmins
  have hrun : ChainRun plainEnv.toChainEnv
      (fun _ s input => input.Allowed CountsTruly plainEnv.toChainEnv s) s₀ 0 s 10 :=
    ChainRun.start.append _ hinputs (by decide) (by decide)
      (by simp [ChainInput.Allowed, GovMsg.Allowed, RelayMsg.Allowed])
  exact ⟨s₀, s, team, hadmins, hlive, hcount,
    (subscriber_counts_true (.genesis rfl hgenesis) hrun).1 3 1 team hlive⟩

/-- Governance pins account 2 to the team of account 1, and the team counts one subscriber where
there are two. Once account 2 is no longer an admin and is taken from the count, account 1 cannot
be taken from it any more. -/
theorem subscriber_counts_drift : ∃ s₀ s₁ s₂,
    runAdmins [(⟨10, 1, 0⟩, .gov (.createCurationTeam 1 3 5 0)),
      (⟨10, 1, 0⟩, .gov (.setCommunityPreference 2 3 1 1 true))] = some (s₀, s₁) ∧
    s₁.curation.countOf 3 1 = some 1 ∧ s₁.curation.subscribers s₁.profiles.eligible 3 1 = 2 ∧
    (ChainInput.gov (.setLevel 2 levelFree)).exec plainEnv.toChainEnv ⟨10, 1, 0⟩ s₁ = .ok s₂ ∧
    (ChainInput.gov (.setLevel 1 levelFree)).exec plainEnv.toChainEnv ⟨10, 1, 0⟩ s₂ =
      .error (.levelTransition (.subscriberUnderflow 3 1)) := by
  have hok : ((runAdmins [(⟨10, 1, 0⟩, .gov (.createCurationTeam 1 3 5 0)),
      (⟨10, 1, 0⟩, .gov (.setCommunityPreference 2 3 1 1 true))]).bind fun r =>
      ((ChainInput.gov (.setLevel 2 levelFree)).exec plainEnv.toChainEnv ⟨10, 1, 0⟩
        r.2).toOption.map fun s₂ =>
      decide (r.2.curation.countOf 3 1 = some 1 ∧
        r.2.curation.subscribers r.2.profiles.eligible 3 1 = 2) &&
      match (ChainInput.gov (.setLevel 1 levelFree)).exec plainEnv.toChainEnv ⟨10, 1, 0⟩ s₂ with
      | .error (.levelTransition (.subscriberUnderflow 3 1)) => true
      | _ => false) = some true := by
    decide +kernel
  obtain ⟨⟨s₀, s₁⟩, hadmins, hok⟩ := Option.bind_eq_some_iff.mp hok
  obtain ⟨s₂, hs₂, hok⟩ := Option.map_eq_some_iff.mp hok
  obtain ⟨hcounts, hlast⟩ := Bool.and_eq_true_iff.mp hok
  obtain ⟨hstored, htrue⟩ := of_decide_eq_true hcounts
  refine ⟨s₀, s₁, s₂, hadmins, hstored, htrue, toOption_eq_some.mp hs₂, ?_⟩
  split at hlast
  next h => exact h
  next => cases hlast

end MirageNode
