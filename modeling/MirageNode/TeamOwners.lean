import MirageNode.CurationRuns
import MirageNode.SubscriberCounts

/-!
# Team owners

Every live team is owned by one of its curators who may curate. Where the owner goes, the
curator who accepted first among those who may curate takes over, or the team ends
(`succeeded_removeCurationMembership`). An account that loses its eligibility goes from team to
team; the teams that it has not left yet are the only ones without a rightful owner
(`Rightful.of_removeMemberships`).

Two calls do not look for a successor: governance takes any curator from a roster, the owner
too, and a deleted account stays on the rosters of its teams without a profile. Nor does the
migration: it leaves a team live whose owner may not curate (`ownerBooks_of_migrateV139` says when
it does not).
-/

namespace MirageNode

open OrderedStore OrderedMap Fallible CurationState

/-- Every live team is owned by one of its curators who may curate. -/
def Rightful (eligible : Addr → Bool) (c : CurationState) : Prop :=
  ∀ slug id t, c.liveTeam slug id = some t →
    c.members.has (rosterKey slug id t.owner) = true ∧ eligible t.owner = true

/-- Every live team was live before and has the owner that it had, who is still a curator. -/
def SameOwners (c c' : CurationState) : Prop :=
  ∀ slug id t', c'.liveTeam slug id = some t' → ∃ t, c.liveTeam slug id = some t ∧
    t'.owner = t.owner ∧ (c.members.has (rosterKey slug id t.owner) = true →
      c'.members.has (rosterKey slug id t.owner) = true)

/-! ## 1. Stores with the same owners -/

variable {pref : CommunityPreference} {paid : Bool}

section SameOwners

variable {rules : TextRules} {p : Params} {height : ℤ} {profiles : Profiles}
  {eligible : Addr → Bool} {c c₁ c' : CurationState} {owner : Addr} {slug : Slug} {team : ℕ}

theorem SameOwners.refl (c : CurationState) : SameOwners c c :=
  fun _ _ t ht => ⟨t, ht, rfl, id⟩

theorem SameOwners.trans (h : SameOwners c c₁) (h' : SameOwners c₁ c') : SameOwners c c' := by
  intro slug id t' ht'
  obtain ⟨t₁, ht₁, howner₁, hmember₁⟩ := h' slug id t' ht'
  obtain ⟨t, ht, howner, hmember⟩ := h slug id t₁ ht₁
  rw [howner] at hmember₁
  exact ⟨t, ht, howner₁.trans howner, fun hm => hmember₁ (hmember hm)⟩

theorem SameOwners.of_eq (hteams : c'.teams = c.teams) (hmembers : c'.members = c.members) :
    SameOwners c c' := by
  intro slug id t ht
  rw [liveTeam, getCurationTeam, hteams] at ht
  exact ⟨t, ht, rfl, fun hm => hmembers ▸ hm⟩

theorem Rightful.of_sameOwners (h : Rightful eligible c) (hsame : SameOwners c c') :
    Rightful eligible c' := by
  intro slug id t' ht'
  obtain ⟨t, ht, howner, hmember⟩ := hsame slug id t' ht'
  obtain ⟨hm, he⟩ := h slug id t ht
  rw [howner]
  exact ⟨hmember hm, he⟩

/-- What is live after a team was written. -/
theorem liveTeam_setCurationTeam {t t' : CurationTeam} {id : ℕ}
    (h : (c.setCurationTeam t').liveTeam slug id = some t) :
    t = t' ∧ slug = t'.community ∧ id = t'.teamId ∨
      (slug, id) ≠ (t'.community, t'.teamId) ∧ c.liveTeam slug id = some t := by
  obtain ⟨hget, hlive⟩ := liveTeam_eq_some.mp h
  rcases setCurationTeam_get.mp hget with ⟨hk, rfl⟩ | ⟨hne, hget⟩
  · obtain ⟨hslug, hid⟩ := Prod.mk.inj (toLex.injective hk)
    exact .inl ⟨rfl, hslug, hid⟩
  · exact .inr ⟨fun hk => hne (congrArg toLex hk), liveTeam_eq_some.mpr ⟨hget, hlive⟩⟩

theorem sameOwners_joinCommunity {cap : ℕ} (h : joinCommunity rules p c owner slug cap = .ok c') :
    SameOwners c c' :=
  .of_eq (frame_joinCommunity h).1 (frame_joinCommunity h).2.1

theorem sameOwners_clearInvite (h : clearInvite c slug team owner = .ok c') : SameOwners c c' := by
  rcases clearInvite_cases h with ⟨-, rfl⟩ | ⟨-, rfl⟩
  · exact .refl _
  · exact .of_eq rfl rfl

theorem sameOwners_clearPendingInvitationsForTarget
    (h : clearPendingInvitationsForTarget c owner = .ok c') : SameOwners c c' :=
  foldlM_ok_induction (P := SameOwners c)
    (fun _ _ _ _ hstep hc => hc.trans (sameOwners_clearInvite hstep)) h (.refl c)

theorem has_discharged {k : RosterKey} : (c.discharged slug team owner).members.has k = true ↔
    k ≠ rosterKey slug team owner ∧ c.members.has k = true := by
  simp [discharged, has_erase]

/-- A curator who does not own the team goes. -/
theorem sameOwners_removeCuratorFromTeam
    (hother : ∀ t, c.liveTeam slug team = some t → t.owner ≠ owner)
    (h : removeCuratorFromTeam p c slug team owner = .ok c') : SameOwners c c' := by
  obtain ⟨-, -, rfl⟩ := removeCuratorFromTeam_cases h
  intro slug' id' t ht
  have ht : c.liveTeam slug' id' = some t := ht
  refine ⟨t, ht, rfl, fun hm => has_discharged.mpr ⟨fun hk => ?_, hm⟩⟩
  obtain ⟨rfl, rfl, howner⟩ := rosterKey_inj.mp hk
  exact hother t ht howner

theorem sameOwners_enlisted (c : CurationState) (slug : Slug) (team : ℕ) (a : Addr) (order : ℕ) :
    SameOwners c (c.enlisted slug team a order) := by
  intro slug' id t ht
  refine ⟨t, ht, rfl, fun hm => ?_⟩
  rw [enlisted, has_set, hm, Bool.or_true]

variable (hkeyed : c.Keyed)

include hkeyed

/-- A live team is written again with its owner. -/
theorem sameOwners_setCurationTeam {t t' : CurationTeam} (hlive : c.liveTeam slug team = some t)
    (hcommunity : t'.community = t.community) (hid : t'.teamId = t.teamId)
    (howner : t'.owner = t.owner) : SameOwners c (c.setCurationTeam t') := by
  intro slug' id' u hu
  rcases liveTeam_setCurationTeam hu with ⟨rfl, rfl, rfl⟩ | ⟨-, hu⟩
  · obtain ⟨rfl, rfl⟩ := hkeyed slug team t (liveTeam_eq_some.mp hlive).1
    rw [hcommunity, hid]
    exact ⟨t, hlive, howner, id⟩
  · exact ⟨u, hu, rfl, id⟩

theorem sameOwners_of_recounted (h : Recounted c c') : c'.Keyed ∧ SameOwners c c' := by
  rcases h with rfl | ⟨_, _, t, _, hlive, rfl⟩
  · exact ⟨hkeyed, .refl _⟩
  · exact ⟨keyed_setCurationTeam hkeyed _, sameOwners_setCurationTeam hkeyed hlive rfl rfl rfl⟩

theorem sameOwners_setCurationPreference {mode : ℤ}
    (h : setCurationPreference c owner slug mode team paid = .ok c') : SameOwners c c' := by
  obtain ⟨old, -, rfl | ⟨m, c₁, c₂, -, h₁, h₂, rfl⟩⟩ := setCurationPreference_cases h
  · exact .refl _
  · obtain ⟨hkeyed₁, hsame₁⟩ := sameOwners_of_recounted hkeyed (recounted_removePaid h₁)
    obtain ⟨-, hsame₂⟩ := sameOwners_of_recounted hkeyed₁ (recounted_addPaid h₂)
    exact (hsame₁.trans hsame₂).trans (.of_eq rfl rfl)

theorem keyed_joinCommunity {cap : ℕ}
    (h : joinCommunity rules p c owner slug cap = .ok c') : c'.Keyed := by
  rw [Keyed, (frame_joinCommunity h).1]
  exact hkeyed

theorem sameOwners_joinCommunityWithLens {cap : ℕ} {mode : ℤ}
    (h : joinCommunityWithLens rules p c owner slug cap mode team paid = .ok c') :
    SameOwners c c' := by
  rcases joinCommunityWithLens_cases h with rfl | ⟨lens, c₁, hjoin, hset⟩
  · exact .refl _
  · exact (sameOwners_joinCommunity hjoin).trans
      (sameOwners_setCurationPreference (keyed_joinCommunity hkeyed hjoin) hset)

theorem sameOwners_rerouteBannedUserPreference
    (h : rerouteBannedUserPreference profiles c slug team owner = .ok c') : SameOwners c c' := by
  rcases rerouteBannedUserPreference_cases h with ⟨rfl, -⟩ | ⟨core, mode, next, -, -, hset⟩
  · exact .refl _
  · exact sameOwners_setCurationPreference hkeyed hset

theorem sameOwners_deleteCurationTeam (hheight : height ≠ 0)
    (h : deleteCurationTeam rules p height c slug team = .ok c') : SameOwners c c' := by
  obtain ⟨t, c₁, c₂, hlive, h₁, h₂, rfl⟩ := deleteCurationTeam_cases h
  obtain ⟨rfl, rfl⟩ := hkeyed slug team t (liveTeam_eq_some.mp hlive).1
  obtain ⟨hc₁, -, hothers⟩ := dischargeAll_spec h₁
  have hteams : c₂.teams = c.teams := by rw [(uninviteAll_spec h₂).1, hc₁]
  have hmembers : c₂.members = c₁.members := by rw [(uninviteAll_spec h₂).1]
  intro slug' id u hu
  rcases liveTeam_setCurationTeam hu with ⟨rfl, -, -⟩ | ⟨hne, hu⟩
  · exact absurd (of_decide_eq_true (liveTeam_eq_some.mp hu).2) hheight
  · rw [liveTeam, getCurationTeam, hteams] at hu
    refine ⟨u, hu, rfl, fun hm => ?_⟩
    obtain ⟨m, hm⟩ := has_iff.mp hm
    refine has_iff.mpr ⟨m, ?_⟩
    rw [← hm, ← hothers (rosterKey slug' id u.owner) ?_]
    · exact congrArg (fun m => OrderedMap.get m _) hmembers
    · intro a hk
      obtain ⟨rfl, rfl, -⟩ := rosterKey_inj.mp hk
      exact hne rfl

theorem sameOwners_updateCurationTeamProfile {name : Name} {description : Text}
    (h : updateCurationTeamProfile rules p profiles c owner slug team name description = .ok c') :
    SameOwners c c' := by
  obtain ⟨t, text, hlive, ⟨-, rfl⟩ | ⟨-, -, rfl⟩⟩ := updateCurationTeamProfile_cases h
  · exact sameOwners_setCurationTeam hkeyed hlive rfl rfl rfl
  · exact sameOwners_setCurationTeam (c := { c with teamName := _ }) hkeyed hlive rfl rfl rfl

theorem sameOwners_acceptCuratorInvite
    (h : acceptCuratorInvite rules p profiles c owner slug team = .ok c') : SameOwners c c' := by
  obtain ⟨t, cap, c₁, hlive, -, -, -, hjoin, -, hclear⟩ := acceptCuratorInvite_cases h
  have hlive₁ : c₁.liveTeam slug team = some t := by
    rw [liveTeam, getCurationTeam, (frame_joinCommunity hjoin).1]
    exact hlive
  have hordered : SameOwners c₁
      (c₁.setCurationTeam { t with nextMemberOrder := t.nextMemberOrder + 1 }) :=
    sameOwners_setCurationTeam (keyed_joinCommunity hkeyed hjoin) hlive₁ rfl rfl rfl
  exact (((sameOwners_joinCommunity hjoin).trans hordered).trans
    (sameOwners_enlisted _ slug team owner t.nextMemberOrder)).trans (sameOwners_clearInvite hclear)

end SameOwners

/-! ## 2. Succession -/

section Succession

variable {rules : TextRules} {p : Params} {height : ℤ} {profiles : Profiles}
  {eligible : Addr → Bool} {c c' : CurationState} {owner : Addr} {slug : Slug} {team : ℕ}

/-- Every team that is still live has a curator as its owner: the one it had, unless it is the
team that the account leaves and the account owned it, or one who may curate. -/
def Succeeded (profiles : Profiles) (c c' : CurationState) (owner : Addr) (left : Slug × ℕ) :
    Prop :=
  ∀ slug id t', c'.liveTeam slug id = some t' → ∃ t, c.liveTeam slug id = some t ∧
    (c.members.has (rosterKey slug id t.owner) = true →
      c'.members.has (rosterKey slug id t'.owner) = true) ∧
    (t'.owner = t.owner ∧ ((slug, id) = left → t.owner ≠ owner) ∨
      profiles.eligible t'.owner = true)

theorem SameOwners.succeeded (h : SameOwners c c')
    (hother : ∀ t t', c.liveTeam slug team = some t → c'.liveTeam slug team = some t' →
      t.owner ≠ owner) : Succeeded profiles c c' owner (slug, team) := by
  intro slug' id t' ht'
  obtain ⟨t, ht, howner, hmember⟩ := h slug' id t' ht'
  refine ⟨t, ht, fun hm => howner ▸ hmember hm, .inl ⟨howner, fun hk => ?_⟩⟩
  obtain ⟨rfl, rfl⟩ := Prod.mk.inj hk
  exact hother t t' ht ht'

theorem succeeded_removeCurationMembership (hb : Bookkept rules c) (hheight : height ≠ 0)
    (h : removeCurationMembership rules p height profiles c owner slug team = .ok c') :
    Succeeded profiles c c' owner (slug, team) := by
  rcases removeCurationMembership_cases h with
    ⟨hnone, rfl⟩ | ⟨t, hlive, ⟨hne, h⟩ | ⟨-, -, h⟩ | ⟨-, next, c₁, hnext, h₁, rfl⟩⟩
  · refine SameOwners.succeeded (.refl _) fun t _ ht => ?_
    rw [hnone] at ht
    cases ht
  · have hother : ∀ u, c.liveTeam slug team = some u → u.owner ≠ owner := fun u hu =>
      Option.some.inj (hlive.symm.trans hu) ▸ hne
    exact (sameOwners_removeCuratorFromTeam hother h).succeeded fun u _ hu _ => hother u hu
  · refine (sameOwners_deleteCurationTeam hb.teams.keyed hheight h).succeeded fun _ t' _ ht' => ?_
    rw [liveTeam_deleteCurationTeam hb.teams.keyed hheight h] at ht'
    cases ht'
  · obtain ⟨m, hm, rfl⟩ := removeCuratorFromTeam_cases h₁
    obtain ⟨rfl, rfl⟩ := hb.teams.keyed _ _ t (liveTeam_eq_some.mp hlive).1
    obtain ⟨⟨a, ha⟩, hother, helig⟩ := successor_spec hnext
    obtain rfl := hb.roster.address _ _ a next ha
    intro slug' id t' ht'
    rcases liveTeam_setCurationTeam ht' with ⟨rfl, rfl, rfl⟩ | ⟨hne, hu⟩
    · refine ⟨t, hlive, fun _ => has_discharged.mpr ⟨fun hk => ?_, ?_⟩, .inr helig⟩
      · exact hother (rosterKey_inj.mp hk).2.2
      · exact has_iff.mpr ⟨next, ha⟩
    · refine ⟨t', hu, fun hm' => has_discharged.mpr ⟨fun hk => ?_, hm'⟩,
        .inl ⟨rfl, fun hk => absurd hk hne⟩⟩
      obtain ⟨rfl, rfl, -⟩ := rosterKey_inj.mp hk
      exact hne rfl

theorem Rightful.of_leaveCommunity (h : Rightful profiles.eligible c) (hb : Bookkept rules c)
    (hheight : height ≠ 0)
    (hleave : leaveCommunity rules p height profiles c owner slug paid = .ok c') :
    Rightful profiles.eligible c' := by
  obtain ⟨pref, c₁, c₂, -, h₁, h₂, rfl⟩ := leaveCommunity_cases hleave
  have hr₁ : Rightful profiles.eligible c₁ := by
    rcases leaveTeam_cases h₁ with ⟨rfl, -⟩ | ⟨team, -, hremove⟩
    · exact h
    · intro slug' id t' ht'
      obtain ⟨t, ht, hmember, hcases⟩ :=
        succeeded_removeCurationMembership hb hheight hremove _ _ _ ht'
      obtain ⟨hm, he⟩ := h slug' id t ht
      refine ⟨hmember hm, ?_⟩
      rcases hcases with ⟨howner, -⟩ | helig
      · rw [howner]
        exact he
      · exact helig
  have hb₁ := (hb.self.of_leaveTeam hheight h₁).toBookkept
  have hsame := (sameOwners_of_recounted hb₁.teams.keyed (recounted_removePaid h₂)).2
  exact (hr₁.of_sameOwners hsame).of_sameOwners (.of_eq rfl rfl)

/-- Every live team is owned by one of its curators, who may curate or is the account that is
to leave the team. -/
def RightfulBut (eligible : Addr → Bool) (owner : Addr) (rest : List (Slug × ℕ))
    (c : CurationState) : Prop :=
  ∀ slug id t, c.liveTeam slug id = some t →
    c.members.has (rosterKey slug id t.owner) = true ∧
      (eligible t.owner = true ∨ t.owner = owner ∧ (slug, id) ∈ rest)

/-- The account leaves its teams one after the other. -/
theorem Rightful.of_removeMemberships {rest : List (Slug × ℕ)} (hb : Bookkept rules c)
    (hheight : height ≠ 0) (h : RightfulBut profiles.eligible owner rest c)
    (hloop : rest.foldlM
      (fun c m => removeCurationMembership rules p height profiles c owner m.1 m.2) c = .ok c') :
    Rightful profiles.eligible c' := by
  induction rest generalizing c with
  | nil =>
    obtain rfl : c = c' := Except.ok.inj hloop
    intro slug id t ht
    obtain ⟨hm, helig | ⟨-, hmem⟩⟩ := h slug id t ht
    · exact ⟨hm, helig⟩
    · exact absurd hmem List.not_mem_nil
  | cons m rest ih =>
    rw [List.foldlM_cons] at hloop
    obtain ⟨c₁, hremove, hloop⟩ := bind_eq_ok.mp hloop
    refine ih (hb.self.of_removeCurationMembership hheight hremove).toBookkept ?_ hloop
    intro slug id t' ht'
    obtain ⟨t, ht, hmember, hcases⟩ :=
      succeeded_removeCurationMembership hb hheight hremove _ _ _ ht'
    obtain ⟨hm, hold⟩ := h slug id t ht
    refine ⟨hmember hm, ?_⟩
    rcases hcases with ⟨howner, hgoes⟩ | helig
    · rw [howner]
      refine hold.imp_right fun ⟨howns, hmem⟩ => ⟨howns, ?_⟩
      rcases List.mem_cons.mp hmem with hk | hmem
      · exact absurd howns (hgoes hk)
      · exact hmem
    · exact .inl helig

theorem sameOwners_shiftContributions (hb : Bookkept rules c) {after : Bool} {slugs : List Slug}
    (h : slugs.foldlM (shiftContribution owner after) c = .ok c') : SameOwners c c' := by
  have hloop : Bookkept rules c' ∧ SameOwners c c' := by
    refine foldlM_ok_induction (P := fun c₁ => Bookkept rules c₁ ∧ SameOwners c c₁) ?_ h
      ⟨hb, .refl c⟩
    intro slug _ c₁ c₂ hstep ⟨hb₁, hsame⟩
    refine ⟨(hb₁.self.of_shiftContribution hstep).toBookkept, hsame.trans ?_⟩
    obtain ⟨pref, -, ⟨-, hadd⟩ | ⟨-, hremove⟩⟩ := shiftContribution_cases hstep
    · exact (sameOwners_of_recounted hb₁.teams.keyed (recounted_addSubscriber hadd)).2
    · exact (sameOwners_of_recounted hb₁.teams.keyed (recounted_removeSubscriber hremove)).2
  exact hloop.2

/-- An account that gains its eligibility takes nothing from a team, and one that loses it
leaves its teams to others. -/
theorem Rightful.of_transitionCurationEligibility (h : Rightful eligible c) (hb : Bookkept rules c)
    (hheight : height ≠ 0) (hothers : ∀ a, a ≠ owner → profiles.eligible a = eligible a)
    (hmove : transitionCurationEligibility rules p height profiles c owner (eligible owner)
      (profiles.eligible owner) = .ok c') : Rightful profiles.eligible c' := by
  have hgrown : (eligible owner = true → profiles.eligible owner = true) →
      Rightful profiles.eligible c := by
    intro howner slug id t ht
    obtain ⟨hm, he⟩ := h slug id t ht
    refine ⟨hm, ?_⟩
    by_cases ht : t.owner = owner
    · rw [ht] at he ⊢
      exact howner he
    · rw [hothers _ ht]
      exact he
  rcases transitionCurationEligibility_cases hmove with ⟨hsame, rfl⟩ | ⟨-, c₁, hshift, hrest⟩
  · exact hgrown fun he => hsame ▸ he
  have hsame₁ := sameOwners_shiftContributions hb hshift
  rcases hrest with ⟨hafter, rfl⟩ | ⟨-, c₂, hclear, hremove⟩
  · exact (hgrown fun _ => hafter).of_sameOwners hsame₁
  · have hb₁ : Bookkept rules c₁ := foldlM_ok_induction
      (fun _ _ _ _ h hb => (Bookkept.self hb).of_shiftContribution h |>.toBookkept) hshift hb
    have hb₂ := (hb₁.self.of_clearPendingInvitationsForTarget hclear).toBookkept
    have hr₂ := (h.of_sameOwners hsame₁).of_sameOwners
      (sameOwners_clearPendingInvitationsForTarget hclear)
    refine Rightful.of_removeMemberships hb₂ hheight (fun slug id t ht => ?_) hremove
    obtain ⟨hm, he⟩ := hr₂ slug id t ht
    refine ⟨hm, ?_⟩
    by_cases howns : t.owner = owner
    · -- the index has every team that the account is a curator of
      rw [howns] at hm
      refine .inr ⟨howns, mem_entries_iff.mpr ?_⟩
      rw [get_slice]
      exact (hb₂.roster.index slug id owner).mp hm
    · rw [hothers _ howns]
      exact .inl he

/-- A new team is owned by its only curator. -/
theorem Rightful.founded (h : Rightful eligible c) {t : CurationTeam} (key : Name)
    (hcommunity : t.community = slug) (hid : t.teamId = team) (howner : t.owner = owner)
    (helig : eligible owner = true) (order : ℕ) :
    Rightful eligible ((c.founded t key).enlisted slug team owner order) := by
  have hmember : ∀ k, c.members.has k = true ∨ k = rosterKey slug team owner →
      ((c.founded t key).enlisted slug team owner order).members.has k = true := by
    intro k hk
    rw [enlisted, has_set, Bool.or_eq_true, decide_eq_true_iff]
    exact hk.symm
  intro slug' id u hu
  obtain ⟨hget, hlive⟩ := liveTeam_eq_some.mp hu
  have hget : (c.founded t key).teams.get (toLex (slug', id)) = some u := hget
  rcases founded_get hget with ⟨hk, rfl⟩ | hget
  · obtain ⟨rfl, rfl⟩ := Prod.mk.inj (toLex.injective hk)
    rw [howner]
    exact ⟨hmember _ (.inr (by rw [hcommunity, hid])), helig⟩
  · obtain ⟨hm, he⟩ := h slug' id u (liveTeam_eq_some.mpr ⟨hget, hlive⟩)
    exact ⟨hmember _ (.inl hm), he⟩

theorem Rightful.of_createCurationTeam (h : Rightful profiles.eligible c) (hkeyed : c.Keyed)
    {name : Name} {description : Text}
    (hcreate : createCurationTeam rules p height profiles c owner slug name description = .ok c') :
    Rightful profiles.eligible c' := by
  obtain ⟨core, text, cap, c₁, hcore, hcan, -, -, -, hjoin, hset⟩ :=
    createCurationTeam_cases hcreate
  have helig : profiles.eligible owner = true := Profiles.eligible_iff.mpr ⟨core, hcore, hcan⟩
  have hfounded : Rightful profiles.eligible
      ((c.founded (.fresh slug (c.nextTeamId slug) owner name text height)
        (rules.teamNameKey name)).enlisted slug (c.nextTeamId slug) owner 1) :=
    h.founded _ rfl rfl rfl helig 1
  have hkeyed₀ : ((c.founded (.fresh slug (c.nextTeamId slug) owner name text height)
      (rules.teamNameKey name)).enlisted slug (c.nextTeamId slug) owner 1).Keyed :=
    keyed_founded hkeyed _ (rules.teamNameKey name)
  exact (hfounded.of_sameOwners (sameOwners_joinCommunity hjoin)).of_sameOwners
    (sameOwners_setCurationPreference (keyed_joinCommunity hkeyed₀ hjoin) hset)

theorem Rightful.of_setCurationTeamOwner (h : Rightful profiles.eligible c) (hkeyed : c.Keyed)
    {newOwner : Addr} (hset : setCurationTeamOwner profiles c slug team newOwner = .ok c') :
    Rightful profiles.eligible c' := by
  obtain ⟨t, hlive, helig, hmember, rfl⟩ := setCurationTeamOwner_cases hset
  obtain ⟨rfl, rfl⟩ := hkeyed slug team t (liveTeam_eq_some.mp hlive).1
  intro slug' id u hu
  rcases liveTeam_setCurationTeam hu with ⟨rfl, rfl, rfl⟩ | ⟨-, hu⟩
  · exact ⟨hmember, helig⟩
  · exact h slug' id u hu

end Succession

/-! ## 3. Runs -/

/-- The condition on the calls that look for no successor. -/
def OwnersKept (c : CurationState) : KeeperCall → Prop
  | .curate (.dismiss slug team target) => ∀ t, c.liveTeam slug team = some t → t.owner ≠ target
  | .deleteUser target _ => ∀ slug id t, c.liveTeam slug id = some t → t.owner ≠ target
  | _ => True

/-- Governance takes no owner from the roster of a live team, and no owner of one is deleted. -/
def OwnersStay (k : KeeperCall) (s : ChainState) : Prop := OwnersKept s.curation k

section Calls

variable {env : ChainEnv} {ctx : BlockCtx} {s s' : ChainState} {c : CurationState}

theorem CurationCall.rightful (hheight : ctx.height ≠ 0) {call : CurationCall}
    (hb : Bookkept env.toTextRules s.curation) (h : Rightful s.profiles.eligible s.curation)
    (hready : call.Ready s) (hallow : OwnersStay (.curate call) s)
    (hexec : call.exec env ctx s = .ok c) : Rightful s.profiles.eligible c := by
  have hkeyed : s.curation.Keyed := hb.teams.keyed
  cases call with
  | join owner slug cap => exact h.of_sameOwners (sameOwners_joinCommunity hexec)
  | joinWithLens owner core slug cap mode team =>
    exact h.of_sameOwners (sameOwners_joinCommunityWithLens hkeyed hexec)
  | prefer owner core slug mode team | govPrefer owner core slug mode team =>
    exact h.of_sameOwners (sameOwners_setCurationPreference hkeyed hexec)
  | leave owner core slug => exact h.of_leaveCommunity hb hheight hexec
  | createTeam owner slug name description => exact h.of_createCurationTeam hkeyed hexec
  | invite actor slug team target =>
    obtain ⟨_, _, _, _, _, rfl⟩ := inviteCurator_cases hexec
    exact h.of_sameOwners (.of_eq rfl rfl)
  | uninvite slug team target =>
    obtain ⟨_, rfl⟩ := clearPendingInvite_cases hexec
    exact h.of_sameOwners (.of_eq rfl rfl)
  | accept actor slug team => exact h.of_sameOwners (sameOwners_acceptCuratorInvite hkeyed hexec)
  | remove slug team target =>
    obtain ⟨slug₀, team₀, t, ht, hne, hwhere⟩ := hready
    refine h.of_sameOwners (sameOwners_removeCuratorFromTeam (fun u hu => ?_) hexec)
    obtain ⟨rfl, rfl⟩ := hkeyed slug₀ team₀ t ht
    obtain ⟨rfl, rfl⟩ | ⟨rfl, rfl⟩ := hwhere <;>
      exact Option.some.inj (ht.symm.trans (liveTeam_eq_some.mp hu).1) ▸ hne
  | dismiss slug team target =>
    exact h.of_sameOwners (sameOwners_removeCuratorFromTeam hallow hexec)
  | setOwner slug team newOwner => exact h.of_setCurationTeamOwner hkeyed hexec
  | deleteTeam slug team =>
    exact h.of_sameOwners (sameOwners_deleteCurationTeam hkeyed hheight hexec)
  | rename actor slug team name description =>
    exact h.of_sameOwners (sameOwners_updateCurationTeamProfile hkeyed hexec)
  | decorate t tag subscriberOnly =>
    obtain rfl := Except.ok.inj hexec
    obtain ⟨slug, team, hlive⟩ := hready
    exact h.of_sameOwners (sameOwners_setCurationTeam hkeyed hlive rfl rfl rfl)
  | moderate c' =>
    obtain rfl := Except.ok.inj hexec
    refine h.of_sameOwners (.of_eq ?_ ?_) <;> rw [hready.1]
  | ban slug team target actor =>
    have hbanned : Rightful s.profiles.eligible
        (setCurationActionHiddenUser s.curation slug team target actor true) :=
      h.of_sameOwners (.of_eq rfl rfl)
    exact hbanned.of_sameOwners (sameOwners_rerouteBannedUserPreference hkeyed hexec)

theorem KeeperCall.rightful (hheight : ctx.height ≠ 0) {k : KeeperCall}
    (hb : Bookkept env.toTextRules s.curation) (h : Rightful s.profiles.eligible s.curation)
    (hready : k.Ready ctx s) (hallow : k.Special → OwnersStay k s)
    (hexec : k.exec env ctx s = .ok s') : Rightful s'.profiles.eligible s'.curation := by
  cases KeeperCall.curation_cases hready hexec with
  | same hsame heligible => exact heligible ▸ hsame ▸ h
  | call call hcall hprofiles =>
    rw [hprofiles]
    refine CurationCall.rightful hheight hb h hready ?_ hcall
    by_cases hspecial : (KeeperCall.curate call).Special
    · exact hallow hspecial
    · cases call with
      | dismiss => exact absurd trivial hspecial
      | _ => trivial
  | moved owner before after hbefore hmove hprofiles =>
    rw [hprofiles]
    rw [← Profiles.eligible_of_get hbefore,
      ← Profiles.eligible_of_get (get_set_self s.profiles owner after)] at hmove
    refine h.of_transitionCurationEligibility hb hheight (fun a ha => ?_) hmove
    rw [Profiles.eligible_set]
    exact if_neg ha
  | deleted target core hsame hprofiles =>
    rw [hsame, hprofiles]
    intro slug id t ht
    obtain ⟨hm, he⟩ := h slug id t ht
    refine ⟨hm, ?_⟩
    have hne : t.owner ≠ target := hallow trivial slug id t ht
    rw [Profiles.eligible, get_erase_of_ne hne]
    exact he

end Calls

/-- Books in order, and every live team with a rightful owner. -/
structure OwnerBooks (rules : TextRules) (s : ChainState) : Prop where
  books : Bookkept rules s.curation
  rightful : Rightful s.profiles.eligible s.curation

theorem ownerBooks_sound (env : ChainEnv) {ctx : BlockCtx} (hctx : ctx.Valid) :
    Sound env ctx (OwnerBooks env.toTextRules) (fun _ => False) OwnersStay where
  serious _ h := h.elim
  founderJoin _ _ _ h := h
  founderPin _ _ _ _ h := h
  levelTransition _ h := h
  stable k s s' _ _ hcuration _ h := by
    rw [OwnersStay, hcuration]
    exact h
  leftOther _ _ _ _ _ _ _ _ _ _ := trivial
  joinedFirst _ _ _ _ _ _ _ _ _ _ _ := trivial
  call k s hs hready hallow := .of_avoids
    (fun s' h => ⟨(KeeperCall.continues hctx.height.ne' hs.books.self hready h).toBookkept,
      KeeperCall.rightful hctx.height.ne' hs.books hs.rightful hready hallow h⟩) fun _ _ h => h

/-- A new chain has no teams. -/
theorem ownerBooks_of_initGenesis {env : GenesisEnv} {bank : Bank} {locked : OrderedMap Addr ℕ}
    {g : Genesis} {s : ChainState} (hraw : g.rawState = none)
    (h : initGenesis env bank locked g = .ok s) : OwnerBooks env.toTextRules s := by
  obtain ⟨hbooks, hunfounded⟩ := unfounded_of_initGenesis hraw h
  refine ⟨hbooks.curation, fun slug id t ht => ?_⟩
  rw [hunfounded.liveTeam_eq_none] at ht
  cases ht

/-- The migration keeps the teams with their owners and rosters as they are. So every live team has
a rightful owner after it if it had one before who may curate under the migrated profiles. -/
theorem ownerBooks_of_migrateV139 {rules : TextRules} {ctx : BlockCtx} {s s' : ChainState}
    (hs : PreUpgrade rules s)
    (hrightful : Rightful
      (Profiles.eligible (s.profiles.mapVal fun core => core.migrated ctx.time)) s.curation)
    (h : migrateV139 ctx s = .ok s') : OwnerBooks rules s' := by
  refine ⟨(curationBooks_of_migrateV139 hs h).curation, fun slug id t ht => ?_⟩
  obtain ⟨c₁, hfollowed, hteams, -, hprofiles, -, hfiled⟩ := migrateV139_curation hs.upgraded h
  obtain ⟨hc', hget⟩ := migrateCuratorDefinedCommunities_eq_ok
    (hfiled hs.curation.teamsFiled) hteams
  obtain ⟨ht, hlive⟩ := liveTeam_eq_some.mp ht
  rw [hget, migrateFollowedTopics_eq_ok hfollowed] at ht
  obtain ⟨old, hold, rfl⟩ := Option.map_eq_some_iff.mp ht
  rw [CurationTeam.live_joinedBy] at hlive
  have hrightful := hrightful slug id old (liveTeam_eq_some.mpr ⟨hold, hlive⟩)
  rw [hprofiles, hc', CurationTeam.owner_joinedBy, migrateFollowedTopics_eq_ok hfollowed]
  exact hrightful

-- The migration does not look for a successor either: a team of an account that does not pay
-- stays live.
example : (migrateV139 ⟨1000, 1, 0⟩
      { oldStore with profiles := oldStore.profiles.set 8 .blank }).toOption.map (fun s =>
        (s.curation.liveTeam 3 1).map fun t => (t.owner, s.profiles.eligible t.owner)) =
    some (some (8, false)) := by decide +kernel

/-- Where governance takes no owner from a roster and no owner is deleted, every live team has
an owner who is one of its curators and may curate. -/
theorem team_owners_rightful {env : ChainEnv} {s₀ s : ChainState} {t₀ t : ℤ}
    (hstart : OwnerBooks env.toTextRules s₀)
    (hrun : ChainRun env (fun _ s input => input.Allowed OwnersStay env s) s₀ t₀ s t)
    {slug : Slug} {id : ℕ} {team : CurationTeam} (hlive : s.curation.liveTeam slug id = some team) :
    0 < (s.curation.roster slug id).size ∧
      s.curation.members.has (rosterKey slug id team.owner) = true ∧
      ∃ core, s.profiles.get team.owner = some core ∧ canCurate core = true := by
  have hbooks : OwnerBooks env.toTextRules s :=
    hrun.keeps (fun _ hctx => ownerBooks_sound env hctx) (fun _ _ _ h => h) hstart
  obtain ⟨hmember, helig⟩ := hbooks.rightful slug id team hlive
  refine ⟨?_, hmember, Profiles.eligible_iff.mp helig⟩
  obtain ⟨m, hm⟩ := has_iff.mp hmember
  exact List.length_pos_of_mem (mem_roster_iff.mpr hm)

/-- Account 1 founds a team and invites account 2, who accepts and becomes the owner when account 1
is no longer an admin. -/
theorem team_owners_rightful_founded : ∃ s₀ s team,
    runAdmins [(⟨10, 1, 0⟩, .gov (.createCurationTeam 1 3 5 0)),
      (⟨10, 1, 0⟩, .relay (.user 1 0) (.inviteCurator 3 1 2)),
      (⟨20, 2, 0⟩, .relay (.user 2 0) (.acceptCuratorInvite 3 1)),
      (⟨20, 2, 0⟩, .gov (.setLevel 1 levelFree))] = some (s₀, s) ∧
    s.curation.liveTeam 3 1 = some team ∧ team.owner = 2 ∧
    0 < (s.curation.roster 3 1).size ∧
    s.curation.members.has (rosterKey 3 1 team.owner) = true ∧
    ∃ core, s.profiles.get team.owner = some core ∧ canCurate core = true := by
  have hok : (runAdmins [(⟨10, 1, 0⟩, .gov (.createCurationTeam 1 3 5 0)),
      (⟨10, 1, 0⟩, .relay (.user 1 0) (.inviteCurator 3 1 2)),
      (⟨20, 2, 0⟩, .relay (.user 2 0) (.acceptCuratorInvite 3 1)),
      (⟨20, 2, 0⟩, .gov (.setLevel 1 levelFree))]).map (fun r =>
        (r.2.curation.liveTeam 3 1).map CurationTeam.owner) = some (some 2) := by
    decide +kernel
  obtain ⟨⟨s₀, s⟩, hadmins, hview⟩ := Option.map_eq_some_iff.mp hok
  obtain ⟨team, hlive, howner⟩ := Option.map_eq_some_iff.mp hview
  obtain ⟨hgenesis, hinputs⟩ := runAdmins_eq_some.mp hadmins
  have hrun : ChainRun plainEnv.toChainEnv
      (fun _ s input => input.Allowed OwnersStay plainEnv.toChainEnv s) s₀ 0 s 20 :=
    ChainRun.start.append _ hinputs (by decide) (by decide)
      (by simp [ChainInput.Allowed, GovMsg.Allowed, RelayMsg.Allowed])
  exact ⟨s₀, s, team, hadmins, hlive, howner,
    team_owners_rightful (ownerBooks_of_initGenesis rfl hgenesis) hrun hlive⟩

/-- Governance takes the founder from the roster, and the team stays live without a curator. A
founder who deletes the account leaves a live team behind whose owner has no profile. -/
theorem team_owner_dismissed :
    (runAdmins [(⟨10, 1, 0⟩, .gov (.createCurationTeam 1 3 5 0)),
      (⟨10, 1, 0⟩, .gov (.setCuratorMembership 3 1 1 false))]).map (fun r =>
        ((r.2.curation.liveTeam 3 1).map CurationTeam.owner, (r.2.curation.roster 3 1).size)) =
      some (some 1, 0) ∧
    (runAdmins [(⟨10, 1, 0⟩, .gov (.createCurationTeam 1 3 5 0)),
      (⟨10, 1, 0⟩, .relay (.user 1 0) (.deleteUser 1))]).map (fun r =>
        ((r.2.curation.liveTeam 3 1).map CurationTeam.owner, r.2.profiles.get 1)) =
      some (some 1, none) := by
  decide +kernel

end MirageNode
