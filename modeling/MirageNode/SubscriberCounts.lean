import MirageNode.CurationBooks

/-!
# Subscriber counts

A team stores the number of its subscribers: the accounts that may curate and whose preference
is pinned to it. The number moves with the preferences. Where a function is told correctly
whether an account counts (`paid`), what it takes from one team and gives to another is exactly
what the preference it writes changes (`Counted.of_setCurationPreference`).
-/

namespace MirageNode

open OrderedStore OrderedMap Fallible CurationState Option

/-! ## 1. Counts as stored -/

/-- The number that a live team stores. -/
def CurationState.countOf (s : CurationState) (slug : Slug) (id : ℕ) : Option ℕ :=
  (s.liveTeam slug id).map CurationTeam.subscriberCount

/-- One if the preference of an account in `slug` is pinned to the team. -/
def CommunityPreference.pins (pref : CommunityPreference) (slug slug' : Slug) (id : ℕ) : ℕ :=
  if pref.mode = .pinned ∧ slug = slug' ∧ pref.pinnedTeamId = id then 1 else 0

/-- Every team stands under its community and number. -/
def CurationState.Keyed (s : CurationState) : Prop :=
  ∀ slug id t, s.teams.get (toLex (slug, id)) = some t → t.community = slug ∧ t.teamId = id

/-- A live team stores the number of its subscribers. -/
structure Counted (eligible : Addr → Bool) (s : CurationState) : Prop where
  keyed : s.Keyed
  count : ∀ slug id n, s.countOf slug id = some n → n = s.subscribers eligible slug id

variable {t : CurationTeam} {mode : ℤ} {pref : CommunityPreference}

section Counts

variable {s s' : CurationState} {slug : Slug} {id : ℕ} {pref : CommunityPreference}

/-- A live team gets another number. -/
theorem countOf_setCurationTeam (hkeyed : s.Keyed)
    (hlive : s.liveTeam slug id = some t) (n : ℕ) (slug' : Slug) (id' : ℕ) :
    (s.setCurationTeam { t with subscriberCount := n }).countOf slug' id' =
      if slug = slug' ∧ id = id' then some n else s.countOf slug' id' := by
  obtain ⟨hget, halive⟩ := liveTeam_eq_some.mp hlive
  obtain ⟨rfl, rfl⟩ := hkeyed slug id t hget
  simp only [countOf, liveTeam, getCurationTeam, setCurationTeam, get_set,
    toLex_inj, Prod.mk.injEq]
  by_cases hsame : slug' = t.community ∧ id' = t.teamId
  · obtain ⟨rfl, rfl⟩ := hsame
    have halive' : ({ t with subscriberCount := n } : CurationTeam).live = true := halive
    simp [halive']
  · have hsame' : ¬ (t.community = slug' ∧ t.teamId = id') := fun h => hsame ⟨h.1.symm, h.2.symm⟩
    rw [if_neg hsame, if_neg hsame']

theorem keyed_setCurationTeam (hkeyed : s.Keyed) (t : CurationTeam) :
    (s.setCurationTeam t).Keyed := by
  intro slug' id' u hu
  rcases setCurationTeam_get.mp hu with ⟨hk, rfl⟩ | ⟨-, hu⟩
  · obtain ⟨rfl, rfl⟩ := Prod.mk.inj (toLex.injective hk)
    exact ⟨rfl, rfl⟩
  · exact hkeyed slug' id' u hu

/-- What a preference pins is what it counts for. -/
theorem pins_of_countedTeam_none (h : s.countedTeam slug pref = none) {slug' : Slug} {id' n : ℕ}
    (hn : s.countOf slug' id' = some n) : pref.pins slug slug' id' = 0 := by
  refine if_neg fun ⟨hmode, hslug, hid⟩ => ?_
  subst hslug hid
  rw [countedTeam, if_pos hmode] at h
  rw [countOf, h] at hn
  cases hn

theorem pins_of_mode (hmode : pref.mode = .pinned) (slug' : Slug) (id' : ℕ) :
    pref.pins slug slug' id' = if slug = slug' ∧ pref.pinnedTeamId = id' then 1 else 0 := by
  simp only [CommunityPreference.pins, hmode, true_and]

/-- The numbers of the team that the preference counts for move, and no others. -/
theorem Shifted.countOf {a b : ℕ} (hkeyed : s.Keyed) (h : Shifted a b slug pref s s') :
    s'.Keyed ∧ ∀ slug' id', (s'.countOf slug' id').map (· + a * pref.pins slug slug' id') =
      (s.countOf slug' id').map (· + b * pref.pins slug slug' id') := by
  rcases h with ⟨hnone, rfl⟩ | ⟨t, n, ht, hn, rfl⟩
  · refine ⟨hkeyed, fun slug' id' => ?_⟩
    cases hn : s'.countOf slug' id' with
    | none => rfl
    | some n => simp [pins_of_countedTeam_none hnone hn]
  · obtain ⟨hmode, hlive⟩ := countedTeam_eq_some.mp ht
    refine ⟨keyed_setCurationTeam hkeyed _, fun slug' id' => ?_⟩
    rw [countOf_setCurationTeam hkeyed hlive, pins_of_mode hmode]
    split
    next hsame =>
      obtain ⟨rfl, rfl⟩ := hsame
      simp [CurationState.countOf, hlive, hn]
    next => rfl

theorem countOf_removeSubscriber (hkeyed : s.Keyed)
    (h : removeSubscriberContribution s slug pref = .ok s') : s'.Keyed ∧ ∀ slug' id',
      (s'.countOf slug' id').map (· + pref.pins slug slug' id') = s.countOf slug' id' := by
  simpa using (shifted_removeSubscriber h).countOf hkeyed

theorem countOf_addSubscriber (hkeyed : s.Keyed)
    (h : addSubscriberContribution s slug pref = .ok s') : s'.Keyed ∧ ∀ slug' id',
      s'.countOf slug' id' = (s.countOf slug' id').map (· + pref.pins slug slug' id') := by
  simpa using (shifted_addSubscriber h).countOf hkeyed

end Counts

/-! ## 2. Subscribers -/

section Subscribers

variable {eligible : Addr → Bool} {s s' : CurationState} {owner : Addr} {slug : Slug}

/-- One if the account counts for the team. -/
def weight (eligible : Addr → Bool) (slug : Slug) (id : ℕ) (k : Addr ×ₗ Slug)
    (pref : CommunityPreference) : ℕ :=
  if eligible (ofLex k).1 then pref.pins (ofLex k).2 slug id else 0

theorem subscribers_eq_sum (s : CurationState) (eligible : Addr → Bool) (slug : Slug) (id : ℕ) :
    s.subscribers eligible slug id = s.joins.sum (weight eligible slug id) := by
  rw [CurationState.subscribers, OrderedMap.sum]
  induction s.joins.entries with
  | nil => rfl
  | cons e es ih =>
    rw [List.countP_cons, List.map_cons, List.sum_cons, ih, Nat.add_comm]
    congr 1
    simp only [pinnedTo, weight, CommunityPreference.pins]
    by_cases he : eligible (ofLex e.1).1 = true <;> simp [he, and_assoc]

/-- The subscribers depend on the preferences alone. -/
theorem subscribers_congr (h : s'.joins = s.joins) (slug : Slug) (id : ℕ) :
    s'.subscribers eligible slug id = s.subscribers eligible slug id := by
  rw [CurationState.subscribers, h, CurationState.subscribers]

/-- A new preference counts for the team that it pins. -/
theorem subscribers_preferring (eligible : Addr → Bool) {old : CommunityPreference}
    (hold : s.joins.get (toLex (owner, slug)) = some old) (new : CommunityPreference) (slug' : Slug)
    (id : ℕ) :
    (s.preferring owner slug new).subscribers eligible slug' id +
        (if eligible owner then old.pins slug slug' id else 0) =
      s.subscribers eligible slug' id + if eligible owner then new.pins slug slug' id else 0 := by
  rw [subscribers_eq_sum, subscribers_eq_sum]
  exact sum_set_of_get new (weight eligible slug' id) hold

theorem pins_default (slug slug' : Slug) (id : ℕ) :
    CommunityPreference.default.pins slug slug' id = 0 :=
  if_neg fun h => by cases h.1

/-- A new member follows the default team and counts for none. -/
theorem subscribers_joined (hnew : s.joins.get (toLex (owner, slug)) = none) (slug' : Slug)
    (id : ℕ) : (s.joined owner slug).subscribers eligible slug' id =
      s.subscribers eligible slug' id := by
  rw [subscribers_eq_sum, subscribers_eq_sum]
  refine (sum_set_of_none _ _ hnew).trans ?_
  simp only [weight, pins_default, ite_self, Nat.zero_add]

/-! ## 3. Functions -/

theorem Counted.of_joinCommunity (h : Counted eligible s) {rules : TextRules} {p : Params} {cap : ℕ}
    (hjoin : joinCommunity rules p s owner slug cap = .ok s') : Counted eligible s' := by
  rcases joinCommunity_cases hjoin with ⟨-, rfl⟩ | ⟨hnew, -, rfl⟩
  · exact h
  · refine ⟨h.keyed, fun slug' id n hn => ?_⟩
    rw [subscribers_joined hnew]
    exact h.count slug' id n hn

/-- A preference that is changed with the truth about whether the account counts. -/
theorem Counted.of_setCurationPreference (h : Counted eligible s) {team : ℕ}
    (hset : setCurationPreference s owner slug mode team (eligible owner) = .ok s') :
    Counted eligible s' := by
  obtain ⟨old, hold, rfl | ⟨m, s₁, s₂, -, hremove, hadd, rfl⟩⟩ := setCurationPreference_cases hset
  · exact h
  have hjoins : s₂.joins = s.joins :=
    (recounted_addPaid hadd).joins.trans (recounted_removePaid hremove).joins
  have hold₂ : s₂.joins.get (toLex (owner, slug)) = some old := hjoins ▸ hold
  have hsubs := subscribers_preferring eligible hold₂ ⟨m, team⟩
  simp only [subscribers_congr hjoins] at hsubs
  cases hpaid : eligible owner with
  | false =>
    rw [hpaid] at hremove hadd
    obtain rfl : s = s₁ := Except.ok.inj hremove
    obtain rfl : s = s₂ := Except.ok.inj hadd
    refine ⟨h.keyed, fun slug' id n hn => ?_⟩
    have heq := hsubs slug' id
    simp only [hpaid, Bool.false_eq_true, if_false, Nat.add_zero] at heq
    rw [heq]
    exact h.count slug' id n hn
  | true =>
    rw [hpaid] at hremove hadd
    obtain ⟨hkeyed₁, hcount₁⟩ := countOf_removeSubscriber h.keyed hremove
    obtain ⟨hkeyed₂, hcount₂⟩ := countOf_addSubscriber hkeyed₁ hadd
    refine ⟨hkeyed₂, fun slug' id n hn => ?_⟩
    obtain ⟨n₁, hn₁, rfl⟩ := map_eq_some_iff.mp ((hcount₂ slug' id).symm.trans hn)
    have htrue := h.count slug' id (n₁ + old.pins slug slug' id) (by
      rw [← hcount₁, hn₁, map_some])
    have heq := hsubs slug' id
    simp only [hpaid, if_true] at heq
    omega

end Subscribers

/-! ## 4. Stores with the same counts -/

/-- Two stores with the same preferences, where no live team has come or got another number. -/
structure SameCounts (s s' : CurationState) : Prop where
  joins : s'.joins = s.joins
  keyed : s.Keyed → s'.Keyed
  counts : ∀ slug id n, s'.countOf slug id = some n → s.countOf slug id = some n

section SameCounts

variable {rules : TextRules} {p : Params} {height : ℤ} {profiles : Profiles}
  {s s₁ s' : CurationState} {owner : Addr} {slug : Slug} {team : ℕ}

theorem SameCounts.refl (s : CurationState) : SameCounts s s := ⟨rfl, id, fun _ _ _ => id⟩

theorem SameCounts.trans (h : SameCounts s s₁) (h' : SameCounts s₁ s') : SameCounts s s' :=
  ⟨h'.joins.trans h.joins, fun hs => h'.keyed (h.keyed hs),
    fun slug id n hn => h.counts slug id n (h'.counts slug id n hn)⟩

theorem SameCounts.of_teams (hjoins : s'.joins = s.joins) (hteams : s'.teams = s.teams) :
    SameCounts s s' := by
  refine ⟨hjoins, fun hs slug id t ht => hs slug id t (hteams ▸ ht), fun slug id n hn => ?_⟩
  rwa [countOf, liveTeam, getCurationTeam, hteams] at hn

theorem Counted.of_sameCounts {eligible : Addr → Bool} (h : Counted eligible s)
    (hsame : SameCounts s s') : Counted eligible s' := by
  refine ⟨hsame.keyed h.keyed, fun slug id n hn => ?_⟩
  rw [subscribers_congr hsame.joins]
  exact h.count slug id n (hsame.counts slug id n hn)

theorem sameCounts_removeCuratorFromTeam (h : removeCuratorFromTeam p s slug team owner = .ok s') :
    SameCounts s s' := by
  obtain ⟨-, -, rfl⟩ := removeCuratorFromTeam_cases h
  exact .of_teams rfl rfl

theorem sameCounts_clearInvite (h : clearInvite s slug team owner = .ok s') : SameCounts s s' := by
  rcases clearInvite_cases h with ⟨-, rfl⟩ | ⟨-, rfl⟩
  · exact .refl _
  · exact .of_teams rfl rfl

theorem sameCounts_clearPendingInvitationsForTarget
    (h : clearPendingInvitationsForTarget s owner = .ok s') : SameCounts s s' :=
  foldlM_ok_induction (P := SameCounts s)
    (fun _ _ _ _ hstep hs => hs.trans (sameCounts_clearInvite hstep)) h (.refl s)

variable (hkeyed : s.Keyed)

include hkeyed

/-- A live team is written again with its number, or as a deleted one. -/
theorem sameCounts_setCurationTeam {t' : CurationTeam} (hlive : s.liveTeam slug team = some t)
    (hcommunity : t'.community = t.community) (hid : t'.teamId = t.teamId)
    (hcount : t'.live = true → t'.subscriberCount = t.subscriberCount) :
    SameCounts s (s.setCurationTeam t') := by
  refine ⟨rfl, fun _ => keyed_setCurationTeam hkeyed t', fun slug' id' n hn => ?_⟩
  obtain ⟨u, hu, rfl⟩ := map_eq_some_iff.mp hn
  obtain ⟨hget, halive⟩ := liveTeam_eq_some.mp hu
  rcases setCurationTeam_get.mp hget with ⟨hk, rfl⟩ | ⟨-, hget⟩
  · obtain ⟨rfl, rfl⟩ := hkeyed slug team t (liveTeam_eq_some.mp hlive).1
    obtain ⟨rfl, rfl⟩ := Prod.mk.inj (toLex.injective hk)
    rw [hcommunity, hid, countOf, hlive, map_some, hcount halive]
  · rw [countOf, liveTeam_eq_some.mpr ⟨hget, halive⟩, map_some]

theorem liveTeam_deleteCurationTeam (hheight : height ≠ 0)
    (h : deleteCurationTeam rules p height s slug team = .ok s') :
      s'.liveTeam slug team = none := by
  obtain ⟨t, s₁, s₂, hlive, -, -, rfl⟩ := deleteCurationTeam_cases h
  obtain ⟨rfl, rfl⟩ := hkeyed slug team t (liveTeam_eq_some.mp hlive).1
  refine liveTeam_eq_none.mpr fun u hu => ?_
  rcases setCurationTeam_get.mp hu with ⟨-, rfl⟩ | ⟨hne, -⟩
  · exact decide_eq_false hheight
  · exact absurd rfl hne

theorem sameCounts_deleteCurationTeam (hheight : height ≠ 0)
    (h : deleteCurationTeam rules p height s slug team = .ok s') : SameCounts s s' := by
  obtain ⟨t, s₁, s₂, hlive, h₁, h₂, rfl⟩ := deleteCurationTeam_cases h
  have hteams : s₂.teams = s.teams := by rw [(uninviteAll_spec h₂).1, (dischargeAll_spec h₁).1]
  have hjoins : s₂.joins = s.joins := by rw [(uninviteAll_spec h₂).1, (dischargeAll_spec h₁).1]
  have hsame : SameCounts s
      { s₂ with teamName := s₂.teamName.erase (toLex (slug, rules.teamNameKey t.name)) } :=
    .of_teams hjoins hteams
  have hlive₂ : s₂.liveTeam slug team = some t := by
    rw [liveTeam, getCurationTeam, hteams]
    exact hlive
  refine hsame.trans (sameCounts_setCurationTeam (hsame.keyed hkeyed) hlive₂ rfl rfl
    fun halive => ?_)
  exact absurd (of_decide_eq_true halive) hheight

theorem sameCounts_removeCurationMembership (hheight : height ≠ 0)
    (h : removeCurationMembership rules p height profiles s owner slug team = .ok s') :
    SameCounts s s' := by
  rcases removeCurationMembership_cases h with
    ⟨-, rfl⟩ | ⟨t, hlive, ⟨-, h⟩ | ⟨-, -, h⟩ | ⟨-, next, s₁, -, h₁, rfl⟩⟩
  · exact .refl _
  · exact sameCounts_removeCuratorFromTeam h
  · exact sameCounts_deleteCurationTeam hkeyed hheight h
  · obtain ⟨-, -, rfl⟩ := removeCuratorFromTeam_cases h₁
    have hsame : SameCounts s (s.discharged slug team owner) := .of_teams rfl rfl
    refine hsame.trans ?_
    exact sameCounts_setCurationTeam (hsame.keyed hkeyed) hlive rfl rfl fun _ => rfl

theorem sameCounts_leaveTeam (hheight : height ≠ 0)
    (h : leaveTeam rules p height profiles s owner slug = .ok s') : SameCounts s s' := by
  rcases leaveTeam_cases h with ⟨rfl, -⟩ | ⟨team, -, h⟩
  · exact .refl _
  · exact sameCounts_removeCurationMembership hkeyed hheight h

theorem sameCounts_removeMemberships (hheight : height ≠ 0) {teams : List (Slug × ℕ)}
    (h : teams.foldlM (fun s m => removeCurationMembership rules p height profiles s owner m.1 m.2)
      s = .ok s') : SameCounts s s' :=
  foldlM_ok_induction (P := SameCounts s)
    (fun _ _ _ _ hstep hs =>
      hs.trans (sameCounts_removeCurationMembership (hs.keyed hkeyed) hheight hstep)) h (.refl s)

theorem sameCounts_updateCurationTeamProfile {name : Name} {description : Text}
    (h : updateCurationTeamProfile rules p profiles s owner slug team name description = .ok s') :
    SameCounts s s' := by
  obtain ⟨t, text, hlive, ⟨-, rfl⟩ | ⟨-, -, rfl⟩⟩ := updateCurationTeamProfile_cases h
  · exact sameCounts_setCurationTeam hkeyed hlive rfl rfl fun _ => rfl
  · have hsame : SameCounts s { s with
        teamName := (s.teamName.erase (toLex (slug, rules.teamNameKey t.name))).set
          (toLex (slug, rules.teamNameKey name)) team } := .of_teams rfl rfl
    refine hsame.trans ?_
    exact sameCounts_setCurationTeam (hsame.keyed hkeyed) hlive rfl rfl fun _ => rfl

end SameCounts

/-! ## 5. Leaving, founding and accepting -/

section Counted

variable {rules : TextRules} {p : Params} {height : ℤ} {profiles : Profiles}
  {eligible : Addr → Bool} {s s' : CurationState} {owner : Addr} {slug : Slug} {team : ℕ}

/-- Where an account leaves, the team that its preference pins has one subscriber less. -/
theorem subscribers_left (hpref : s.joins.get (toLex (owner, slug)) = some pref) (slug' : Slug)
    (id : ℕ) :
    (s.left owner slug).subscribers eligible slug' id +
        (if eligible owner then pref.pins slug slug' id else 0) =
      s.subscribers eligible slug' id := by
  rw [subscribers_eq_sum, subscribers_eq_sum, sum_of_get _ hpref, Nat.add_comm]
  rfl

/-- An account leaves, and is uncounted if it counted for a team that is still there. -/
theorem Counted.of_leaveCommunity (h : Counted eligible s) (hheight : height ≠ 0) {paid : Bool}
    (hpaid : ∀ pref s₁, s.joins.get (toLex (owner, slug)) = some pref →
      leaveTeam rules p height profiles s owner slug = .ok s₁ →
      paid = eligible owner ∨ s₁.countedTeam slug pref = none)
    (hleave : leaveCommunity rules p height profiles s owner slug paid = .ok s') :
    Counted eligible s' := by
  obtain ⟨pref, s₁, s₂, hpref, h₁, h₂, rfl⟩ := leaveCommunity_cases hleave
  have hs₁ : Counted eligible s₁ := h.of_sameCounts (sameCounts_leaveTeam h.keyed hheight h₁)
  have hjoins : s₂.joins = s₁.joins := (recounted_removePaid h₂).joins
  have hpref₂ : s₂.joins.get (toLex (owner, slug)) = some pref := by
    rw [hjoins, joins_leaveTeam h₁]
    exact hpref
  have hsubs : ∀ slug' id, (s₂.left owner slug).subscribers eligible slug' id +
      (if eligible owner then pref.pins slug slug' id else 0) =
        s₂.subscribers eligible slug' id := subscribers_left hpref₂
  simp only [subscribers_congr hjoins] at hsubs
  have hcounts : s₂.Keyed ∧ ∀ slug' id, (s₂.countOf slug' id).map
      (· + if eligible owner then pref.pins slug slug' id else 0) = s₁.countOf slug' id := by
    rcases hpaid pref s₁ hpref h₁ with rfl | hnone
    · cases helig : eligible owner with
      | true =>
        rw [helig] at h₂
        simpa using countOf_removeSubscriber hs₁.keyed h₂
      | false =>
        rw [helig] at h₂
        obtain rfl : s₁ = s₂ := Except.ok.inj h₂
        exact ⟨hs₁.keyed, fun slug' id => by simp⟩
    · have hsame : s₂ = s₁ := by
        cases paid with
        | true =>
          rcases shifted_removeSubscriber h₂ with ⟨-, hsame⟩ | ⟨t, _, ht, -⟩
          · exact hsame
          · rw [hnone] at ht
            cases ht
        | false => exact (Except.ok.inj h₂).symm
      subst hsame
      refine ⟨hs₁.keyed, fun slug' id => ?_⟩
      cases hn : s₂.countOf slug' id with
      | none => rfl
      | some n => rw [pins_of_countedTeam_none hnone hn, ite_self, map_some, Nat.add_zero]
  refine ⟨hcounts.1, fun slug' id n hn => ?_⟩
  have hn : s₂.countOf slug' id = some n := hn
  have htrue := hs₁.count slug' id _ (by rw [← hcounts.2, hn, map_some])
  have := hsubs slug' id
  omega

/-- What two preferences pin, where they count for the same team. -/
theorem pins_of_countedTeam_eq (hkeyed : s.Keyed) {pref' : CommunityPreference}
    (h : s.countedTeam slug pref = s.countedTeam slug pref') {slug' : Slug} {id n : ℕ}
    (hn : s.countOf slug' id = some n) : pref.pins slug slug' id = pref'.pins slug slug' id := by
  cases ht : s.countedTeam slug pref with
  | none =>
    rw [pins_of_countedTeam_none ht hn, pins_of_countedTeam_none (h.symm.trans ht) hn]
  | some t =>
    obtain ⟨hmode, hlive⟩ := countedTeam_eq_some.mp ht
    obtain ⟨hmode', hlive'⟩ := countedTeam_eq_some.mp (h.symm.trans ht)
    have hid := (hkeyed _ _ _ (liveTeam_eq_some.mp hlive).1).2
    have hid' := (hkeyed _ _ _ (liveTeam_eq_some.mp hlive').1).2
    rw [pins_of_mode hmode, pins_of_mode hmode', ← hid, ← hid']

/-- A preference that is changed without a recount counts for the team that it counted for. -/
theorem Counted.of_uncounted (h : Counted eligible s)
    (hsame : ∀ old m, s.joins.get (toLex (owner, slug)) = some old →
      PreferenceMode.ofInt mode = some m →
      s.countedTeam slug old = s.countedTeam slug ⟨m, team⟩)
    (hset : setCurationPreference s owner slug mode team false = .ok s') : Counted eligible s' := by
  obtain ⟨old, hold, rfl | ⟨m, s₁, s₂, hm, hremove, hadd, rfl⟩⟩ := setCurationPreference_cases hset
  · exact h
  obtain rfl : s = s₁ := Except.ok.inj hremove
  obtain rfl : s = s₂ := Except.ok.inj hadd
  refine ⟨h.keyed, fun slug' id n hn => ?_⟩
  have hn : s.countOf slug' id = some n := hn
  have hpins := pins_of_countedTeam_eq h.keyed (hsame old m hold (checkPreference_eq_ok hm).1) hn
  have hsubs := subscribers_preferring eligible hold ⟨m, team⟩ slug' id
  rw [hpins] at hsubs
  rw [h.count slug' id n hn]
  exact (Nat.add_right_cancel hsubs).symm

/-- Nobody is pinned to a team that is not there. -/
def PinsKnown (s : CurationState) : Prop :=
  ∀ a slug pref, s.joins.get (toLex (a, slug)) = some pref → pref.mode = .pinned →
    ∃ t, s.teams.get (toLex (slug, pref.pinnedTeamId)) = some t

theorem subscribers_eq_zero (hknown : PinsKnown s)
    (hnew : s.teams.get (toLex (slug, team)) = none) : s.subscribers eligible slug team = 0 := by
  rw [subscribers_eq_sum]
  refine sum_eq_zero fun k pref hpref => ?_
  refine (ite_eq_right_iff.mpr fun _ => if_neg ?_)
  rintro ⟨hmode, rfl, rfl⟩
  obtain ⟨t, ht⟩ := hknown (ofLex k).1 (ofLex k).2 pref hpref hmode
  rw [hnew] at ht
  cases ht

/-- What stands under a key once a new team is recorded. -/
theorem founded_get {u : CurationTeam} {key : Name} {k : Slug ×ₗ ℕ}
    (h : (s.founded t key).teams.get k = some u) :
    k = toLex (t.community, t.teamId) ∧ u = t ∨ s.teams.get k = some u :=
  (get_set_cases h).imp_right And.right

theorem keyed_founded (hkeyed : s.Keyed) (t : CurationTeam) (key : Name) :
    (s.founded t key).Keyed := by
  intro slug id u hu
  rcases founded_get hu with ⟨hk, rfl⟩ | hu
  · obtain ⟨rfl, rfl⟩ := Prod.mk.inj (toLex.injective hk)
    exact ⟨rfl, rfl⟩
  · exact hkeyed slug id u hu

/-- A new team starts without subscribers. -/
theorem Counted.founded (h : Counted eligible s) (hknown : PinsKnown s)
    (key : Name) (hnew : s.teams.get (toLex (t.community, t.teamId)) = none)
    (hzero : t.subscriberCount = 0) : Counted eligible (s.founded t key) := by
  refine ⟨keyed_founded h.keyed t key, fun slug id n hn => ?_⟩
  have hsubs : (s.founded t key).subscribers eligible slug id = s.subscribers eligible slug id :=
    subscribers_congr rfl slug id
  rw [hsubs]
  obtain ⟨u, hu, rfl⟩ := map_eq_some_iff.mp hn
  obtain ⟨hu, halive⟩ := liveTeam_eq_some.mp hu
  rcases founded_get hu with ⟨hk, rfl⟩ | hu
  · obtain ⟨rfl, rfl⟩ := Prod.mk.inj (toLex.injective hk)
    rw [subscribers_eq_zero hknown hnew, hzero]
  · refine h.count slug id _ ?_
    rw [countOf, liveTeam_eq_some.mpr ⟨hu, halive⟩, map_some]

theorem Counted.enlisted (h : Counted eligible s) (slug : Slug) (team : ℕ) (a : Addr) (order : ℕ) :
    Counted eligible (s.enlisted slug team a order) :=
  h.of_sameCounts (.of_teams rfl rfl)

theorem Counted.of_createCurationTeam (h : Counted profiles.eligible s) (hknown : PinsKnown s)
    (hnew : s.teams.get (toLex (slug, s.nextTeamId slug)) = none) {name : Name} {description : Text}
    (hcreate : createCurationTeam rules p height profiles s owner slug name description = .ok s') :
    Counted profiles.eligible s' := by
  obtain ⟨core, text, cap, s₁, hcore, hcan, -, -, -, hjoin, hset⟩ :=
    createCurationTeam_cases hcreate
  have hfounded := h.founded (t := .fresh slug (s.nextTeamId slug) owner name text height) hknown
    (rules.teamNameKey name) hnew rfl
  have helig : profiles.eligible owner = true := Profiles.eligible_iff.mpr ⟨core, hcore, hcan⟩
  rw [← helig] at hset
  exact ((hfounded.enlisted slug (s.nextTeamId slug) owner 1).of_joinCommunity hjoin)
    |>.of_setCurationPreference hset

theorem Counted.of_acceptCuratorInvite (h : Counted eligible s)
    (haccept : acceptCuratorInvite rules p profiles s owner slug team = .ok s') :
    Counted eligible s' := by
  obtain ⟨t, cap, s₁, hlive, -, -, -, hjoin, -, hclear⟩ := acceptCuratorInvite_cases haccept
  have hlive₁ : s₁.liveTeam slug team = some t := by
    rw [liveTeam, getCurationTeam, (frame_joinCommunity hjoin).1]
    exact hlive
  have hs₁ := h.of_joinCommunity hjoin
  have hordered : SameCounts s₁
      (s₁.setCurationTeam { t with nextMemberOrder := t.nextMemberOrder + 1 }) :=
    sameCounts_setCurationTeam hs₁.keyed hlive₁ rfl rfl fun _ => rfl
  exact ((hs₁.of_sameCounts hordered).enlisted slug team owner t.nextMemberOrder).of_sameCounts
    (sameCounts_clearInvite hclear)

theorem Counted.of_joinCommunityWithLens (h : Counted eligible s) {cap : ℕ}
    (hjoin : joinCommunityWithLens rules p s owner slug cap mode team (eligible owner) = .ok s') :
    Counted eligible s' := by
  rcases joinCommunityWithLens_cases hjoin with rfl | ⟨lens, s₁, hjoin, hset⟩
  · exact h
  · exact (h.of_joinCommunity hjoin).of_setCurationPreference hset

theorem Counted.of_rerouteBannedUserPreference (h : Counted profiles.eligible s)
    (hreroute : rerouteBannedUserPreference profiles s slug team owner = .ok s') :
    Counted profiles.eligible s' := by
  rcases rerouteBannedUserPreference_cases hreroute with ⟨rfl, -⟩ |
    ⟨core, mode, next, hcore, -, hset⟩
  · exact h
  · have helig : profiles.eligible owner = canCurate core := by rw [Profiles.eligible, hcore]
    rw [← helig] at hset
    exact h.of_setCurationPreference hset

end Counted

/-! ## 6. Eligibility -/

/-- The live teams of a community store the numbers of their subscribers. -/
def CountedIn (eligible : Addr → Bool) (s : CurationState) (slug : Slug) : Prop :=
  ∀ id n, s.countOf slug id = some n → n = s.subscribers eligible slug id

section Eligibility

variable {rules : TextRules} {p : Params} {height : ℤ} {profiles : Profiles}
  {eligible eligible' : Addr → Bool} {s s' : CurationState} {owner : Addr} {slug : Slug}

theorem CountedIn.congr (h : CountedIn eligible s slug) (hjoins : s'.joins = s.joins)
    (hcounts : ∀ id, s'.countOf slug id = s.countOf slug id) : CountedIn eligible s' slug := by
  intro id n hn
  rw [subscribers_congr hjoins]
  exact h id n ((hcounts id).symm.trans hn)

variable (hothers : ∀ a, a ≠ owner → eligible' a = eligible a)

include hothers

theorem weight_congr {k : Addr ×ₗ Slug} (hk : k ≠ toLex (owner, slug)) (id : ℕ)
    (pref : CommunityPreference) :
    weight eligible' slug id k pref = weight eligible slug id k pref := by
  unfold weight
  by_cases ha : (ofLex k).1 = owner
  · have hslug : (ofLex k).2 ≠ slug := fun hslug => hk (congrArg toLex (Prod.ext ha hslug))
    have hzero : pref.pins (ofLex k).2 slug id = 0 := if_neg fun h => hslug h.2.1
    rw [hzero, ite_self, ite_self]
  · rw [hothers _ ha]

/-- An account that becomes eligible, or is no longer, counts for the team that it pins. -/
theorem subscribers_of_get (hpref : s.joins.get (toLex (owner, slug)) = some pref) (id : ℕ) :
    s.subscribers eligible' slug id + (if eligible owner then pref.pins slug slug id else 0) =
      s.subscribers eligible slug id + if eligible' owner then pref.pins slug slug id else 0 := by
  have hrest : (s.joins.erase (toLex (owner, slug))).sum (weight eligible' slug id) =
      (s.joins.erase (toLex (owner, slug))).sum (weight eligible slug id) := by
    refine sum_congr fun k pref' hk => weight_congr hothers ?_ id pref'
    rintro rfl
    rw [get_erase_self] at hk
    cases hk
  have hshare : ∀ e : Addr → Bool, weight e slug id (toLex (owner, slug)) pref =
      if e owner then pref.pins slug slug id else 0 := fun _ => rfl
  rw [subscribers_eq_sum, subscribers_eq_sum, sum_of_get _ hpref,
    sum_of_get _ hpref, hrest, hshare, hshare]
  omega

theorem subscribers_of_none (hnone : s.joins.get (toLex (owner, slug)) = none) (id : ℕ) :
    s.subscribers eligible' slug id = s.subscribers eligible slug id := by
  rw [subscribers_eq_sum, subscribers_eq_sum]
  refine sum_congr fun k pref hk => weight_congr hothers ?_ id pref
  rintro rfl
  rw [hnone] at hk
  cases hk

/-- One pass of the loop over the joined communities. -/
theorem CountedIn.of_shiftContribution (h : CountedIn eligible s slug) (hkeyed : s.Keyed)
    {after : Bool} (hbefore : eligible owner = !after) (hafter : eligible' owner = after)
    (hshift : shiftContribution owner after s slug = .ok s') :
    s'.Keyed ∧ CountedIn eligible' s' slug ∧
      ∀ slug', slug' ≠ slug → ∀ id, s'.countOf slug' id = s.countOf slug' id := by
  have hjoins := joins_shiftContribution hshift
  obtain ⟨pref, hpref, hmoved⟩ := shiftContribution_cases hshift
  have hsubs := subscribers_of_get hothers hpref
  have hzero : ∀ slug', slug' ≠ slug → ∀ id, pref.pins slug slug' id = 0 :=
    fun slug' hne id => if_neg fun h => hne h.2.1.symm
  rcases hmoved with ⟨rfl, hadd⟩ | ⟨rfl, hremove⟩
  · obtain ⟨hkeyed', hcount⟩ := countOf_addSubscriber hkeyed hadd
    refine ⟨hkeyed', fun id n hn => ?_, fun slug' hne id => ?_⟩
    · obtain ⟨n₁, hn₁, rfl⟩ := map_eq_some_iff.mp ((hcount slug id).symm.trans hn)
      have htrue := h id n₁ hn₁
      have hsum := hsubs id
      simp only [hbefore, hafter, Bool.not_true, Bool.false_eq_true, if_false, if_true] at hsum
      rw [subscribers_congr hjoins]
      omega
    · rw [hcount, hzero slug' hne]
      exact map_id'
  · obtain ⟨hkeyed', hcount⟩ := countOf_removeSubscriber hkeyed hremove
    refine ⟨hkeyed', fun id n hn => ?_, fun slug' hne id => ?_⟩
    · have htrue := h id _ (by rw [← hcount, hn, map_some])
      have hsum := hsubs id
      simp only [hbefore, hafter, Bool.not_false, Bool.false_eq_true, if_false, if_true] at hsum
      rw [subscribers_congr hjoins]
      omega
    · rw [← hcount, hzero slug' hne]
      exact map_id'.symm

/-- The loop over the joined communities recounts each of them once. -/
theorem shiftContributions_counted {slugs : List Slug} (hnodup : slugs.Nodup) (hkeyed : s.Keyed)
    {after : Bool} (h : ∀ slug ∈ slugs, CountedIn eligible s slug)
    (hbefore : eligible owner = !after) (hafter : eligible' owner = after)
    (hloop : slugs.foldlM (shiftContribution owner after) s = .ok s') :
    s'.Keyed ∧ s'.joins = s.joins ∧ (∀ slug ∈ slugs, CountedIn eligible' s' slug) ∧
      ∀ slug, slug ∉ slugs → ∀ id, s'.countOf slug id = s.countOf slug id := by
  induction slugs generalizing s with
  | nil =>
    obtain rfl : s = s' := Except.ok.inj hloop
    exact ⟨hkeyed, rfl, nofun, fun _ _ _ => rfl⟩
  | cons slug slugs ih =>
    obtain ⟨hnot, hnodup⟩ := List.nodup_cons.mp hnodup
    rw [List.foldlM_cons] at hloop
    obtain ⟨s₁, hshift, hloop⟩ := bind_eq_ok.mp hloop
    have hjoins₁ := joins_shiftContribution hshift
    obtain ⟨hkeyed₁, hslug, hrest⟩ := (h slug List.mem_cons_self).of_shiftContribution hothers
      hkeyed hbefore hafter hshift
    have h₁ : ∀ slug' ∈ slugs, CountedIn eligible s₁ slug' := fun slug' hslug' =>
      (h slug' (List.mem_cons_of_mem slug hslug')).congr hjoins₁
        (hrest slug' fun heq => hnot (heq ▸ hslug'))
    obtain ⟨hkeyed', hjoins', hdone, hkept⟩ := ih hnodup hkeyed₁ h₁ hloop
    refine ⟨hkeyed', hjoins'.trans hjoins₁, fun slug' hslug' => ?_, fun slug' hslug' id => ?_⟩
    · rcases List.mem_cons.mp hslug' with rfl | hslug'
      · exact hslug.congr hjoins' (hkept _ hnot)
      · exact hdone slug' hslug'
    · obtain ⟨hne, hnot'⟩ := not_or.mp (mt List.mem_cons.mpr hslug')
      exact (hkept slug' hnot' id).trans (hrest slug' hne id)

/-- Every community is recounted when an account becomes eligible or no longer is. -/
theorem Counted.of_transitionCurationEligibility (h : Counted eligible s) (hheight : height ≠ 0)
    (hmove : transitionCurationEligibility rules p height profiles s owner (eligible owner)
      (eligible' owner) = .ok s') : Counted eligible' s' := by
  rcases transitionCurationEligibility_cases hmove with ⟨hsame, rfl⟩ | ⟨hne, s₁, hloop, hrest⟩
  · have heligible : eligible' = eligible := by
      funext a
      by_cases ha : a = owner
      · rw [ha, hsame]
      · exact hothers a ha
    exact heligible ▸ h
  have hbefore : eligible owner = !eligible' owner := by
    revert hne
    cases eligible owner <;> cases eligible' owner <;> decide
  have hnodup : (s.joinedCommunities owner).Nodup := nodup_keys _
  obtain ⟨hkeyed₁, hjoins₁, hjoined, hother⟩ := shiftContributions_counted hothers hnodup h.keyed
    (fun slug _ => h.count slug) hbefore rfl hloop
  have hs₁ : Counted eligible' s₁ := by
    refine ⟨hkeyed₁, fun slug => ?_⟩
    by_cases hslug : slug ∈ s.joinedCommunities owner
    · exact hjoined slug hslug
    · have hnone : s.joins.get (toLex (owner, slug)) = none := by
        rw [← has_eq_false_iff, Bool.eq_false_iff]
        exact mt mem_joinedCommunities.mpr hslug
      intro id n hn
      rw [subscribers_congr hjoins₁, subscribers_of_none hothers hnone]
      exact h.count slug id n ((hother slug hslug id).symm.trans hn)
  rcases hrest with ⟨-, rfl⟩ | ⟨-, s₂, hclear, hremove⟩
  · exact hs₁
  · have hs₂ := hs₁.of_sameCounts (sameCounts_clearPendingInvitationsForTarget hclear)
    exact hs₂.of_sameCounts (sameCounts_removeMemberships hs₂.keyed hheight hremove)

end Eligibility

/-! ## 7. No subscriber is taken from an empty count -/

section Underflow

variable {rules : TextRules} {p : Params} {height : ℤ} {profiles : Profiles}
  {eligible : Addr → Bool} {s s' : CurationState} {owner : Addr} {slug : Slug} {team : ℕ}

/-- A team that an eligible account is pinned to counts at least that account. -/
theorem CountedIn.pos (h : CountedIn eligible s slug) (helig : eligible owner = true)
    (hpref : s.joins.get (toLex (owner, slug)) = some pref)
    (ht : s.countedTeam slug pref = some t) : 0 < t.subscriberCount := by
  obtain ⟨hmode, hlive⟩ := countedTeam_eq_some.mp ht
  have hone : weight eligible slug pref.pinnedTeamId (toLex (owner, slug)) pref = 1 := by
    simp [weight, helig, CommunityPreference.pins, hmode]
  have hcount := h pref.pinnedTeamId t.subscriberCount (by rw [countOf, hlive, map_some])
  rw [subscribers_eq_sum, sum_of_get _ hpref, hone] at hcount
  omega

theorem CountedIn.removes (h : CountedIn eligible s slug)
    (helig : eligible owner = true) (hpref : s.joins.get (toLex (owner, slug)) = some pref) :
    Avoids ChainError.Underflow (removeSubscriberContribution s slug pref) := by
  unfold removeSubscriberContribution uncountSubscriber
  split
  · exact .ok s
  · next t ht =>
    rw [(countedTeam_eq_some.mp ht).2]
    refine (Avoids.failIf fun hlow => ?_).bind fun _ _ => .ok _
    exact absurd (h.pos helig hpref ht) (by omega)

theorem CountedIn.removesPaid (h : CountedIn eligible s slug) {paid : Bool}
    (hpaid : paid = true → eligible owner = true)
    (hpref : s.joins.get (toLex (owner, slug)) = some pref) :
    Avoids ChainError.Underflow (removePaidContribution s slug pref paid) := by
  cases paid with
  | true => exact h.removes (hpaid rfl) hpref
  | false => exact .ok s

theorem Counted.prefers (h : Counted eligible s) {paid : Bool}
    (hpaid : paid = true → eligible owner = true) :
    Avoids ChainError.Underflow (setCurationPreference s owner slug mode team paid) :=
  setCurationPreference_avoids (fun _ => ChainError.Underflow.serious)
    fun _ hold => CountedIn.removesPaid (h.count slug) hpaid hold

/-- An account that is no longer eligible is uncounted in every community that it has joined. -/
theorem shiftContributions_uncount {slugs : List Slug} (hnodup : slugs.Nodup) (hkeyed : s.Keyed)
    {after : Bool} (h : ∀ slug ∈ slugs, CountedIn eligible s slug)
    (hbefore : eligible owner = !after)
    (hjoined : ∀ slug ∈ slugs, s.joins.has (toLex (owner, slug)) = true) :
    Avoids ChainError.Underflow (slugs.foldlM (shiftContribution owner after) s) := by
  induction slugs generalizing s with
  | nil => exact .ok s
  | cons slug slugs ih =>
    obtain ⟨hnot, hnodup⟩ := List.nodup_cons.mp hnodup
    have hslug := h slug List.mem_cons_self
    rw [List.foldlM_cons]
    refine Avoids.bind ?_ fun s₁ h₁ => ?_
    · obtain ⟨pref, hpref⟩ := has_iff.mp (hjoined slug List.mem_cons_self)
      unfold shiftContribution getPreference
      rw [hpref]
      cases after with
      | true => exact addSubscriberContribution_avoids.mono fun _ => ChainError.Underflow.serious
      | false => exact hslug.removes hbefore hpref
    · have hjoins₁ := joins_shiftContribution h₁
      have hothers : ∀ a, a ≠ owner → (if a = owner then after else eligible a) = eligible a :=
        fun a ha => if_neg ha
      obtain ⟨hkeyed₁, -, hrest⟩ := hslug.of_shiftContribution hothers hkeyed hbefore
        (if_pos rfl) h₁
      refine ih hnodup hkeyed₁ (fun slug' hslug' => ?_) fun slug' hslug' => ?_
      · exact (h slug' (List.mem_cons_of_mem slug hslug')).congr hjoins₁
          (hrest slug' fun heq => hnot (heq ▸ hslug'))
      · rw [hjoins₁]
        exact hjoined slug' (List.mem_cons_of_mem slug hslug')

end Underflow

end MirageNode
