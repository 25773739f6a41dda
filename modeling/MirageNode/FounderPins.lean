import MirageNode.ChainRun
import MirageNode.MigrationSpec
import MirageNode.SubscriberCounts
import MirageNode.SubscriptionCalls

/-!
# Founders as first subscribers

After the migration each block pins the owners of the live teams to their teams, until a marker
says that this is done. The loop leaves at the first owner who may not curate, without the
marker: later owners are not pinned, and the earlier ones are pinned again in the next block,
whatever they have chosen in between (`founder_pins_repeat`).

A run keeps the subscriber counts true. It sets the marker exactly if every owner may curate, and
then it pins them all and no later run does anything (`founders_pinned_once`). The counts are true
when the pins first run, since the migration has just made them (`counted_of_migrateV139`).
-/

namespace MirageNode

open OrderedStore OrderedMap Fallible CurationState

/-! ## 1. One founder -/

section Pin

variable {rules : TextRules} {p : Params} {profiles : Profiles} {c c₁ c' : CurationState}

/-- What pinning one founder does. -/
structure PinnedTo (eligible : Addr → Bool) (c c' : CurationState) (owner : Addr) (slug : Slug)
    (id : ℕ) : Prop where
  counted : Counted eligible c → Counted eligible c'
  own : c'.joins.get (toLex (owner, slug)) = some ⟨.pinned, id⟩
  others : ∀ k, k ≠ toLex (owner, slug) → c'.joins.get k = c.joins.get k

theorem pinnedTo_of_eq_ok {eligible : Addr → Bool} {owner : Addr} {slug : Slug} {cap id : ℕ}
    (howner : eligible owner = true) (hjoin : joinCommunity rules p c owner slug cap = .ok c₁)
    (hpin : setCurationPreference c₁ owner slug 1 id true = .ok c') :
    PinnedTo eligible c c' owner slug id := by
  obtain ⟨m, hcheck, hjoins⟩ := joins_setCurationPreference hpin
  obtain rfl : PreferenceMode.pinned = m := Option.some.inj (checkPreference_eq_ok hcheck).1
  refine ⟨fun hc => ?_, ?_, fun k hk => ?_⟩
  · exact (hc.of_joinCommunity hjoin).of_setCurationPreference (howner.symm ▸ hpin)
  · rw [hjoins, get_set_self]
  · rw [hjoins, get_set_of_ne _ hk]
    rcases joinCommunity_cases hjoin with ⟨-, rfl⟩ | ⟨-, -, rfl⟩
    · rfl
    · exact get_set_of_ne _ hk

/-! ## 2. The loop -/

/-- A pass of the loop whose founder may curate. -/
theorem pinFounders_cons {team : CurationTeam} {rest : List CurationTeam} {done : Bool}
    (howner : profiles.eligible team.owner = true)
    (h : pinFounders rules p profiles c (team :: rest) = .ok (c', done)) :
    ∃ c₁, PinnedTo profiles.eligible c c₁ team.owner team.community team.teamId ∧
      pinFounders rules p profiles c₁ rest = .ok (c', done) := by
  obtain ⟨core, hcore, hcan⟩ := Profiles.eligible_iff.mp howner
  simp only [pinFounders, hcore, hcan, not_true_eq_false, if_false] at h
  cases htier : p.getTierConfig core.level with
  | none => simp [htier] at h
  | some tier =>
    simp only [htier, bind_eq_ok, mapError_eq_ok] at h
    obtain ⟨c₁, hjoin, c₂, hpin, hrest⟩ := h
    exact ⟨c₂, pinnedTo_of_eq_ok howner hjoin hpin, hrest⟩

/-- A pass of the loop whose founder may not curate ends it. -/
theorem pinFounders_stops {team : CurationTeam} {rest : List CurationTeam} {done : Bool}
    (howner : profiles.eligible team.owner = false)
    (h : pinFounders rules p profiles c (team :: rest) = .ok (c', done)) :
    c' = c ∧ done = false := by
  have hnot : ∀ core, profiles.get team.owner = some core → ¬ canCurate core = true := by
    intro core hcore hcan
    rw [Profiles.eligible_iff.mpr ⟨core, hcore, hcan⟩] at howner
    cases howner
  unfold pinFounders at h
  split at h
  · cases h
    exact ⟨rfl, rfl⟩
  next core hcore =>
    rw [if_pos (hnot core hcore)] at h
    cases h
    exact ⟨rfl, rfl⟩

/-- The whole loop: it is done exactly if all founders may curate, it keeps the counts true,
nobody else's preference changes, and when it is done a founder of one team of a community is
pinned to it. -/
theorem pinFounders_eq_ok {teams : List CurationTeam} {done : Bool}
    (h : pinFounders rules p profiles c teams = .ok (c', done)) :
    (done = true ↔ ∀ team ∈ teams, profiles.eligible team.owner = true) ∧
    (Counted profiles.eligible c → Counted profiles.eligible c') ∧
    (∀ owner slug, (∀ team ∈ teams, team.owner = owner → team.community ≠ slug) →
      c'.joins.get (toLex (owner, slug)) = c.joins.get (toLex (owner, slug))) ∧
    (done = true → ∀ team ∈ teams, (∀ other ∈ teams, other.owner = team.owner →
        other.community = team.community → other = team) →
      c'.joins.get (toLex (team.owner, team.community)) = some ⟨.pinned, team.teamId⟩) := by
  induction teams generalizing c with
  | nil =>
    obtain ⟨rfl, rfl⟩ := Prod.mk.inj (Except.ok.inj h)
    exact ⟨⟨fun _ => nofun, fun _ => rfl⟩, id, fun _ _ _ => rfl, fun _ => nofun⟩
  | cons first rest ih =>
    cases howner : profiles.eligible first.owner with
    | false =>
      obtain ⟨rfl, rfl⟩ := pinFounders_stops howner h
      refine ⟨iff_of_false Bool.false_ne_true fun hall => ?_, id, fun _ _ _ => rfl, nofun⟩
      exact Bool.false_ne_true (howner.symm.trans (hall first List.mem_cons_self))
    | true =>
      obtain ⟨c₁, hpin, hrest⟩ := pinFounders_cons howner h
      obtain ⟨hdone, hcounted, hothers, hown⟩ := ih hrest
      refine ⟨?_, fun hc => hcounted (hpin.counted hc), fun owner slug hnone => ?_,
        fun hfinished team hteam honly => ?_⟩
      · rw [hdone, List.forall_mem_cons]
        exact ⟨fun hall => ⟨howner, hall⟩, And.right⟩
      · rw [hothers owner slug fun team hteam => hnone team (List.mem_cons_of_mem first hteam)]
        refine hpin.others _ fun heq => ?_
        obtain ⟨rfl, rfl⟩ := Prod.mk.inj (toLex.injective heq)
        exact hnone first List.mem_cons_self rfl rfl
      · by_cases hlater : team ∈ rest
        · exact hown hfinished team hlater fun other hother =>
            honly other (List.mem_cons_of_mem first hother)
        · -- no later pass touches the preference of this founder
          obtain rfl : team = first := (List.mem_cons.mp hteam).resolve_right hlater
          rw [hothers team.owner team.community fun other hother howner hslug => hlater
            (honly other (List.mem_cons_of_mem team hother) howner hslug ▸ hother)]
          exact hpin.own

end Pin

/-! ## 3. After the migration -/

section Migrated

variable {c c' : CurationState} {eligible : Addr → Bool}

theorem counted_of_migrateCuratorDefinedCommunities (hfiled : TeamsFiled c.teams)
    (h : migrateCuratorDefinedCommunities eligible c = .ok c') : Counted eligible c' := by
  obtain ⟨-, hget⟩ := migrateCuratorDefinedCommunities_eq_ok hfiled h
  refine ⟨fun slug id team hteam => ?_, fun slug id n hn => ?_⟩
  · obtain ⟨old, hold, rfl⟩ := Option.map_eq_some_iff.mp ((hget slug id).symm.trans hteam)
    have hkey : toLex (slug, id) =
        (old.uncounted.joinedBy (c.subscribers eligible slug id)).key := by
      rw [CurationTeam.key_joinedBy]
      exact hfiled _ old hold
    exact (Prod.mk.inj (toLex.injective hkey)).imp Eq.symm Eq.symm
  · obtain ⟨team, hlive, rfl⟩ := Option.map_eq_some_iff.mp hn
    exact subscriberCount_migrateCuratorDefinedCommunities hfiled h hlive

theorem teamId_of_migrateCuratorDefinedCommunities (hfiled : TeamsFiled c.teams)
    (h : migrateCuratorDefinedCommunities eligible c = .ok c') {slug : Slug} {id : ℕ}
    {team : CurationTeam} (hteam : c'.teams.get (toLex (slug, id)) = some team) : id ≠ 0 := by
  obtain ⟨-, hget⟩ := migrateCuratorDefinedCommunities_eq_ok hfiled h
  obtain ⟨old, hold, -⟩ := Option.map_eq_some_iff.mp ((hget slug id).symm.trans hteam)
  simp only [migrateCuratorDefinedCommunities, bind_eq_ok, pure_eq_ok] at h
  obtain ⟨_, hcollect, -⟩ := h
  -- the migration stops at a team without a number
  have hid : old.teamId ≠ 0 := by
    refine foldlM_ok_forall (Q := fun team _ => team.teamId ≠ 0) ?_ ?_ hcollect old
      (List.mem_map.mpr ⟨_, mem_entries_iff.mpr hold, rfl⟩)
    · exact fun _ _ _ hstep => (collectTeam_eq_ok hstep).1
    · exact fun _ _ _ _ _ h => h
  rwa [(Prod.mk.inj (toLex.injective (hfiled _ old hold))).2]

/-- The store that a migration leaves counts every live team truly, and numbers it. -/
theorem counted_of_migrateV139 {ctx : BlockCtx} {s s' : ChainState} (hold : s.upgraded = false)
    (hfiled : TeamsFiled s.curation.teams) (h : migrateV139 ctx s = .ok s') :
    s'.foundersPinned = s.foundersPinned ∧ Counted s'.profiles.eligible s'.curation ∧
      ∀ slug id t, s'.curation.liveTeam slug id = some t → id ≠ 0 := by
  obtain ⟨c₁, -, hteams, -, -, hpinned, hfiled₁⟩ := migrateV139_curation hold h
  exact ⟨hpinned, counted_of_migrateCuratorDefinedCommunities (hfiled₁ hfiled) hteams,
    fun slug id t hlive => teamId_of_migrateCuratorDefinedCommunities (hfiled₁ hfiled) hteams
      (liveTeam_eq_some.mp hlive).1⟩

end Migrated

/-! ## 4. Runs -/

/-- The marker stays. -/
theorem founders_sound (env : ChainEnv) (ctx : BlockCtx) :
    Sound env ctx (fun s => s.foundersPinned = true) (fun _ => False) (fun _ _ => True) :=
  .of_step (fun _ _ _ => id) fun _ _ _ hs hready _ h => (KeeperCall.settings_kept hready h).2.1 hs

/-- A run of the founder pins in a store with true subscriber counts keeps them true. It sets the
marker exactly if all live teams have an owner who may curate. Then the founder of one team of a
community is pinned to it, and in every later state a run of the pins changes nothing. -/
theorem founders_pinned_once {rules : TextRules} {s s' : ChainState}
    (hopen : s.foundersPinned = false) (hcounted : Counted s.profiles.eligible s.curation)
    (hnumbered : ∀ slug id t, s.curation.liveTeam slug id = some t → id ≠ 0)
    (h : ensureCurationTeamFoundersSubscribed rules s = .ok s') :
    Counted s'.profiles.eligible s'.curation ∧
    (s'.foundersPinned = true ↔ ∀ slug id t, s.curation.liveTeam slug id = some t →
      s.profiles.eligible t.owner = true) ∧
    (s'.foundersPinned = true →
      (∀ slug id t, s.curation.liveTeam slug id = some t →
        (∀ id' t', s.curation.liveTeam slug id' = some t' → t'.owner = t.owner → id' = id) →
        s'.curation.getPreference t.owner slug = some ⟨.pinned, id⟩) ∧
      ∀ env cond t₀ s'' t, ChainRun env cond s' t₀ s'' t →
        ∀ rules', ensureCurationTeamFoundersSubscribed rules' s'' = .ok s'') := by
  simp only [ensureCurationTeamFoundersSubscribed, hopen, Bool.false_eq_true, if_false, bind_eq_ok,
    pure_eq_ok] at h
  obtain ⟨⟨c', done⟩, hpins, rfl⟩ := h
  have hmem : ∀ t : CurationTeam, t ∈ (s.curation.teams.entries.map Prod.snd).filter
      (fun team => team.live && decide (team.teamId ≠ 0)) ↔
        s.curation.liveTeam t.community t.teamId = some t := by
    intro t
    simp only [List.mem_filter, List.mem_map, Bool.and_eq_true, decide_eq_true_eq]
    constructor
    · rintro ⟨⟨⟨k, _⟩, he, rfl⟩, hlive, -⟩
      have hget := mem_entries_iff.mp he
      obtain ⟨hslug, hid⟩ := hcounted.keyed (ofLex k).1 (ofLex k).2 _ hget
      refine liveTeam_eq_some.mpr ⟨?_, hlive⟩
      rw [hslug, hid]
      exact hget
    · intro hlive
      obtain ⟨hget, halive⟩ := liveTeam_eq_some.mp hlive
      exact ⟨⟨_, mem_entries_iff.mpr hget, rfl⟩, halive, hnumbered _ _ t hlive⟩
  obtain ⟨hdone, hcounted', -, hown⟩ := pinFounders_eq_ok hpins
  refine ⟨hcounted' hcounted, hdone.trans ⟨fun hall slug id t hlive => ?_, fun hall t ht =>
    hall _ _ t ((hmem t).mp ht)⟩, fun hfinished => ⟨fun slug id t hlive honly => ?_,
    fun env cond t₀ s'' t hrun rules' => ?_⟩⟩
  · obtain ⟨rfl, rfl⟩ := hcounted.keyed slug id t (liveTeam_eq_some.mp hlive).1
    exact hall t ((hmem t).mpr hlive)
  · obtain ⟨rfl, rfl⟩ := hcounted.keyed slug id t (liveTeam_eq_some.mp hlive).1
    refine hown hfinished t ((hmem t).mpr hlive) fun other hother howner hslug => ?_
    have hother := (hmem other).mp hother
    rw [hslug] at hother
    rw [honly other.teamId other hother howner, hlive] at hother
    exact (Option.some.inj hother).symm
  · have hpinned : s''.foundersPinned = true := ChainRun.keeps
      (I := fun s => s.foundersPinned = true) (fun ctx _ => founders_sound env ctx)
      (fun _ _ input _ => input.allowed_of_forall fun _ _ => trivial) hfinished hrun
    rw [ensureCurationTeamFoundersSubscribed, if_pos hpinned]

theorem founders_pinned_once_oldStore : ∃ s s', migrateV139 ⟨1000, 1, 0⟩ oldStore = .ok s ∧
    ensureCurationTeamFoundersSubscribed plainRules s = .ok s' ∧ s'.foundersPinned = true ∧
    Counted s'.profiles.eligible s'.curation := by
  have hok : ((migrateV139 ⟨1000, 1, 0⟩ oldStore).toOption.bind fun s =>
      (ensureCurationTeamFoundersSubscribed plainRules s).toOption.map fun _ =>
        s.curation.teams.entries.all fun e => s.profiles.eligible e.2.owner) = some true := by
    decide +kernel
  obtain ⟨s, hs, hs'⟩ := Option.bind_eq_some_iff.mp hok
  obtain ⟨s', hs', hall⟩ := Option.map_eq_some_iff.mp hs'
  have hs := toOption_eq_some.mp hs
  have hs' := toOption_eq_some.mp hs'
  have hfiled : TeamsFiled oldStore.curation.teams := by
    intro k team hteam
    simp [oldStore, get_set] at hteam
    obtain ⟨rfl, rfl⟩ := hteam
    rfl
  obtain ⟨hopen, hcounted, hnumbered⟩ := counted_of_migrateV139 rfl hfiled hs
  obtain ⟨hcounted', hpinned, -⟩ := founders_pinned_once hopen hcounted hnumbered hs'
  refine ⟨s, s', hs, hs', hpinned.mpr fun slug id t hlive => ?_, hcounted'⟩
  exact List.all_eq_true.mp hall _ (mem_entries_iff.mpr (liveTeam_eq_some.mp hlive).1)

/-! ## 5. A founder who may not curate -/

/-- A store from before v1.39.0: account 7 founded team 1 of community 3, account 8, who does
not pay, founded team 2 of community 3, and account 9 founded team 1 of community 4. -/
def lapsedFounder : ChainState :=
  { ChainState.fresh ⟨.empty, 0, 0⟩ .empty defaultParams with
    profiles := ((OrderedMap.empty.set 7 ⟨none, levelAdminMin, 0, false, false, 0⟩).set 8
      ⟨none, levelFree, 0, false, false, 0⟩).set 9 ⟨none, levelAdminMin, 0, false, false, 0⟩
    curation := { CurationState.empty with
      teams := ((OrderedMap.empty.set (toLex (3, 1)) ⟨3, 1, 7, 1, 0, 1, 1, 0, 0, 0, 0, false⟩).set
        (toLex (3, 2)) ⟨3, 2, 8, 2, 0, 1, 2, 0, 0, 0, 0, false⟩).set
        (toLex (4, 1)) ⟨4, 1, 9, 1, 0, 1, 1, 0, 0, 0, 0, false⟩ } }

/-- Account 9 may curate and is not pinned, the marker is not set, and account 7, who then
chooses the raw feed, is pinned again by the next run. -/
theorem founder_pins_repeat : ∃ s s₁ c s₂, migrateV139 ⟨1000, 1, 0⟩ lapsedFounder = .ok s ∧
    ensureCurationTeamFoundersSubscribed plainRules s = .ok s₁ ∧
    setCurationPreference s₁.curation 7 3 2 0 true = .ok c ∧
    ensureCurationTeamFoundersSubscribed plainRules { s₁ with curation := c } = .ok s₂ ∧
    (s.profiles.eligible 9 = true ∧ s.curation.liveTeam 4 1 ≠ none ∧
      s₁.curation.getPreference 9 4 = none) ∧ s₁.foundersPinned = false ∧
    c.getPreference 7 3 = some ⟨.raw, 0⟩ ∧
    s₂.curation.getPreference 7 3 = some ⟨.pinned, 1⟩ := by
  have hok : ((migrateV139 ⟨1000, 1, 0⟩ lapsedFounder).toOption.bind fun s =>
      (ensureCurationTeamFoundersSubscribed plainRules s).toOption.bind fun s₁ =>
      (setCurationPreference s₁.curation 7 3 2 0 true).toOption.bind fun c =>
      (ensureCurationTeamFoundersSubscribed plainRules
        { s₁ with curation := c }).toOption.map fun s₂ =>
      decide ((s.profiles.eligible 9 = true ∧ s.curation.liveTeam 4 1 ≠ none ∧
        s₁.curation.getPreference 9 4 = none) ∧ s₁.foundersPinned = false ∧
        c.getPreference 7 3 = some ⟨.raw, 0⟩ ∧
        s₂.curation.getPreference 7 3 = some ⟨.pinned, 1⟩)) = some true := by
    decide +kernel
  obtain ⟨s, hs, hok⟩ := Option.bind_eq_some_iff.mp hok
  obtain ⟨s₁, hs₁, hok⟩ := Option.bind_eq_some_iff.mp hok
  obtain ⟨c, hc, hok⟩ := Option.bind_eq_some_iff.mp hok
  obtain ⟨s₂, hs₂, hok⟩ := Option.map_eq_some_iff.mp hok
  exact ⟨s, s₁, c, s₂, toOption_eq_some.mp hs, toOption_eq_some.mp hs₁, toOption_eq_some.mp hc,
    toOption_eq_some.mp hs₂, of_decide_eq_true hok⟩

end MirageNode
