import MirageNode.Curation

/-!
# What the curation functions do

Each function of `Curation` either leaves the store alone or makes one of a few
writes: a join comes or goes, a preference changes, a team record is replaced, a curator
is enlisted or discharged, an invitation comes or goes. This module names the writes and
says of every function which of them a success makes and under which checks.
-/

namespace MirageNode

open OrderedStore OrderedMap Fallible

variable {slug : Slug} {team : ℕ} {a owner target actor : Addr} {s s' : CurationState}
  {t : CurationTeam} {pref : CommunityPreference} {rules : TextRules} {p : Params} {paid : Bool}
  {mode height : ℤ} {profiles : Profiles}

theorem rosterKey_inj {slug' : Slug} {team' : ℕ} {a' : Addr} :
    rosterKey slug team a = rosterKey slug' team' a' ↔ slug = slug' ∧ team = team' ∧ a = a' := by
  simp [rosterKey]

namespace CurationState

/-! ## 1. Writes -/

/-- An account joins a community. -/
def joined (s : CurationState) (owner : Addr) (slug : Slug) : CurationState :=
  { s with
    joins := s.joins.set (toLex (owner, slug)) .default
    joinRev := s.joinRev.set (toLex (slug, owner)) ()
    joinCount := s.joinCount.setCount owner (s.joinCount.count owner + 1) }

/-- An account leaves a community. -/
def left (s : CurationState) (owner : Addr) (slug : Slug) : CurationState :=
  { s with
    joins := s.joins.erase (toLex (owner, slug))
    joinRev := s.joinRev.erase (toLex (slug, owner))
    joinCount := s.joinCount.setCount owner (s.joinCount.count owner - 1) }

/-- An account changes its preference. -/
def preferring (s : CurationState) (owner : Addr) (slug : Slug) (pref : CommunityPreference) :
    CurationState :=
  { s with joins := s.joins.set (toLex (owner, slug)) pref }

/-- A curator comes to a team. -/
def enlisted (s : CurationState) (slug : Slug) (team : ℕ) (addr : Addr) (order : ℕ) :
    CurationState :=
  { s with
    members := s.members.set (rosterKey slug team addr) ⟨addr, order⟩
    teamUser := s.teamUser.set (toLex (addr, slug)) team
    teamUserCount := s.teamUserCount.setCount addr (s.teamUserCount.count addr + 1) }

/-- A curator goes. -/
def discharged (s : CurationState) (slug : Slug) (team : ℕ) (addr : Addr) : CurationState :=
  { s with
    members := s.members.erase (rosterKey slug team addr)
    teamUser := s.teamUser.erase (toLex (addr, slug))
    teamUserCount := s.teamUserCount.setCount addr (s.teamUserCount.count addr - 1) }

/-- A team invites an account. -/
def invited (s : CurationState) (slug : Slug) (team : ℕ) (addr inviter : Addr) : CurationState :=
  { s with
    invites := s.invites.set (rosterKey slug team addr) inviter
    inviteRev := s.inviteRev.set (toLex (addr, toLex (slug, team))) ()
    inviteCount := s.inviteCount.setCount addr (s.inviteCount.count addr + 1) }

/-- An invitation ends. -/
def uninvited (s : CurationState) (slug : Slug) (team : ℕ) (addr : Addr) : CurationState :=
  { s with
    invites := s.invites.erase (rosterKey slug team addr)
    inviteRev := s.inviteRev.erase (toLex (addr, toLex (slug, team)))
    inviteCount := s.inviteCount.setCount addr (s.inviteCount.count addr - 1) }

/-- A new team is recorded, without its roster. -/
def founded (s : CurationState) (team : CurationTeam) (key : Name) : CurationState :=
  { s with
    teamNext := s.teamNext.set team.community (team.teamId + 1)
    teams := s.teams.set (toLex (team.community, team.teamId)) team
    teamName := s.teamName.set (toLex (team.community, key)) team.teamId }

theorem enlisted_get {order : ℕ} {k : RosterKey}
    {m : CurationTeamMember} : (s.enlisted slug team a order).members.get k = some m ↔
      k = rosterKey slug team a ∧ m = ⟨a, order⟩ ∨
        k ≠ rosterKey slug team a ∧ s.members.get k = some m := by
  show (s.members.set _ _).get k = some m ↔ _
  rw [get_set]
  split <;> simp_all [eq_comm]

theorem discharged_get {k : RosterKey}
    {m : CurationTeamMember} : (s.discharged slug team a).members.get k = some m ↔
      k ≠ rosterKey slug team a ∧ s.members.get k = some m := by
  show (s.members.erase _).get k = some m ↔ _
  rw [get_erase]
  split <;> simp_all

theorem setCurationTeam_get {u : CurationTeam} {k : Slug ×ₗ ℕ} :
    (s.setCurationTeam t).teams.get k = some u ↔
      k = toLex (t.community, t.teamId) ∧ u = t ∨
        k ≠ toLex (t.community, t.teamId) ∧ s.teams.get k = some u := by
  show (s.teams.set _ _).get k = some u ↔ _
  rw [get_set]
  split <;> simp_all [eq_comm]

/-! ## 2. Live teams -/

theorem liveTeam_eq_some :
    s.liveTeam slug team = some t ↔ s.teams.get (toLex (slug, team)) = some t ∧ t.live = true := by
  simp [liveTeam, getCurationTeam, Option.filter_eq_some_iff]

theorem liveTeam_eq_none :
    s.liveTeam slug team = none ↔
      ∀ t, s.teams.get (toLex (slug, team)) = some t → t.live = false := by
  simp [liveTeam, getCurationTeam, Option.filter_eq_none_iff]

theorem countedTeam_eq_some :
    s.countedTeam slug pref = some t ↔
      pref.mode = .pinned ∧ s.liveTeam slug pref.pinnedTeamId = some t := by
  unfold countedTeam
  split <;> simp_all

end CurationState

open CurationState

/-! ## 3. Joins and preferences -/

theorem joinCommunity_cases {cap : ℕ} (h : joinCommunity rules p s owner slug cap = .ok s') :
    s.joins.has (toLex (owner, slug)) = true ∧ s' = s ∨
      s.joins.get (toLex (owner, slug)) = none ∧ s.joinCount.count owner + 1 < 2 ^ 32 ∧
        s' = s.joined owner slug := by
  simp only [joinCommunity, bind_eq_ok, liftText_eq_ok] at h
  obtain ⟨-, -, h⟩ := h
  split at h
  · next hjoined =>
    cases h
    exact .inl ⟨hjoined, rfl⟩
  · next hnew =>
    simp only [bind_eq_ok, failIf_eq_ok, exists_const, pure_eq_ok] at h
    obtain ⟨-, -, m, hm, rfl⟩ := h
    obtain ⟨hfits, rfl⟩ := addCheckedU32_inc hm
    exact .inr ⟨has_eq_false_iff.mp (by simpa using hnew), hfits, rfl⟩

theorem frame_joinCommunity {cap : ℕ} (h : joinCommunity rules p s owner slug cap = .ok s') :
    s'.teams = s.teams ∧ s'.members = s.members ∧ s'.teamUser = s.teamUser := by
  rcases joinCommunity_cases h with ⟨-, rfl⟩ | ⟨-, -, rfl⟩ <;> exact ⟨rfl, rfl, rfl⟩

theorem uncountSubscriber_cases (h : uncountSubscriber s slug team = .ok s') :
    ∃ t, s.liveTeam slug team = some t ∧ 0 < t.subscriberCount ∧
      s' = s.setCurationTeam { t with subscriberCount := t.subscriberCount - 1 } := by
  unfold uncountSubscriber at h
  cases hlive : s.liveTeam slug team with
  | none => simp [hlive] at h
  | some t =>
    simp only [hlive, bind_eq_ok, failIf_eq_ok, exists_const, pure_eq_ok] at h
    exact ⟨t, rfl, by omega, h.2.symm⟩

theorem countSubscriber_cases (h : countSubscriber s slug team = .ok s') :
    ∃ t, s.liveTeam slug team = some t ∧
      s' = s.setCurationTeam { t with subscriberCount := t.subscriberCount + 1 } := by
  unfold countSubscriber at h
  cases hlive : s.liveTeam slug team with
  | none => simp [hlive] at h
  | some t =>
    simp only [hlive, bind_eq_ok, liftCore_eq_ok, checkedAddUint64_eq_ok, pure_eq_ok] at h
    obtain ⟨_, ⟨-, rfl⟩, rfl⟩ := h
    exact ⟨t, rfl, rfl⟩

/-- The team that a preference counts for, if any, loses `a` subscribers and gains `b`. -/
def Shifted (a b : ℕ) (slug : Slug) (pref : CommunityPreference) (s s' : CurationState) : Prop :=
  s.countedTeam slug pref = none ∧ s' = s ∨
    ∃ t n, s.countedTeam slug pref = some t ∧ n + a = t.subscriberCount + b ∧
      s' = s.setCurationTeam { t with subscriberCount := n }

theorem shifted_removeSubscriber (h : removeSubscriberContribution s slug pref = .ok s') :
    Shifted 1 0 slug pref s s' := by
  unfold removeSubscriberContribution at h
  split at h
  next hnone => exact .inl ⟨hnone, (Except.ok.inj h).symm⟩
  next t ht =>
    obtain ⟨t', hlive, hpos, rfl⟩ := uncountSubscriber_cases h
    obtain rfl := Option.some.inj ((countedTeam_eq_some.mp ht).2.symm.trans hlive)
    exact .inr ⟨t, _, ht, Nat.sub_add_cancel hpos, rfl⟩

theorem shifted_addSubscriber (h : addSubscriberContribution s slug pref = .ok s') :
    Shifted 0 1 slug pref s s' := by
  unfold addSubscriberContribution at h
  split at h
  next hnone => exact .inl ⟨hnone, (Except.ok.inj h).symm⟩
  next t ht =>
    obtain ⟨t', hlive, rfl⟩ := countSubscriber_cases h
    obtain rfl := Option.some.inj ((countedTeam_eq_some.mp ht).2.symm.trans hlive)
    exact .inr ⟨t, _, ht, rfl, rfl⟩

/-- At most the subscriber count of a live team has changed. -/
def Recounted (s s' : CurationState) : Prop :=
  s' = s ∨ ∃ slug team t n, s.liveTeam slug team = some t ∧
    s' = s.setCurationTeam { t with subscriberCount := n }

theorem Shifted.recounted {a b : ℕ} (h : Shifted a b slug pref s s') : Recounted s s' := by
  rcases h with ⟨-, rfl⟩ | ⟨t, n, ht, -, rfl⟩
  · exact .inl rfl
  · exact .inr ⟨_, _, t, n, (countedTeam_eq_some.mp ht).2, rfl⟩

theorem recounted_removeSubscriber (h : removeSubscriberContribution s slug pref = .ok s') :
    Recounted s s' :=
  (shifted_removeSubscriber h).recounted

theorem recounted_addSubscriber (h : addSubscriberContribution s slug pref = .ok s') :
    Recounted s s' :=
  (shifted_addSubscriber h).recounted

theorem recounted_removePaid (h : removePaidContribution s slug pref paid = .ok s') :
    Recounted s s' := by
  cases paid with
  | true => exact recounted_removeSubscriber h
  | false => exact .inl (Except.ok.inj h).symm

theorem recounted_addPaid (h : addPaidContribution s slug pref paid = .ok s') : Recounted s s' := by
  cases paid with
  | true => exact recounted_addSubscriber h
  | false => exact .inl (Except.ok.inj h).symm

theorem Recounted.joins (h : Recounted s s') : s'.joins = s.joins := by
  rcases h with rfl | ⟨_, _, _, _, -, rfl⟩ <;> rfl

/-- A pinned preference that passes the checks names a live team that has not banned the
account, and another mode names no team. -/
theorem checkPreference_eq_ok {m : PreferenceMode}
    (h : checkPreference s owner slug mode team = .ok m) :
    PreferenceMode.ofInt mode = some m ∧
      (m = .pinned → team ≠ 0 ∧ (∃ t, s.liveTeam slug team = some t) ∧
        s.hiddenUsers.has (rosterKey slug team owner) = false) ∧
      (m ≠ .pinned → team = 0) := by
  unfold checkPreference at h
  split at h
  next hmode =>
    simp only [bind_eq_ok, failIf_eq_ok, exists_const, pure_eq_ok, Bool.not_eq_true] at h
    obtain ⟨hteam, hlive, hfree, rfl⟩ := h
    exact ⟨hmode, fun _ => ⟨hteam, Option.ne_none_iff_exists'.mp hlive, hfree⟩, absurd rfl⟩
  next m' hm hmode =>
    simp only [bind_eq_ok, failIf_eq_ok, exists_const, pure_eq_ok, not_not] at h
    obtain ⟨hteam, rfl⟩ := h
    exact ⟨hmode, fun hp => absurd hp hm, fun _ => hteam⟩
  next => cases h

/-- A changed preference moves the contribution of a subscriber from the team the old one
counts for to the team the new one counts for. -/
theorem setCurationPreference_cases
    (h : setCurationPreference s owner slug mode team paid = .ok s') :
    ∃ old, s.joins.get (toLex (owner, slug)) = some old ∧
      (s' = s ∨ ∃ m s₁ s₂, checkPreference s owner slug mode team = .ok m ∧
        removePaidContribution s slug old paid = .ok s₁ ∧
        addPaidContribution s₁ slug ⟨m, team⟩ paid = .ok s₂ ∧
        s' = s₂.preferring owner slug ⟨m, team⟩) := by
  unfold setCurationPreference getPreference at h
  cases hold : s.joins.get (toLex (owner, slug)) with
  | none => simp [hold] at h
  | some old =>
    simp only [hold, bind_eq_ok] at h
    obtain ⟨m, hm, h⟩ := h
    refine ⟨old, rfl, ?_⟩
    split at h
    · exact .inl (Except.ok.inj h).symm
    · simp only [bind_eq_ok, pure_eq_ok] at h
      obtain ⟨s₁, h₁, s₂, h₂, rfl⟩ := h
      exact .inr ⟨m, s₁, s₂, hm, h₁, h₂, rfl⟩

/-- The preference that was set is stored, also where it was there before. -/
theorem joins_setCurationPreference
    (h : setCurationPreference s owner slug mode team paid = .ok s') :
    ∃ m, checkPreference s owner slug mode team = .ok m ∧
      s'.joins = s.joins.set (toLex (owner, slug)) ⟨m, team⟩ := by
  unfold setCurationPreference getPreference at h
  cases hold : s.joins.get (toLex (owner, slug)) with
  | none => simp [hold] at h
  | some old =>
    simp only [hold, bind_eq_ok] at h
    obtain ⟨m, hm, h⟩ := h
    refine ⟨m, hm, ?_⟩
    split at h
    next hsame =>
      obtain rfl := Except.ok.inj h
      rw [set_of_get]
      rw [hold, ← hsame.1, ← hsame.2]
    next =>
      simp only [bind_eq_ok, pure_eq_ok] at h
      obtain ⟨s₁, h₁, s₂, h₂, rfl⟩ := h
      simp only [(recounted_addPaid h₂).joins, (recounted_removePaid h₁).joins]

theorem joinCommunityWithLens_cases {cap : ℕ}
    (h : joinCommunityWithLens rules p s owner slug cap mode team paid = .ok s') :
    s' = s ∨ ∃ (lens : ℤ × ℕ) (s₁ : CurationState), joinCommunity rules p s owner slug cap =
      .ok s₁ ∧
      setCurationPreference s₁ owner slug lens.1 lens.2 paid = .ok s' := by
  unfold joinCommunityWithLens at h
  split at h
  · exact .inl (Except.ok.inj h).symm
  · simp only [bind_eq_ok] at h
    obtain ⟨lens, -, s₁, h₁, h₂⟩ := h
    exact .inr ⟨lens, s₁, h₁, h₂⟩

/-! ## 4. Rosters and invitations -/

theorem clearInvite_cases (h : clearInvite s slug team target = .ok s') :
    s.invites.get (rosterKey slug team target) = none ∧ s' = s ∨
      s.invites.has (rosterKey slug team target) = true ∧ s' = s.uninvited slug team target := by
  unfold clearInvite at h
  split at h
  · next hhas =>
    simp only [bind_eq_ok, pure_eq_ok] at h
    obtain ⟨m, hm, rfl⟩ := h
    obtain ⟨-, rfl⟩ := addCheckedU32_dec hm
    exact .inr ⟨hhas, rfl⟩
  · next hno =>
    exact .inl ⟨has_eq_false_iff.mp (by simpa using hno), (Except.ok.inj h).symm⟩

theorem clearPendingInvite_cases (h : clearPendingInvite s slug team target = .ok s') :
    s.invites.has (rosterKey slug team target) = true ∧ s' = s.uninvited slug team target := by
  simp only [clearPendingInvite, bind_eq_ok, failIf_eq_ok, exists_const, not_not] at h
  rcases clearInvite_cases h.2 with ⟨hnone, -⟩ | hsome
  · rw [has_eq_false_iff.mpr hnone] at h
    exact absurd h.1 (by decide)
  · exact hsome

theorem removeCuratorFromTeam_cases (h : removeCuratorFromTeam p s slug team target = .ok s') :
    ∃ m, s.members.get (rosterKey slug team target) = some m ∧
      s' = s.discharged slug team target := by
  unfold removeCuratorFromTeam at h
  cases hm : s.members.get (rosterKey slug team target) with
  | none => simp [hm] at h
  | some m =>
    simp only [hm, bind_eq_ok, pure_eq_ok] at h
    obtain ⟨c, hc, -, -, rfl⟩ := h
    obtain ⟨-, rfl⟩ := addCheckedU32_dec hc
    exact ⟨m, rfl, rfl⟩

theorem deleteCurationTeam_cases (h : deleteCurationTeam rules p height s slug team = .ok s') :
    ∃ t s₁ s₂, s.liveTeam slug team = some t ∧
      ((s.roster slug team).entries.map Prod.fst).foldlM
        (fun s m => removeCuratorFromTeam p s slug team m) s = .ok s₁ ∧
      ((s₁.teamInvites slug team).entries.map Prod.fst).foldlM
        (fun s i => clearInvite s slug team i) s₁ = .ok s₂ ∧
      s' = ({ s₂ with teamName := s₂.teamName.erase (toLex (slug, rules.teamNameKey t.name)) }
        ).setCurationTeam { t with subscriberCount := 0, deletedHeight := height } := by
  unfold deleteCurationTeam at h
  cases hlive : s.liveTeam slug team with
  | none => simp [hlive] at h
  | some t =>
    simp only [hlive, bind_eq_ok, pure_eq_ok] at h
    obtain ⟨s₁, h₁, s₂, h₂, rfl⟩ := h
    exact ⟨t, s₁, s₂, rfl, h₁, h₂, rfl⟩

theorem mem_slices_iff {β : Type} {m : OrderedMap RosterKey β} {v : β} :
    (a, v) ∈ ((m.slice slug).slice team).entries ↔ m.get (rosterKey slug team a) = some v := by
  rw [mem_entries_iff, get_slice, get_slice, rosterKey]

theorem mem_roster_iff {m : CurationTeamMember} :
    (a, m) ∈ (s.roster slug team).entries ↔ s.members.get (rosterKey slug team a) = some m :=
  mem_slices_iff

/-- A loop over all entries of a team in one of the maps, each step of which ends its entry and
starts none, leaves no entry. -/
theorem entries_ended {β : Type} {m : CurationState → OrderedMap RosterKey β}
    {step : CurationState → Addr → Except ChainError CurationState}
    (hdo : ∀ a s₁ s₂, step s₁ a = .ok s₂ → (m s₂).get (rosterKey slug team a) = none)
    (hkeep : ∀ a b s₁ s₂, step s₁ a = .ok s₂ → (m s₁).get (rosterKey slug team b) = none →
      (m s₂).get (rosterKey slug team b) = none)
    (h : ((((m s).slice slug).slice team).entries.map Prod.fst).foldlM step s = .ok s') (a : Addr) :
    (m s').get (rosterKey slug team a) = none := by
  by_cases ha : a ∈ (((m s).slice slug).slice team).entries.map Prod.fst
  · exact foldlM_ok_forall hdo hkeep h a ha
  · refine foldlM_ok_induction (P := fun s => (m s).get _ = none) (fun b _ => hkeep b a) h ?_
    rw [← has_eq_false_iff, Bool.eq_false_iff]
    intro hhas
    obtain ⟨v, hv⟩ := has_iff.mp hhas
    exact ha (List.mem_map.mpr ⟨_, mem_slices_iff.mpr hv, rfl⟩)

theorem get_erase_none {β : Type} {m : OrderedMap RosterKey β} {k : RosterKey} (k₀ : RosterKey)
    (h : m.get k = none) : (m.erase k₀).get k = none := by
  rw [get_erase, h, ite_self]

/-- The loop that discharges all curators of a team touches nothing but its roster. -/
theorem dischargeAll_spec
    (h : ((s.roster slug team).entries.map Prod.fst).foldlM
      (fun s m => removeCuratorFromTeam p s slug team m) s = .ok s') :
    s' = { s with
      members := s'.members, teamUser := s'.teamUser, teamUserCount := s'.teamUserCount } ∧
    (∀ a, s'.members.get (rosterKey slug team a) = none) ∧
    ∀ k, (∀ a, k ≠ rosterKey slug team a) → s'.members.get k = s.members.get k := by
  have hpass : ∀ a s₁ s₂, removeCuratorFromTeam p s₁ slug team a = .ok s₂ →
      s₂ = s₁.discharged slug team a := by
    intro a s₁ s₂ hstep
    obtain ⟨-, -, hs₂⟩ := removeCuratorFromTeam_cases hstep
    exact hs₂
  refine ⟨?_, ?_, ?_⟩
  · refine foldlM_ok_induction (P := fun s₁ => s₁ = { s with
      members := s₁.members, teamUser := s₁.teamUser, teamUserCount := s₁.teamUserCount })
      ?_ h rfl
    intro a _ s₁ s₂ hstep hs₁
    rw [hpass a s₁ s₂ hstep, hs₁]
    rfl
  · refine entries_ended (m := CurationState.members) (fun a s₁ s₂ hstep => ?_)
      (fun a b s₁ s₂ hstep hb => ?_) h
    · rw [hpass a s₁ s₂ hstep]
      exact get_erase_self _ _
    · rw [hpass a s₁ s₂ hstep]
      exact get_erase_none _ hb
  · intro k hk
    refine foldlM_ok_induction (P := fun s₁ => s₁.members.get k = s.members.get k) ?_ h rfl
    intro a _ s₁ s₂ hstep hs₁
    rw [hpass a s₁ s₂ hstep]
    exact (get_erase_of_ne (hk a)).trans hs₁

/-- The loop that ends all invitations of a team touches nothing but invitations. -/
theorem uninviteAll_spec
    (h : ((s.teamInvites slug team).entries.map Prod.fst).foldlM
      (fun s i => clearInvite s slug team i) s = .ok s') :
    s' = { s with
      invites := s'.invites, inviteRev := s'.inviteRev, inviteCount := s'.inviteCount } ∧
    ∀ a, s'.invites.get (rosterKey slug team a) = none := by
  have hpass : ∀ a s₁ s₂, clearInvite s₁ slug team a = .ok s₂ →
      s₁.invites.get (rosterKey slug team a) = none ∧ s₂ = s₁ ∨
        s₂ = s₁.uninvited slug team a :=
    fun a s₁ s₂ h => (clearInvite_cases h).imp_right And.right
  refine ⟨?_, ?_⟩
  · refine foldlM_ok_induction (P := fun s₁ => s₁ = { s with
      invites := s₁.invites, inviteRev := s₁.inviteRev, inviteCount := s₁.inviteCount }) ?_ h rfl
    intro a _ s₁ s₂ hstep hs₁
    rcases hpass a s₁ s₂ hstep with ⟨-, rfl⟩ | rfl
    · exact hs₁
    · rw [hs₁]
      rfl
  · refine entries_ended (m := CurationState.invites) (fun a s₁ s₂ hstep => ?_)
      (fun a b s₁ s₂ hstep hb => ?_) h
    · rcases hpass a s₁ s₂ hstep with ⟨hnone, rfl⟩ | rfl
      · exact hnone
      · exact get_erase_self _ _
    · rcases hpass a s₁ s₂ hstep with ⟨-, rfl⟩ | rfl
      · exact hb
      · exact get_erase_none _ hb

/-- The three ways a membership ends: nothing is left of the team, the curator goes, or the
owner goes and either a successor or the end of the team follows. -/
theorem removeCurationMembership_cases
    (h : removeCurationMembership rules p height profiles s owner slug team = .ok s') :
    s.liveTeam slug team = none ∧ s' = s ∨
      ∃ t, s.liveTeam slug team = some t ∧
        (t.owner ≠ owner ∧ removeCuratorFromTeam p s slug team owner = .ok s' ∨
          t.owner = owner ∧ successor profiles s slug team owner = none ∧
            deleteCurationTeam rules p height s slug team = .ok s' ∨
          t.owner = owner ∧ ∃ next s₁, successor profiles s slug team owner = some next ∧
            removeCuratorFromTeam p s slug team owner = .ok s₁ ∧
            s' = s₁.setCurationTeam { t with owner := next.address }) := by
  unfold removeCurationMembership at h
  cases hlive : s.liveTeam slug team with
  | none =>
    rw [hlive] at h
    exact .inl ⟨rfl, (Except.ok.inj h).symm⟩
  | some t =>
    rw [hlive] at h
    refine .inr ⟨t, rfl, ?_⟩
    simp only at h
    split at h
    · next hne => exact .inl ⟨hne, h⟩
    · next heq =>
      have heq : t.owner = owner := not_not.mp heq
      cases hsucc : successor profiles s slug team owner with
      | none =>
        rw [hsucc] at h
        exact .inr (.inl ⟨heq, rfl, h⟩)
      | some next =>
        simp only [hsucc, bind_eq_ok, pure_eq_ok] at h
        obtain ⟨s₁, h₁, rfl⟩ := h
        exact .inr (.inr ⟨heq, next, s₁, rfl, h₁, rfl⟩)

theorem joins_deleteCurationTeam
    (h : deleteCurationTeam rules p height s slug team = .ok s') : s'.joins = s.joins := by
  obtain ⟨t, s₁, s₂, -, h₁, h₂, rfl⟩ := deleteCurationTeam_cases h
  have hjoins₂ : s₂.joins = s₁.joins := by rw [(uninviteAll_spec h₂).1]
  have hjoins₁ : s₁.joins = s.joins := by rw [(dischargeAll_spec h₁).1]
  exact hjoins₂.trans hjoins₁

theorem joins_removeCurationMembership
    (h : removeCurationMembership rules p height profiles s owner slug team = .ok s') :
    s'.joins = s.joins := by
  rcases removeCurationMembership_cases h with
    ⟨-, rfl⟩ | ⟨t, -, ⟨-, h⟩ | ⟨-, -, h⟩ | ⟨-, next, s₁, -, h₁, rfl⟩⟩
  · rfl
  · obtain ⟨-, -, rfl⟩ := removeCuratorFromTeam_cases h
    rfl
  · exact joins_deleteCurationTeam h
  · obtain ⟨-, -, rfl⟩ := removeCuratorFromTeam_cases h₁
    rfl

/-- The successor is an eligible curator of the team other than the owner. -/
theorem successor_spec {next : CurationTeamMember}
    (h : successor profiles s slug team owner = some next) :
    (∃ a, s.members.get (rosterKey slug team a) = some next) ∧ next.address ≠ owner ∧
      profiles.eligible next.address = true := by
  -- what the loop has picked so far came from the roster and passed the checks
  have hloop : ∀ (ms : List CurationTeamMember) (best : Option CurationTeamMember),
      (∀ m ∈ ms, ∃ a, s.members.get (rosterKey slug team a) = some m) →
      (∀ b ∈ best, (∃ a, s.members.get (rosterKey slug team a) = some b) ∧ b.address ≠ owner ∧
        profiles.eligible b.address = true) →
      ∀ b ∈ ms.foldl (pickSuccessor profiles owner) best,
        (∃ a, s.members.get (rosterKey slug team a) = some b) ∧ b.address ≠ owner ∧
          profiles.eligible b.address = true := by
    intro ms
    induction ms with
    | nil => exact fun best _ hbest => hbest
    | cons m ms ih =>
      intro best hms hbest
      refine ih _ (fun m' hm' => hms m' (List.mem_cons_of_mem m hm')) ?_
      have hm := hms m List.mem_cons_self
      unfold pickSuccessor
      split
      · exact hbest
      · next hne =>
        split
        · exact hbest
        · next helig =>
          have hgood : ∀ b ∈ some m, (∃ a, s.members.get (rosterKey slug team a) = some b) ∧
              b.address ≠ owner ∧ profiles.eligible b.address = true := by
            rintro b ⟨⟩
            exact ⟨hm, hne, by simpa using helig⟩
          split
          · exact hgood
          · split
            · exact hgood
            · exact hbest
  refine hloop _ none ?_ nofun next h
  intro m hm
  obtain ⟨⟨a, m'⟩, hmem, rfl⟩ := List.mem_map.mp hm
  exact ⟨a, mem_roster_iff.mp hmem⟩

theorem leaveTeam_cases (h : leaveTeam rules p height profiles s owner slug = .ok s') :
    s' = s ∧ (∀ team, s.teamUser.get (toLex (owner, slug)) = some team → team = 0) ∨
      ∃ team, s.teamUser.get (toLex (owner, slug)) = some team ∧
        removeCurationMembership rules p height profiles s owner slug team = .ok s' := by
  unfold leaveTeam at h
  cases hteam : s.teamUser.get (toLex (owner, slug)) with
  | none =>
    rw [hteam] at h
    exact .inl ⟨(Except.ok.inj h).symm, nofun⟩
  | some team =>
    simp only [hteam] at h
    split at h
    · exact .inr ⟨team, rfl, h⟩
    · next hzero =>
      refine .inl ⟨(Except.ok.inj h).symm, ?_⟩
      rintro _ ⟨⟩
      omega

theorem joins_leaveTeam
    (h : leaveTeam rules p height profiles s owner slug = .ok s') : s'.joins = s.joins := by
  rcases leaveTeam_cases h with ⟨rfl, -⟩ | ⟨team, -, h⟩
  · rfl
  · exact joins_removeCurationMembership h

/-- Leaving a community ends the membership in its team and takes the contribution back
before the join goes. -/
theorem leaveCommunity_cases
    (h : leaveCommunity rules p height profiles s owner slug paid = .ok s') :
    ∃ pref s₁ s₂, s.joins.get (toLex (owner, slug)) = some pref ∧
      leaveTeam rules p height profiles s owner slug = .ok s₁ ∧
      removePaidContribution s₁ slug pref paid = .ok s₂ ∧
      s' = s₂.left owner slug := by
  unfold leaveCommunity getPreference at h
  cases hpref : s.joins.get (toLex (owner, slug)) with
  | none => simp [hpref] at h
  | some pref =>
    simp only [hpref, bind_eq_ok, failIf_eq_ok, exists_const, pure_eq_ok] at h
    obtain ⟨s₁, h₁, s₂, h₂, -, c, hc, rfl⟩ := h
    obtain ⟨-, rfl⟩ := addCheckedU32_dec hc
    exact ⟨pref, s₁, s₂, rfl, h₁, h₂, rfl⟩

/-! ## 5. Eligibility -/

theorem shiftContribution_cases {after : Bool} (h : shiftContribution owner after s slug = .ok s') :
    ∃ pref, s.joins.get (toLex (owner, slug)) = some pref ∧
      (after = true ∧ addSubscriberContribution s slug pref = .ok s' ∨
        after = false ∧ removeSubscriberContribution s slug pref = .ok s') := by
  unfold shiftContribution getPreference at h
  cases hpref : s.joins.get (toLex (owner, slug)) with
  | none => simp [hpref] at h
  | some pref =>
    rw [hpref] at h
    refine ⟨pref, rfl, ?_⟩
    cases after with
    | true => exact .inl ⟨rfl, h⟩
    | false => exact .inr ⟨rfl, h⟩

/-- Eligibility that is gained moves the contributions; eligibility that is lost also ends
the invitations and the memberships. -/
theorem transitionCurationEligibility_cases {before after : Bool}
    (h : transitionCurationEligibility rules p height profiles s owner before after = .ok s') :
    before = after ∧ s' = s ∨
      before ≠ after ∧ ∃ s₁,
        (s.joinedCommunities owner).foldlM (shiftContribution owner after) s = .ok s₁ ∧
        (after = true ∧ s' = s₁ ∨
          after = false ∧ ∃ s₂, clearPendingInvitationsForTarget s₁ owner = .ok s₂ ∧
            (s₂.teamUser.slice owner).entries.foldlM
              (fun s m => removeCurationMembership rules p height profiles s owner m.1 m.2) s₂ =
              .ok s') := by
  unfold transitionCurationEligibility at h
  split at h
  · next heq => exact .inl ⟨heq, (Except.ok.inj h).symm⟩
  · next hne =>
    simp only [bind_eq_ok] at h
    obtain ⟨s₁, h₁, h⟩ := h
    refine .inr ⟨hne, s₁, h₁, ?_⟩
    cases after with
    | true => exact .inl ⟨rfl, (Except.ok.inj h).symm⟩
    | false =>
      simp only [Bool.false_eq_true, if_false, bind_eq_ok] at h
      obtain ⟨s₂, h₂, h⟩ := h
      exact .inr ⟨rfl, s₂, h₂, h⟩

/-! ## 6. Teams -/

/-- The record of a team that was just created. -/
def CurationTeam.fresh (slug : Slug) (id : ℕ) (owner : Addr) (name : Name) (description : Text)
    (height : ℤ) : CurationTeam where
  community := slug
  teamId := id
  owner := owner
  name := name
  description := description
  createdHeight := height
  createdOrder := id
  nextMemberOrder := 2
  subscriberCount := 0
  deletedHeight := 0
  tag := 0
  subscriberOnly := false

theorem createCurationTeam_cases {name : Name} {description : Text}
    (h : createCurationTeam rules p height profiles s owner slug name description = .ok s') :
    ∃ core text cap s₁, profiles.get owner = some core ∧ canCurate core = true ∧
      s.teamUser.get (toLex (owner, slug)) = none ∧
      s.teamName.get (toLex (slug, rules.teamNameKey name)) = none ∧
      s.teamUserCount.count owner + 1 < 2 ^ 32 ∧
      joinCommunity rules p
        ((s.founded (.fresh slug (s.nextTeamId slug) owner name text height)
          (rules.teamNameKey name)).enlisted slug (s.nextTeamId slug) owner 1)
        owner slug cap = .ok s₁ ∧
      setCurationPreference s₁ owner slug 1 (s.nextTeamId slug) true = .ok s' := by
  simp only [createCurationTeam, bind_eq_ok, liftText_eq_ok] at h
  obtain ⟨-, -, -, -, text, -, h⟩ := h
  cases hcore : profiles.get owner with
  | none => simp [hcore] at h
  | some core =>
    simp only [hcore, bind_eq_ok, failIf_eq_ok, exists_const] at h
    obtain ⟨hcan, huser, hname, h⟩ := h
    cases htier : p.getTierConfig core.level with
    | none => simp [htier] at h
    | some tier =>
      simp only [htier, bind_eq_ok, failIf_eq_ok, exists_const, liftCore_eq_ok,
        checkedAddUint64_eq_ok] at h
      obtain ⟨-, next, ⟨-, rfl⟩, c, hc, s₁, h₁, h₂⟩ := h
      obtain ⟨hfits, rfl⟩ := addCheckedU32_inc hc
      have hcan : canCurate core = true := by simpa using hcan
      rw [hcan] at h₂
      exact ⟨core, text, _, s₁, rfl, hcan,
        has_eq_false_iff.mp (by simpa using huser),
        has_eq_false_iff.mp (by simpa using hname), hfits, h₁, h₂⟩

theorem inviteCurator_cases (h : inviteCurator p profiles s actor slug team target = .ok s') :
    ∃ t, s.liveTeam slug team = some t ∧
      s.invites.get (rosterKey slug team target) = none ∧
      (s.roster slug team).size < p.maxCuratorsPerTeam ∧
      s.inviteCount.count target + 1 < 2 ^ 32 ∧
      s' = s.invited slug team target actor := by
  unfold inviteCurator at h
  cases hlive : s.liveTeam slug team with
  | none => simp [hlive] at h
  | some t =>
    simp only [hlive, countTeamMembers, countTeamInvites, bind_eq_ok, failIf_eq_ok, exists_const,
      pure_eq_ok] at h
    obtain ⟨-, -, -, -, hnone, m, ⟨-, rfl⟩, hroom, -, -, -, -, -, c, hc, rfl⟩ := h
    obtain ⟨hfits, rfl⟩ := addCheckedU32_inc hc
    exact ⟨t, rfl, has_eq_false_iff.mp (by simpa using hnone), by omega, hfits, rfl⟩

theorem acceptCuratorInvite_cases
    (h : acceptCuratorInvite rules p profiles s actor slug team = .ok s') :
    ∃ t cap s₁, s.liveTeam slug team = some t ∧ profiles.eligible actor = true ∧
      s.teamUser.get (toLex (actor, slug)) = none ∧
      (s.roster slug team).size < p.maxCuratorsPerTeam ∧
      joinCommunity rules p s actor slug cap = .ok s₁ ∧
      s₁.teamUserCount.count actor + 1 < 2 ^ 32 ∧
      clearInvite ((s₁.setCurationTeam { t with nextMemberOrder := t.nextMemberOrder + 1 }).enlisted
        slug team actor t.nextMemberOrder) slug team actor = .ok s' := by
  simp only [acceptCuratorInvite, bind_eq_ok, failIf_eq_ok, exists_const] at h
  obtain ⟨-, h⟩ := h
  cases hlive : s.liveTeam slug team with
  | none => simp [hlive] at h
  | some t =>
    cases hcore : profiles.get actor with
    | none => simp [hlive, hcore] at h
    | some core =>
      simp only [hlive, hcore, bind_eq_ok, failIf_eq_ok, exists_const] at h
      obtain ⟨hcan, huser, h⟩ := h
      cases htier : p.getTierConfig core.level with
      | none => simp [htier] at h
      | some tier =>
        simp only [htier, countTeamMembers, bind_eq_ok, failIf_eq_ok, exists_const,
          liftCore_eq_ok, checkedAddUint64_eq_ok, pure_eq_ok] at h
        obtain ⟨-, m, ⟨-, rfl⟩, hroom, s₁, h₁, -, next, ⟨-, rfl⟩, c, hc, h₂⟩ := h
        obtain ⟨hfits, rfl⟩ := addCheckedU32_inc hc
        exact ⟨t, _, s₁, rfl, Profiles.eligible_iff.mpr ⟨core, hcore, by simpa using hcan⟩,
          has_eq_false_iff.mp (by simpa using huser), by omega, h₁, hfits, h₂⟩

theorem requireTeamOwner_cases (h : requireTeamOwner profiles s actor slug team = .ok t) :
    s.liveTeam slug team = some t ∧ t.owner = actor := by
  unfold requireTeamOwner at h
  cases hlive : s.liveTeam slug team with
  | none => simp [hlive] at h
  | some t' =>
    simp only [hlive, bind_eq_ok, failIf_eq_ok, exists_const, pure_eq_ok, not_not] at h
    obtain ⟨-, howner, rfl⟩ := h
    exact ⟨rfl, howner⟩

theorem updateCurationTeamProfile_cases {name : Name} {description : Text}
    (h : updateCurationTeamProfile rules p profiles s actor slug team name description = .ok s') :
    ∃ t text, s.liveTeam slug team = some t ∧
      (rules.teamNameKey t.name = rules.teamNameKey name ∧
          s' = s.setCurationTeam { t with name := name, description := text } ∨
        rules.teamNameKey t.name ≠ rules.teamNameKey name ∧
          s.teamName.get (toLex (slug, rules.teamNameKey name)) = none ∧
          s' = ({ s with
            teamName := (s.teamName.erase (toLex (slug, rules.teamNameKey t.name))).set
              (toLex (slug, rules.teamNameKey name)) team }
            ).setCurationTeam { t with name := name, description := text }) := by
  simp only [updateCurationTeamProfile, bind_eq_ok, liftText_eq_ok] at h
  obtain ⟨t, ht, -, -, text, -, h⟩ := h
  refine ⟨t, text, (requireTeamOwner_cases ht).1, ?_⟩
  split at h
  · next hne =>
    simp only [bind_eq_ok, failIf_eq_ok, exists_const, pure_eq_ok] at h
    exact .inr ⟨hne, has_eq_false_iff.mp (by simpa using h.1), h.2.symm⟩
  · next heq => exact .inl ⟨not_not.mp heq, (Except.ok.inj h).symm⟩

theorem setCurationTeamOwner_cases {newOwner : Addr}
    (h : setCurationTeamOwner profiles s slug team newOwner = .ok s') :
    ∃ t, s.liveTeam slug team = some t ∧ profiles.eligible newOwner = true ∧
      s.members.has (rosterKey slug team newOwner) = true ∧
      s' = s.setCurationTeam { t with owner := newOwner } := by
  unfold setCurationTeamOwner at h
  cases hlive : s.liveTeam slug team with
  | none => simp [hlive] at h
  | some t =>
    simp only [hlive, bind_eq_ok, failIf_eq_ok, exists_const, pure_eq_ok, not_not] at h
    obtain ⟨-, helig, hmember, rfl⟩ := h
    exact ⟨t, rfl, helig, hmember, rfl⟩

/-- A banned user's preference is left alone where they do not look through the team, and is
set to the best other team, or to the raw feed, where they do. -/
theorem rerouteBannedUserPreference_cases
    (h : rerouteBannedUserPreference profiles s slug team target = .ok s') :
    (s' = s ∧ ∀ pref, s.getPreference target slug = some pref →
      pref.mode = .raw ∨ currentTeam s slug target pref team ≠ team) ∨
    ∃ core mode next, profiles.get target = some core ∧
      (bestCurationTeamForUser s slug target 0 = none ∧ mode = 2 ∧ next = 0 ∨
        ∃ t, bestCurationTeamForUser s slug target 0 = some t ∧ mode = 1 ∧ next = t.teamId) ∧
      setCurationPreference s target slug mode next (canCurate core) = .ok s' := by
  unfold rerouteBannedUserPreference at h
  cases hpref : s.getPreference target slug with
  | none =>
    rw [hpref] at h
    exact .inl ⟨(Except.ok.inj h).symm, nofun⟩
  | some pref =>
    simp only [hpref] at h
    split at h
    next hraw =>
      refine .inl ⟨(Except.ok.inj h).symm, ?_⟩
      rintro _ ⟨⟩
      exact .inl hraw
    next =>
      split at h
      next hother =>
        refine .inl ⟨(Except.ok.inj h).symm, ?_⟩
        rintro _ ⟨⟩
        exact .inr hother
      next =>
        split at h
        next => cases h
        next core hcore =>
          split at h
          next hnone => exact .inr ⟨core, 2, 0, hcore, .inl ⟨hnone, rfl, rfl⟩, h⟩
          next t hbest => exact .inr ⟨core, 1, t.teamId, hcore, .inr ⟨t, hbest, rfl, rfl⟩, h⟩

end MirageNode
