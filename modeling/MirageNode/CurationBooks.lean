import MirageNode.CurationSpec
import MirageNode.ProfileLists

/-!
# The books of curation

Joins, rosters, invitations and team names are each kept in more than one index, with
counters beside them. `Bookkept` says that the indexes agree: who is on a roster is in
the user index and counted, every invitation and every join has its reverse record, a
name leads to the live team that bears it, accepted orders are distinct, and teams that
are gone have neither curators nor invitations.

Every write of `CurationSpec` keeps the books, and with them every curation function,
in whatever order they run. So the errors that stand for books out of order are never
returned (`Avoids … Corrupt`).
-/

namespace MirageNode

open OrderedStore OrderedMap Fallible CurationState

/-! ## 1. Books -/

/-- A `uint32` counter of each row of an index. -/
structure Tally {ι κ α : Type} [LinearOrder ι] [LinearOrder κ] (R : OrderedMap (ι ×ₗ κ) α)
    (C : OrderedMap ι ℕ) : Prop where
  rows : RowCount R C
  fits : ∀ i, C.count i < 2 ^ 32

/-- The key of a join, read from the community. -/
def joinOrder : Addr ×ₗ Slug ≃ Slug ×ₗ Addr where
  toFun k := toLex ((ofLex k).2, (ofLex k).1)
  invFun k := toLex ((ofLex k).2, (ofLex k).1)
  left_inv _ := rfl
  right_inv _ := rfl

/-- The key of an invitation, read from the invited account. -/
def inviteOrder : RosterKey ≃ Addr ×ₗ Slug ×ₗ ℕ where
  toFun k := toLex ((ofLex (ofLex k).2).2, toLex ((ofLex k).1, (ofLex (ofLex k).2).1))
  invFun k := toLex ((ofLex (ofLex k).2).1, toLex ((ofLex (ofLex k).2).2, (ofLex k).1))
  left_inv _ := rfl
  right_inv _ := rfl

/-- Every join has its reverse record and is counted. -/
structure JoinBook (joins : OrderedMap (Addr ×ₗ Slug) CommunityPreference)
    (joinRev : OrderedMap (Slug ×ₗ Addr) Unit) (joinCount : OrderedMap Addr ℕ) : Prop where
  mirror : Mirror joinOrder joins joinRev
  tally : Tally joins joinCount

/-- Every invitation has its reverse record and is counted. -/
structure InviteBook (invites : OrderedMap RosterKey Addr)
    (inviteRev : OrderedMap (Addr ×ₗ Slug ×ₗ ℕ) Unit) (inviteCount : OrderedMap Addr ℕ) :
    Prop where
  mirror : Mirror inviteOrder invites inviteRev
  tally : Tally inviteRev inviteCount

/-- A roster record stands where the user index points to, memberships are counted, and
accepted orders tell the curators of a team apart. -/
structure RosterBook (members : OrderedMap RosterKey CurationTeamMember)
    (teamUser : OrderedMap (Addr ×ₗ Slug) ℕ) (teamUserCount : OrderedMap Addr ℕ) : Prop where
  index : ∀ slug team a, members.has (rosterKey slug team a) = true ↔
    teamUser.get (toLex (a, slug)) = some team
  tally : Tally teamUser teamUserCount
  address : ∀ slug team a m, members.get (rosterKey slug team a) = some m → m.address = a
  orders : ∀ slug team a b m n, members.get (rosterKey slug team a) = some m →
    members.get (rosterKey slug team b) = some n → m.acceptedOrder = n.acceptedOrder → a = b

/-- Teams stand under their own numbers, which are below the next one, and the name index
leads to the live teams by their normalized names. -/
structure TeamBook (rules : TextRules) (teams : OrderedMap (Slug ×ₗ ℕ) CurationTeam)
    (teamNext : OrderedMap Slug ℕ) (teamName : OrderedMap (Slug ×ₗ Name) ℕ) : Prop where
  keyed : ∀ slug id t, teams.get (toLex (slug, id)) = some t → t.community = slug ∧ t.teamId = id
  below : ∀ slug id t, teams.get (toLex (slug, id)) = some t → 0 < id ∧ id < teamNext.count slug
  named : ∀ slug key id, teamName.get (toLex (slug, key)) = some id ↔
    ∃ t, teams.get (toLex (slug, id)) = some t ∧ t.live = true ∧ rules.teamNameKey t.name = key

/-- The books of a curation store are in order. -/
structure Bookkept (rules : TextRules) (s : CurationState) : Prop where
  joins : JoinBook s.joins s.joinRev s.joinCount
  invites : InviteBook s.invites s.inviteRev s.inviteCount
  roster : RosterBook s.members s.teamUser s.teamUserCount
  teams : TeamBook rules s.teams s.teamNext s.teamName
  /-- Curators are on live teams, with orders below the next one. -/
  seated : ∀ slug team a m, s.members.get (rosterKey slug team a) = some m →
    ∃ t, s.teams.get (toLex (slug, team)) = some t ∧ t.live = true ∧
      m.acceptedOrder < t.nextMemberOrder
  /-- Invitations are to live teams. -/
  pending : ∀ slug team a, s.invites.has (rosterKey slug team a) = true →
    ∃ t, s.teams.get (toLex (slug, team)) = some t ∧ t.live = true

/-- A team record that goes on under the same number: it was created when the old one
was, and a deleted team stays deleted. -/
structure CurationTeam.SameTeam (t t' : CurationTeam) : Prop where
  community : t'.community = t.community
  teamId : t'.teamId = t.teamId
  createdHeight : t'.createdHeight = t.createdHeight
  createdOrder : t'.createdOrder = t.createdOrder
  deleted : t.live = false → t'.live = false

/-- The teams of an earlier store are still there. -/
def TeamsKept (s₀ s : CurationState) : Prop :=
  ∀ k t, s₀.teams.get k = some t → ∃ t', s.teams.get k = some t' ∧ t.SameTeam t'

/-- A store whose books are in order and that still has the teams of an earlier one. -/
structure Continues (rules : TextRules) (s₀ s : CurationState) : Prop extends
    Bookkept rules s where
  kept : TeamsKept s₀ s

theorem CurationTeam.SameTeam.refl (t : CurationTeam) : t.SameTeam t :=
  ⟨rfl, rfl, rfl, rfl, id⟩

theorem CurationTeam.SameTeam.trans {t₁ t₂ t₃ : CurationTeam} (h : t₁.SameTeam t₂)
    (h' : t₂.SameTeam t₃) : t₁.SameTeam t₃ :=
  ⟨h'.1.trans h.1, h'.2.trans h.2, h'.3.trans h.3, h'.4.trans h.4, fun hd => h'.5 (h.5 hd)⟩

theorem TeamsKept.refl (s : CurationState) : TeamsKept s s := fun _ t h => ⟨t, h, .refl t⟩

/-! ## 2. Counters -/

section Tally

variable {ι κ α : Type} [LinearOrder ι] [LinearOrder κ] {R : OrderedMap (ι ×ₗ κ) α}
  {C : OrderedMap ι ℕ}

theorem Tally.empty : Tally (.empty : OrderedMap (ι ×ₗ κ) α) .empty :=
  ⟨.empty, fun _ => by rw [count_empty]; decide⟩

theorem Tally.set (h : Tally R C) {i : ι} {k : κ} (v : α) (hnew : R.get (toLex (i, k)) = none)
    (hfits : C.count i + 1 < 2 ^ 32) :
    Tally (R.set (toLex (i, k)) v) (C.setCount i (C.count i + 1)) where
  rows := h.rows.set v hnew
  fits j := by
    rw [count_setCount]
    split
    · exact hfits
    · exact h.fits j

theorem Tally.update (h : Tally R C) {i : ι} {k : κ} {v : α} (w : α)
    (hold : R.get (toLex (i, k)) = some v) : Tally (R.set (toLex (i, k)) w) C :=
  ⟨h.rows.update w hold, h.fits⟩

theorem Tally.erase (h : Tally R C) {i : ι} {k : κ} {v : α} (hold : R.get (toLex (i, k)) = some v) :
    Tally (R.erase (toLex (i, k))) (C.setCount i (C.count i - 1)) where
  rows := h.rows.erase hold
  fits j := by
    rw [count_setCount]
    split
    · exact (Nat.sub_le _ _).trans_lt (h.fits i)
    · exact h.fits j

end Tally

/-! ## 3. Writes -/

theorem Bookkept.empty (rules : TextRules) : Bookkept rules .empty where
  joins := ⟨.empty, .empty⟩
  invites := ⟨.empty, .empty⟩
  roster := ⟨fun _ _ _ => ⟨nofun, nofun⟩, .empty, nofun, nofun⟩
  teams := ⟨nofun, nofun, fun _ _ _ => ⟨nofun, nofun⟩⟩
  seated := nofun
  pending := nofun

variable {pref : CommunityPreference} {t t' : CurationTeam} {cap : ℕ} {paid after : Bool}
  {mode : ℤ} {name : Name} {description : Text}

section Writes

variable {rules : TextRules} {s₀ s : CurationState} {slug : Slug} {team : ℕ} {a : Addr}

/-- The live teams of a normalized name, once one record was replaced. -/
theorem TeamBook.named_set (hb : TeamBook rules s.teams s.teamNext s.teamName)
    (hlive : s.liveTeam slug team = some t) (hsame : t.SameTeam t') {slug' : Slug} {key : Name}
    {id : ℕ} :
    (∃ u, (s.setCurationTeam t').teams.get (toLex (slug', id)) = some u ∧ u.live = true ∧
      rules.teamNameKey u.name = key) ↔
      if slug' = slug ∧ id = team then t'.live = true ∧ rules.teamNameKey t'.name = key
      else s.teamName.get (toLex (slug', key)) = some id := by
  obtain ⟨ht, htl⟩ := liveTeam_eq_some.mp hlive
  have hkey : toLex (t'.community, t'.teamId) = toLex (slug, team) := by
    obtain ⟨rfl, rfl⟩ := hb.keyed slug team t ht
    rw [hsame.community, hsame.teamId]
  simp only [setCurationTeam_get, hkey]
  split
  · next hk =>
    obtain ⟨rfl, rfl⟩ := hk
    simp
  · next hk =>
    have hk : ¬ toLex (slug', id) = toLex (slug, team) := by simpa using hk
    simp only [hk, ne_eq, false_and, not_false_eq_true, true_and, false_or, hb.named]

/-- The name index without the name of a live team is about the other teams. -/
theorem TeamBook.named_erase (h : TeamBook rules s.teams s.teamNext s.teamName)
    (hlive : s.liveTeam slug team = some t) {slug' : Slug} {key : Name} {id : ℕ} :
    (s.teamName.erase (toLex (slug, rules.teamNameKey t.name))).get (toLex (slug', key)) = some id ↔
      s.teamName.get (toLex (slug', key)) = some id ∧ ¬ (slug' = slug ∧ id = team) := by
  obtain ⟨ht, htl⟩ := liveTeam_eq_some.mp hlive
  rw [get_erase]
  split
  next hold =>
    obtain ⟨rfl, rfl⟩ : slug' = slug ∧ key = rules.teamNameKey t.name := by simpa using hold
    simp [(h.named slug' _ team).mpr ⟨t, ht, htl, rfl⟩, eq_comm]
  next hold =>
    refine ⟨fun hkey => ⟨hkey, ?_⟩, And.left⟩
    rintro ⟨rfl, rfl⟩
    obtain ⟨u, hu, -, huk⟩ := (h.named slug' key id).mp hkey
    cases hu.symm.trans ht
    exact hold (by rw [huk])

theorem Bookkept.get_nextTeamId (hb : Bookkept rules s) :
    s.teams.get (toLex (slug, s.nextTeamId slug)) = none := by
  rw [← has_eq_false_iff, Bool.eq_false_iff]
  intro hhas
  obtain ⟨t, ht⟩ := has_iff.mp hhas
  obtain ⟨-, hlt⟩ := hb.teams.below _ _ t ht
  unfold nextTeamId at hlt
  split at hlt <;> omega

variable (hc : Continues rules s₀ s)

include hc

theorem Continues.joined (hnew : s.joins.get (toLex (a, slug)) = none)
    (hfits : s.joinCount.count a + 1 < 2 ^ 32) : Continues rules s₀ (s.joined a slug) :=
  { hc with joins := ⟨hc.joins.mirror.set (toLex (a, slug)) _ (), hc.joins.tally.set _ hnew hfits⟩ }

theorem Continues.left (hold : s.joins.get (toLex (a, slug)) = some pref) :
    Continues rules s₀ (s.left a slug) :=
  { hc with joins := ⟨hc.joins.mirror.erase (toLex (a, slug)), hc.joins.tally.erase hold⟩ }

theorem Continues.preferring {old : CommunityPreference}
    (hold : s.joins.get (toLex (a, slug)) = some old) (pref : CommunityPreference) :
    Continues rules s₀ (s.preferring a slug pref) :=
  { hc with joins := ⟨hc.joins.mirror.update pref (has_iff.mpr ⟨old, hold⟩),
    hc.joins.tally.update pref hold⟩ }

theorem Continues.uninvited (hold : s.invites.has (rosterKey slug team a) = true) :
    Continues rules s₀ (s.uninvited slug team a) where
  joins := hc.joins
  invites := by
    have hrev := (hc.invites.mirror (rosterKey slug team a)).symm.trans hold
    obtain ⟨u, hu⟩ := has_iff.mp hrev
    exact ⟨hc.invites.mirror.erase (rosterKey slug team a), hc.invites.tally.erase hu⟩
  roster := hc.roster
  teams := hc.teams
  seated := hc.seated
  pending := by
    intro slug' team' b hb
    have hb : (s.invites.erase (rosterKey slug team a)).has (rosterKey slug' team' b) = true := hb
    rw [has_erase, Bool.and_eq_true] at hb
    exact hc.pending slug' team' b hb.2
  kept := hc.kept

theorem Continues.discharged {m : CurationTeamMember}
    (hm : s.members.get (rosterKey slug team a) = some m) :
    Continues rules s₀ (s.discharged slug team a) where
  joins := hc.joins
  invites := hc.invites
  roster := by
    have huser := (hc.roster.index slug team a).mp (has_iff.mpr ⟨m, hm⟩)
    refine ⟨?_, hc.roster.tally.erase huser, fun slug' team' b n hn =>
      hc.roster.address slug' team' b n (discharged_get.mp hn).2,
        fun slug' team' b b' n n' hn hn' =>
      hc.roster.orders slug' team' b b' n n' (discharged_get.mp hn).2 (discharged_get.mp hn').2⟩
    intro slug' team' b
    show (s.members.erase _).has _ = true ↔ (s.teamUser.erase _).get _ = _
    rw [has_erase, get_erase, Bool.and_eq_true, hc.roster.index]
    by_cases hkey : b = a ∧ slug' = slug
    · obtain ⟨rfl, rfl⟩ := hkey
      rw [huser, if_pos rfl]
      simp only [Option.some.injEq, reduceCtorEq, iff_false, not_and]
      rintro hne rfl
      simp at hne
    · have hne : toLex (b, slug') ≠ toLex (a, slug) := by simpa using hkey
      have hne' : rosterKey slug' team' b ≠ rosterKey slug team a := by
        intro h
        obtain ⟨rfl, rfl, rfl⟩ := rosterKey_inj.mp h
        exact hkey ⟨rfl, rfl⟩
      simp [hne, hne']
  teams := hc.teams
  seated slug' team' b n hn := hc.seated slug' team' b n (discharged_get.mp hn).2
  pending := hc.pending
  kept := hc.kept

/-- A new team takes the next number, and a name that is free. -/
theorem Continues.founded
    (hcommunity : t.community = slug) (hid : t.teamId = s.nextTeamId slug) (hlive : t.live = true)
    (hfree : s.teamName.get (toLex (slug, rules.teamNameKey t.name)) = none) :
    Continues rules s₀ (s.founded t (rules.teamNameKey t.name)) := by
  subst hcommunity
  have hnew : s.teams.get (toLex (t.community, t.teamId)) = none := hid ▸ hc.get_nextTeamId
  have hother : ∀ {k u}, s.teams.get k = some u →
      (s.founded t (rules.teamNameKey t.name)).teams.get k = some u := by
    intro k u hu
    refine (get_set_of_ne _ ?_).trans hu
    rintro rfl
    exact absurd (hu.symm.trans hnew) (Option.some_ne_none u)
  have hget : ∀ k u, (s.founded t (rules.teamNameKey t.name)).teams.get k = some u →
      k = toLex (t.community, t.teamId) ∧ u = t ∨ s.teams.get k = some u :=
    fun k u hu => (get_set_cases hu).imp_right And.right
  refine ⟨⟨hc.joins, hc.invites, hc.roster, ⟨?_, ?_, ?_⟩, ?_, ?_⟩, ?_⟩
  · intro slug' id u hu
    rcases hget _ u hu with ⟨hk, rfl⟩ | hu
    · simpa [eq_comm] using hk
    · exact hc.teams.keyed slug' id u hu
  · intro slug' id u hu
    show 0 < id ∧ id < (s.teamNext.set t.community (t.teamId + 1)).count slug'
    rw [OrderedMap.count, get_set]
    rcases hget _ u hu with ⟨hk, rfl⟩ | hu
    · obtain ⟨rfl, rfl⟩ : slug' = u.community ∧ id = u.teamId := by simpa using hk
      rw [if_pos rfl, Option.getD_some, hid]
      unfold nextTeamId
      split <;> omega
    · obtain ⟨hpos, hlt⟩ := hc.teams.below slug' id u hu
      refine ⟨hpos, ?_⟩
      split
      · next hk =>
        subst hk
        rw [Option.getD_some, hid]
        unfold nextTeamId
        split <;> omega
      · exact hlt
  · intro slug' key id
    show (s.teamName.set _ t.teamId).get _ = some id ↔ _
    rw [get_set]
    by_cases hk : toLex (slug', key) = toLex (t.community, rules.teamNameKey t.name)
    · obtain ⟨rfl, rfl⟩ : slug' = t.community ∧ key = rules.teamNameKey t.name := by simpa using hk
      rw [if_pos rfl, Option.some.injEq]
      constructor
      · rintro rfl
        exact ⟨t, get_set_self _ _ _, hlive, rfl⟩
      · rintro ⟨u, hu, hul, huk⟩
        rcases hget _ u hu with ⟨hk', -⟩ | hu
        · simpa [eq_comm] using hk'
        · have := (hc.teams.named _ _ id).mpr ⟨u, hu, hul, huk⟩
          exact absurd (this.symm.trans hfree) (Option.some_ne_none id)
    · rw [if_neg hk, hc.teams.named]
      constructor
      · rintro ⟨u, hu, hul, huk⟩
        exact ⟨u, hother hu, hul, huk⟩
      · rintro ⟨u, hu, hul, huk⟩
        rcases hget _ u hu with ⟨hk', rfl⟩ | hu
        · obtain ⟨rfl, -⟩ : slug' = u.community ∧ id = u.teamId := by simpa using hk'
          exact absurd (by rw [huk]) hk
        · exact ⟨u, hu, hul, huk⟩
  · intro slug' team' b m hm
    obtain ⟨u, hu, hrest⟩ := hc.seated slug' team' b m hm
    exact ⟨u, hother hu, hrest⟩
  · intro slug' team' b hb
    obtain ⟨u, hu, hul⟩ := hc.pending slug' team' b hb
    exact ⟨u, hother hu, hul⟩
  · intro k u hu
    obtain ⟨u', hu', hsame⟩ := hc.kept k u hu
    exact ⟨u', hother hu', hsame⟩

variable (hlive : s.liveTeam slug team = some t)

include hlive

theorem Continues.invited (hnew : s.invites.get (rosterKey slug team a) = none)
    (hfits : s.inviteCount.count a + 1 < 2 ^ 32) (inviter : Addr) :
    Continues rules s₀ (s.invited slug team a inviter) where
  joins := hc.joins
  invites := by
    refine ⟨hc.invites.mirror.set (rosterKey slug team a) inviter (),
      hc.invites.tally.set _ ?_ hfits⟩
    have hrev := hc.invites.mirror (rosterKey slug team a)
    exact has_eq_false_iff.mp (hrev.symm.trans (has_eq_false_iff.mpr hnew))
  roster := hc.roster
  teams := hc.teams
  seated := hc.seated
  pending := by
    intro slug' team' b hb
    have hb : (s.invites.set (rosterKey slug team a) inviter).has
      (rosterKey slug' team' b) = true :=
      hb
    rw [has_set, Bool.or_eq_true, decide_eq_true_eq, rosterKey_inj] at hb
    rcases hb with ⟨rfl, rfl, rfl⟩ | hb
    · exact ⟨t, liveTeam_eq_some.mp hlive⟩
    · exact hc.pending slug' team' b hb
  kept := hc.kept

/-- A curator may come to a live team if they curate nowhere else in the community and
their order is new and below the next one. -/
theorem Continues.enlisted {order : ℕ} (hfree : s.teamUser.get (toLex (a, slug)) = none)
    (hfits : s.teamUserCount.count a + 1 < 2 ^ 32) (hbelow : order < t.nextMemberOrder)
    (hfresh : ∀ b m, s.members.get (rosterKey slug team b) = some m → m.acceptedOrder ≠ order) :
    Continues rules s₀ (s.enlisted slug team a order) where
  joins := hc.joins
  invites := hc.invites
  roster := by
    refine ⟨?_, hc.roster.tally.set team hfree hfits, ?_, ?_⟩
    · intro slug' team' b
      show (s.members.set _ _).has _ = true ↔ (s.teamUser.set _ _).get _ = _
      rw [has_set, get_set, Bool.or_eq_true, decide_eq_true_eq, rosterKey_inj,
        hc.roster.index]
      by_cases hkey : b = a ∧ slug' = slug
      · obtain ⟨rfl, rfl⟩ := hkey
        simp [hfree, eq_comm]
      · have hne : toLex (b, slug') ≠ toLex (a, slug) := by simpa using hkey
        rw [if_neg hne]
        exact or_iff_right fun h => hkey ⟨h.2.2, h.1⟩
    · intro slug' team' b m hm
      rcases enlisted_get.mp hm with ⟨hkey, rfl⟩ | ⟨-, hm⟩
      · exact (rosterKey_inj.mp hkey).2.2.symm
      · exact hc.roster.address slug' team' b m hm
    · intro slug' team' b b' m n hm hn heq
      rcases enlisted_get.mp hm with ⟨hkey, rfl⟩ | ⟨-, hm'⟩ <;>
        rcases enlisted_get.mp hn with ⟨hkey', rfl⟩ | ⟨-, hn'⟩
      · exact (rosterKey_inj.mp (hkey.trans hkey'.symm)).2.2
      · obtain ⟨rfl, rfl, rfl⟩ := rosterKey_inj.mp hkey
        exact absurd heq.symm (hfresh b' n hn')
      · obtain ⟨rfl, rfl, rfl⟩ := rosterKey_inj.mp hkey'
        exact absurd heq (hfresh b m hm')
      · exact hc.roster.orders slug' team' b b' m n hm' hn' heq
  teams := hc.teams
  seated := by
    intro slug' team' b m hm
    rcases enlisted_get.mp hm with ⟨hkey, rfl⟩ | ⟨-, hm⟩
    · obtain ⟨rfl, rfl, rfl⟩ := rosterKey_inj.mp hkey
      obtain ⟨ht, htl⟩ := liveTeam_eq_some.mp hlive
      exact ⟨t, ht, htl, hbelow⟩
    · exact hc.seated slug' team' b m hm
  pending := hc.pending
  kept := hc.kept

variable (hsame : t.SameTeam t')

include hsame

/-- A live team's record may be replaced by one that goes on under its number, together
with the name index, if either it stays live and does not lower the next order or nobody
is on the team or invited to it. -/
theorem Continues.replaceTeam
    (hseats : t'.live = true ∧ t.nextMemberOrder ≤ t'.nextMemberOrder ∨
      (∀ b, s.members.get (rosterKey slug team b) = none) ∧
        ∀ b, s.invites.get (rosterKey slug team b) = none) (names : OrderedMap (Slug ×ₗ Name) ℕ)
    (hnames : ∀ slug' key id, names.get (toLex (slug', key)) = some id ↔
      ∃ u, (s.setCurationTeam t').teams.get (toLex (slug', id)) = some u ∧ u.live = true ∧
        rules.teamNameKey u.name = key) :
    Continues rules s₀ (({ s with teamName := names }).setCurationTeam t') := by
  obtain ⟨ht, htl⟩ := liveTeam_eq_some.mp hlive
  have hkey : toLex (t'.community, t'.teamId) = toLex (slug, team) := by
    obtain ⟨rfl, rfl⟩ := hc.teams.keyed slug team t ht
    rw [hsame.community, hsame.teamId]
  have hthe : ∀ {k u}, k = toLex (slug, team) → s.teams.get k = some u → u = t := by
    rintro _ u rfl hu
    exact Option.some.inj (hu.symm.trans ht)
  have hother : ∀ {k u}, k ≠ toLex (slug, team) → s.teams.get k = some u →
      (s.setCurationTeam t').teams.get k = some u := fun hk hu =>
    setCurationTeam_get.mpr (.inr ⟨hkey ▸ hk, hu⟩)
  have hown : ∀ {k}, k = toLex (slug, team) → (s.setCurationTeam t').teams.get k = some t' :=
    fun hk => setCurationTeam_get.mpr (.inl ⟨hk.trans hkey.symm, rfl⟩)
  refine ⟨⟨hc.joins, hc.invites, hc.roster, ⟨?_, ?_, hnames⟩, ?_, ?_⟩, ?_⟩
  · intro slug' id u hu
    rcases setCurationTeam_get.mp hu with ⟨hk, rfl⟩ | ⟨-, hu⟩
    · simpa [eq_comm] using hk
    · exact hc.teams.keyed slug' id u hu
  · intro slug' id u hu
    rcases setCurationTeam_get.mp hu with ⟨hk, rfl⟩ | ⟨-, hu⟩
    · exact hc.teams.below slug' id t (hk.trans hkey ▸ ht)
    · exact hc.teams.below slug' id u hu
  · intro slug' team' b m hm
    obtain ⟨u, hu, hul, hlt⟩ := hc.seated slug' team' b m hm
    by_cases hk : toLex (slug', team') = toLex (slug, team)
    · rcases hseats with ⟨hlive', horder⟩ | ⟨hnone, -⟩
      · cases hthe hk hu
        exact ⟨t', hown hk, hlive', hlt.trans_le horder⟩
      · obtain ⟨rfl, rfl⟩ : slug' = slug ∧ team' = team := by simpa using hk
        exact absurd (hm.symm.trans (hnone b)) (Option.some_ne_none m)
    · exact ⟨u, hother hk hu, hul, hlt⟩
  · intro slug' team' b hb
    obtain ⟨u, hu, hul⟩ := hc.pending slug' team' b hb
    by_cases hk : toLex (slug', team') = toLex (slug, team)
    · rcases hseats with ⟨hlive', -⟩ | ⟨-, hnone⟩
      · exact ⟨t', hown hk, hlive'⟩
      · obtain ⟨rfl, rfl⟩ : slug' = slug ∧ team' = team := by simpa using hk
        exact absurd (hb.symm.trans (has_eq_false_iff.mpr (hnone b))) Bool.true_eq_false.mp
    · exact ⟨u, hother hk hu, hul⟩
  · intro k u hu
    obtain ⟨u', hu', hsame'⟩ := hc.kept k u hu
    by_cases hk : k = toLex (slug, team)
    · cases hthe hk hu'
      exact ⟨t', hown hk, hsame'.trans hsame⟩
    · exact ⟨u', hother hk hu', hsame'⟩

theorem Continues.setCurationTeam (hlive' : t'.live = true)
    (hname : rules.teamNameKey t'.name = rules.teamNameKey t.name)
    (horder : t.nextMemberOrder ≤ t'.nextMemberOrder) :
    Continues rules s₀ (s.setCurationTeam t') := by
  refine hc.replaceTeam hlive hsame (.inl ⟨hlive', horder⟩) s.teamName ?_
  intro slug' key id
  rw [hc.teams.named_set hlive hsame]
  split
  · next hk =>
    obtain ⟨rfl, rfl⟩ := hk
    obtain ⟨ht, htl⟩ := liveTeam_eq_some.mp hlive
    simp [hc.teams.named, ht, htl, hlive', hname]
  · rfl

theorem Continues.renamed (hlive' : t'.live = true)
    (horder : t.nextMemberOrder ≤ t'.nextMemberOrder)
    (hfree : s.teamName.get (toLex (slug, rules.teamNameKey t'.name)) = none) :
    Continues rules s₀ (({ s with
      teamName := (s.teamName.erase (toLex (slug, rules.teamNameKey t.name))).set
        (toLex (slug, rules.teamNameKey t'.name)) team }).setCurationTeam t') := by
  refine hc.replaceTeam hlive hsame (.inl ⟨hlive', horder⟩) _ ?_
  intro slug' key id
  rw [hc.teams.named_set hlive hsame, get_set]
  by_cases hnew : toLex (slug', key) = toLex (slug, rules.teamNameKey t'.name)
  · obtain ⟨rfl, rfl⟩ : slug' = slug ∧ key = rules.teamNameKey t'.name := by simpa using hnew
    by_cases hid : id = team
    · simp [hid, hlive']
    · simp [hid, hfree, Ne.symm hid]
  · rw [if_neg hnew, hc.teams.named_erase hlive]
    by_cases hid : slug' = slug ∧ id = team
    · obtain ⟨rfl, rfl⟩ := hid
      have hne : rules.teamNameKey t'.name ≠ key := by simpa [eq_comm] using hnew
      simp [hne]
    · simp [hid]

/-- A team that nobody is on or invited to may end. -/
theorem Continues.disbanded (hgone : t'.live = false)
    (hmembers : ∀ b, s.members.get (rosterKey slug team b) = none)
    (hinvites : ∀ b, s.invites.get (rosterKey slug team b) = none) :
    Continues rules s₀ (({ s with
      teamName := s.teamName.erase (toLex (slug, rules.teamNameKey t.name)) }
      ).setCurationTeam t') := by
  refine hc.replaceTeam hlive hsame (.inr ⟨hmembers, hinvites⟩) _ ?_
  intro slug' key id
  rw [hc.teams.named_set hlive hsame, hc.teams.named_erase hlive]
  by_cases hid : slug' = slug ∧ id = team
  · simp [hid, hgone]
  · simp [hid]

end Writes

/-! ## 4. Functions -/

section Functions

variable {rules : TextRules} {p : Params} {height : ℤ} {profiles : Profiles}
  {s₀ s s' : CurationState} {slug : Slug} {team : ℕ} {owner : Addr}
  (hc : Continues rules s₀ s)

include hc

theorem Continues.of_joinCommunity
    (h : joinCommunity rules p s owner slug cap = .ok s') : Continues rules s₀ s' := by
  rcases joinCommunity_cases h with ⟨-, rfl⟩ | ⟨hnew, hfits, rfl⟩
  · exact hc
  · exact hc.joined hnew hfits

/-- A new subscriber count changes nothing the books look at. -/
theorem Continues.of_recounted (h : Recounted s s') : Continues rules s₀ s' := by
  rcases h with rfl | ⟨_, _, t, _, hlive, rfl⟩
  · exact hc
  · exact hc.setCurationTeam hlive ⟨rfl, rfl, rfl, rfl, id⟩ (liveTeam_eq_some.mp hlive).2 rfl le_rfl

theorem Continues.of_setCurationPreference
    (h : setCurationPreference s owner slug mode team paid = .ok s') : Continues rules s₀ s' := by
  obtain ⟨old, hold, rfl | ⟨m, s₁, s₂, -, h₁, h₂, rfl⟩⟩ := setCurationPreference_cases h
  · exact hc
  · have hjoins : s₂.joins = s.joins :=
      (recounted_addPaid h₂).joins.trans (recounted_removePaid h₁).joins
    exact ((hc.of_recounted (recounted_removePaid h₁)).of_recounted
      (recounted_addPaid h₂)).preferring
      (hjoins ▸ hold) _

theorem Continues.of_joinCommunityWithLens
    (h : joinCommunityWithLens rules p s owner slug cap mode team paid = .ok s') :
    Continues rules s₀ s' := by
  rcases joinCommunityWithLens_cases h with rfl | ⟨lens, s₁, h₁, h₂⟩
  · exact hc
  · exact (hc.of_joinCommunity h₁).of_setCurationPreference h₂

theorem Continues.of_clearInvite
    (h : clearInvite s slug team owner = .ok s') : Continues rules s₀ s' := by
  rcases clearInvite_cases h with ⟨-, rfl⟩ | ⟨hhas, rfl⟩
  · exact hc
  · exact hc.uninvited hhas

theorem Continues.of_clearPendingInvite
    (h : clearPendingInvite s slug team owner = .ok s') : Continues rules s₀ s' := by
  obtain ⟨hhas, rfl⟩ := clearPendingInvite_cases h
  exact hc.uninvited hhas

theorem Continues.of_removeCuratorFromTeam
    (h : removeCuratorFromTeam p s slug team owner = .ok s') : Continues rules s₀ s' := by
  obtain ⟨m, hm, rfl⟩ := removeCuratorFromTeam_cases h
  exact hc.discharged hm

theorem Continues.of_deleteCurationTeam (hheight : height ≠ 0)
    (h : deleteCurationTeam rules p height s slug team = .ok s') : Continues rules s₀ s' := by
  obtain ⟨t, s₁, s₂, hlive, h₁, h₂, rfl⟩ := deleteCurationTeam_cases h
  obtain ⟨hframe₁, hmembers, -⟩ := dischargeAll_spec h₁
  obtain ⟨hframe₂, hinvites⟩ := uninviteAll_spec h₂
  have hc₁ : Continues rules s₀ s₁ :=
    foldlM_ok_induction (fun a _ _ _ h hc => Continues.of_removeCuratorFromTeam hc h) h₁ hc
  have hc₂ : Continues rules s₀ s₂ :=
    foldlM_ok_induction (fun a _ _ _ h hc => Continues.of_clearInvite hc h) h₂ hc₁
  have hteams₂ : s₂.teams = s₁.teams := by rw [hframe₂]
  have hteams₁ : s₁.teams = s.teams := by rw [hframe₁]
  have hroster : s₂.members = s₁.members := by rw [hframe₂]
  refine hc₂.disbanded (t := t) ?_ ⟨rfl, rfl, rfl, rfl, ?_⟩ ?_ (hroster ▸ hmembers) hinvites
  · rw [liveTeam_eq_some, hteams₂, hteams₁]
    exact liveTeam_eq_some.mp hlive
  · exact fun _ => decide_eq_false hheight
  · exact decide_eq_false hheight

theorem Continues.of_removeCurationMembership (hheight : height ≠ 0)
    (h : removeCurationMembership rules p height profiles s owner slug team = .ok s') :
    Continues rules s₀ s' := by
  rcases removeCurationMembership_cases h with
    ⟨-, rfl⟩ | ⟨t, hlive, ⟨-, h⟩ | ⟨-, -, h⟩ | ⟨-, next, s₁, -, h₁, rfl⟩⟩
  · exact hc
  · exact hc.of_removeCuratorFromTeam h
  · exact hc.of_deleteCurationTeam hheight h
  · obtain ⟨m, -, rfl⟩ := removeCuratorFromTeam_cases h₁
    exact (hc.of_removeCuratorFromTeam h₁).setCurationTeam (t := t) hlive ⟨rfl, rfl, rfl, rfl, id⟩
      (liveTeam_eq_some.mp hlive).2 rfl le_rfl

theorem Continues.of_leaveTeam (hheight : height ≠ 0)
    (h : leaveTeam rules p height profiles s owner slug = .ok s') : Continues rules s₀ s' := by
  rcases leaveTeam_cases h with ⟨rfl, -⟩ | ⟨team, -, h⟩
  · exact hc
  · exact hc.of_removeCurationMembership hheight h

theorem Continues.of_leaveCommunity (hheight : height ≠ 0)
    (h : leaveCommunity rules p height profiles s owner slug paid = .ok s') :
    Continues rules s₀ s' := by
  obtain ⟨pref, s₁, s₂, hpref, h₁, h₂, rfl⟩ := leaveCommunity_cases h
  have hjoins : s₂.joins = s.joins :=
    (recounted_removePaid h₂).joins.trans (joins_leaveTeam h₁)
  exact ((hc.of_leaveTeam hheight h₁).of_recounted (recounted_removePaid h₂)).left (hjoins ▸ hpref)

theorem Continues.of_shiftContribution
    (h : shiftContribution owner after s slug = .ok s') : Continues rules s₀ s' := by
  obtain ⟨pref, -, ⟨-, h⟩ | ⟨-, h⟩⟩ := shiftContribution_cases h
  · exact hc.of_recounted (recounted_addSubscriber h)
  · exact hc.of_recounted (recounted_removeSubscriber h)

theorem Continues.of_clearPendingInvitationsForTarget
    (h : clearPendingInvitationsForTarget s owner = .ok s') : Continues rules s₀ s' :=
  foldlM_ok_induction (fun _ _ _ _ h hc => Continues.of_clearInvite hc h) h hc

theorem Continues.of_transitionCurationEligibility (hheight : height ≠ 0) {before : Bool}
    (h : transitionCurationEligibility rules p height profiles s owner before after = .ok s') :
    Continues rules s₀ s' := by
  rcases transitionCurationEligibility_cases h with ⟨-, rfl⟩ | ⟨-, s₁, h₁, hrest⟩
  · exact hc
  · have hc₁ : Continues rules s₀ s₁ :=
      foldlM_ok_induction (fun _ _ _ _ h hc => Continues.of_shiftContribution hc h) h₁ hc
    rcases hrest with ⟨-, rfl⟩ | ⟨-, s₂, h₂, h₃⟩
    · exact hc₁
    · exact foldlM_ok_induction
        (fun _ _ _ _ h hc => Continues.of_removeCurationMembership hc hheight h) h₃
        (hc₁.of_clearPendingInvitationsForTarget h₂)

theorem Continues.of_createCurationTeam
    (h : createCurationTeam rules p height profiles s owner slug name description = .ok s') :
    Continues rules s₀ s' := by
  obtain ⟨core, text, cap, s₁, -, -, huser, hname, hfits, h₁, h₂⟩ := createCurationTeam_cases h
  have hfounded := hc.founded
    (t := .fresh slug (s.nextTeamId slug) owner name text height) rfl rfl rfl hname
  have hlive : (s.founded (.fresh slug (s.nextTeamId slug) owner name text height)
      (rules.teamNameKey name)).liveTeam slug (s.nextTeamId slug) =
      some (.fresh slug (s.nextTeamId slug) owner name text height) :=
    liveTeam_eq_some.mpr ⟨get_set_self _ _ _, rfl⟩
  refine Continues.of_setCurationPreference (Continues.of_joinCommunity ?_ h₁) h₂
  refine hfounded.enlisted hlive huser hfits Nat.one_lt_two ?_
  -- nobody is on a team that was not there
  intro b m hm
  obtain ⟨u, hu, -⟩ := hc.seated slug _ b m hm
  exact absurd (hu.symm.trans hc.get_nextTeamId) (Option.some_ne_none u)

theorem Continues.of_inviteCurator {target : Addr}
    (h : inviteCurator p profiles s owner slug team target = .ok s') : Continues rules s₀ s' := by
  obtain ⟨t, hlive, hnone, -, hfits, rfl⟩ := inviteCurator_cases h
  exact hc.invited hlive hnone hfits owner

theorem Continues.of_acceptCuratorInvite
    (h : acceptCuratorInvite rules p profiles s owner slug team = .ok s') :
    Continues rules s₀ s' := by
  obtain ⟨t, cap, s₁, hlive, -, huser, -, h₁, hfits, h₂⟩ := acceptCuratorInvite_cases h
  obtain ⟨hteams, hroster, husers⟩ := frame_joinCommunity h₁
  have hc₁ := hc.of_joinCommunity h₁
  have hlive₁ : s₁.liveTeam slug team = some t := by
    rw [liveTeam_eq_some, hteams]
    exact liveTeam_eq_some.mp hlive
  obtain ⟨ht, htl⟩ := liveTeam_eq_some.mp hlive₁
  have hc₂ : Continues rules s₀
      (s₁.setCurationTeam { t with nextMemberOrder := t.nextMemberOrder + 1 }) :=
    hc₁.setCurationTeam hlive₁ ⟨rfl, rfl, rfl, rfl, id⟩ htl rfl (Nat.le_succ _)
  have hkey := hc₁.teams.keyed slug team t ht
  refine Continues.of_clearInvite (hc₂.enlisted
    (t := { t with nextMemberOrder := t.nextMemberOrder + 1 }) ?_ (husers ▸ huser) hfits
    (Nat.lt_succ_self _) ?_) h₂
  · obtain ⟨rfl, rfl⟩ := hkey
    exact liveTeam_eq_some.mpr ⟨get_set_self _ _ _, htl⟩
  · intro b m hm
    obtain ⟨u, hu, -, hlt⟩ := hc₁.seated slug team b m hm
    cases hu.symm.trans ht
    exact hlt.ne

theorem Continues.of_updateCurationTeamProfile
    (h : updateCurationTeamProfile rules p profiles s owner slug team name description = .ok s') :
    Continues rules s₀ s' := by
  obtain ⟨t, text, hlive, ⟨hsame, rfl⟩ | ⟨-, hfree, rfl⟩⟩ := updateCurationTeamProfile_cases h
  · exact hc.setCurationTeam hlive ⟨rfl, rfl, rfl, rfl, id⟩ (liveTeam_eq_some.mp hlive).2 hsame.symm
      le_rfl
  · have hsame : t.SameTeam { t with name := name, description := text } :=
      ⟨rfl, rfl, rfl, rfl, id⟩
    exact hc.renamed hlive hsame (liveTeam_eq_some.mp hlive).2 le_rfl hfree

/-- Records that the books do not look at: the owner, the tag and who may post. -/
theorem Continues.decorated (hlive : s.liveTeam slug team = some t) (newOwner : Addr) (tag : Text)
    (subscriberOnly : Bool) :
    Continues rules s₀ (s.setCurationTeam
      { t with owner := newOwner, tag := tag, subscriberOnly := subscriberOnly }) :=
  hc.setCurationTeam hlive ⟨rfl, rfl, rfl, rfl, id⟩ (liveTeam_eq_some.mp hlive).2 rfl le_rfl

end Functions

/-! ## 5. Errors -/

/-- The errors that stand for books out of order: a counter below zero, a join without its
reverse record or without its preference, also where a caller wraps them. -/
def ChainError.Corrupt : ChainError → Prop
  | counterRange current delta => current + delta < 0
  | joinReverseMissing _ _ => True
  | joinPreferenceMissing _ _ => True
  | founderJoin _ _ e => e.Corrupt
  | founderPin _ _ _ e => e.Corrupt
  | levelTransition e => e.Corrupt
  | _ => False

/-- The error of a subscriber count below zero, also where a caller wraps it. -/
def ChainError.Underflow : ChainError → Prop
  | subscriberUnderflow _ _ => True
  | founderJoin _ _ e => e.Underflow
  | founderPin _ _ _ e => e.Underflow
  | levelTransition e => e.Underflow
  | _ => False

/-- The errors that no function should return. -/
def ChainError.Serious : ChainError → Prop
  | counterRange current delta => current + delta < 0
  | joinReverseMissing _ _ => True
  | joinPreferenceMissing _ _ => True
  | subscriberUnderflow _ _ => True
  | founderJoin _ _ e => e.Serious
  | founderPin _ _ _ e => e.Serious
  | levelTransition e => e.Serious
  | _ => False

theorem ChainError.Corrupt.serious {e : ChainError} (h : e.Corrupt) : e.Serious := by
  induction e with
  | founderJoin _ _ e ih => exact ih h
  | founderPin _ _ _ e ih => exact ih h
  | levelTransition e ih => exact ih h
  | _ => first | exact h | exact h.elim

theorem ChainError.Underflow.serious {e : ChainError} (h : e.Underflow) : e.Serious := by
  induction e with
  | founderJoin _ _ e ih => exact ih h
  | founderPin _ _ _ e ih => exact ih h
  | levelTransition e ih => exact ih h
  | _ => first | exact h.elim | exact h

theorem avoids_corrupt {α : Type} {x : Except ChainError α} (h : Avoids ChainError.Serious x) :
    Avoids ChainError.Corrupt x := h.mono fun _ => ChainError.Corrupt.serious

section Errors

variable {bad : ChainError → Prop} {rules : TextRules} {p : Params} {height : ℤ}
  {profiles : Profiles}
  {s s' : CurationState} {slug : Slug} {team : ℕ} {owner : Addr}

theorem addCheckedU32_inc_avoids {m : OrderedMap Addr ℕ} {addr : Addr} :
    Avoids ChainError.Serious (addCheckedU32 m addr 1) := by
  refine addCheckedU32_avoids fun h => ?_
  have h : (m.count addr : ℤ) + 1 < 0 := h
  omega

theorem addCheckedU32_dec_avoids {m : OrderedMap Addr ℕ} {addr : Addr} (hpos : 0 < m.count addr) :
    Avoids ChainError.Serious (addCheckedU32 m addr (-1)) := by
  refine addCheckedU32_avoids fun h => ?_
  have h : (m.count addr : ℤ) + -1 < 0 := h
  omega

theorem joinCommunity_avoids :
    Avoids ChainError.Serious (joinCommunity rules p s owner slug cap) := by
  unfold joinCommunity
  refine (liftText_avoids _ fun _ => id).bind fun _ _ => ?_
  split
  · exact .ok s
  · exact (Avoids.failIf fun _ => id).bind fun _ _ => (Avoids.failIf fun _ => id).bind fun _ _ =>
      addCheckedU32_inc_avoids.bind fun _ _ => .ok _

theorem clearInvite_avoids (hb : InviteBook s.invites s.inviteRev s.inviteCount) :
    Avoids ChainError.Serious (clearInvite s slug team owner) := by
  unfold clearInvite
  split
  · next hhas =>
    obtain ⟨u, hu⟩ := has_iff.mp ((hb.mirror _).symm.trans hhas)
    exact (addCheckedU32_dec_avoids (hb.tally.rows.pos hu)).bind fun _ _ => .ok _
  · exact .ok s

theorem clearPendingInvite_avoids (hb : Bookkept rules s) :
    Avoids ChainError.Serious (clearPendingInvite s slug team owner) :=
  (Avoids.failIf fun _ => id).bind fun _ _ => clearInvite_avoids hb.invites

theorem removeCuratorFromTeam_avoids (hb : Bookkept rules s) :
    Avoids ChainError.Serious (removeCuratorFromTeam p s slug team owner) := by
  unfold removeCuratorFromTeam
  cases hm : s.members.get (rosterKey slug team owner) with
  | none => exact .error id
  | some m =>
    have huser := (hb.roster.index slug team owner).mp (has_iff.mpr ⟨m, hm⟩)
    exact (addCheckedU32_dec_avoids (hb.roster.tally.rows.pos huser)).bind fun _ _ =>
      ((Avoids.failIf fun _ => id).bind fun _ _ => .ok _).bind fun _ _ => .ok _

/-- The books as they stand. -/
theorem Bookkept.self (hb : Bookkept rules s) : Continues rules s s := ⟨hb, .refl s⟩

theorem deleteCurationTeam_avoids (hb : Bookkept rules s) :
    Avoids ChainError.Serious (deleteCurationTeam rules p height s slug team) := by
  unfold deleteCurationTeam
  cases s.liveTeam slug team with
  | none => exact .error id
  | some t =>
    have hkeep₁ : ∀ s₁ a s₂, Bookkept rules s₁ →
        removeCuratorFromTeam p s₁ slug team a = .ok s₂ → Bookkept rules s₂ :=
      fun _ _ _ hb h => (hb.self.of_removeCuratorFromTeam h).toBookkept
    have hkeep₂ : ∀ s₁ a s₂, Bookkept rules s₁ →
        clearInvite s₁ slug team a = .ok s₂ → Bookkept rules s₂ :=
      fun _ _ _ hb h => (hb.self.of_clearInvite h).toBookkept
    refine (Avoids.foldlM (fun _ _ => removeCuratorFromTeam_avoids) hkeep₁ hb).bind fun s₁ h₁ => ?_
    have hb₁ : Bookkept rules s₁ :=
      foldlM_ok_induction (fun a _ s₁ s₂ h hb => hkeep₁ s₁ a s₂ hb h) h₁ hb
    exact (Avoids.foldlM (fun _ _ hb => clearInvite_avoids hb.invites) hkeep₂ hb₁).bind
      fun _ _ => .ok _

theorem removeCurationMembership_avoids (hb : Bookkept rules s) :
    Avoids ChainError.Serious
      (removeCurationMembership rules p height profiles s owner slug team) := by
  unfold removeCurationMembership
  split
  · exact .ok s
  · split
    · exact removeCuratorFromTeam_avoids hb
    · split
      · exact deleteCurationTeam_avoids hb
      · exact (removeCuratorFromTeam_avoids hb).bind fun _ _ => .ok _

theorem leaveTeam_avoids (hb : Bookkept rules s) :
    Avoids ChainError.Serious (leaveTeam rules p height profiles s owner slug) := by
  unfold leaveTeam
  split
  · split
    · exact removeCurationMembership_avoids hb
    · exact .ok s
  · exact .ok s

theorem inviteCurator_avoids {target : Addr} :
    Avoids ChainError.Serious (inviteCurator p profiles s owner slug team target) := by
  unfold inviteCurator
  split
  · exact .error id
  · exact (Avoids.failIf fun _ => id).bind fun _ _ => (Avoids.failIf fun _ => id).bind fun _ _ =>
      (Avoids.failIf fun _ => id).bind fun _ _ => (Avoids.failIf fun _ => id).bind fun _ _ =>
      (Avoids.failIf fun _ => id).bind fun _ _ =>
      ((Avoids.failIf fun _ => id).bind fun _ _ => .ok _).bind fun _ _ =>
      (Avoids.failIf fun _ => id).bind fun _ _ =>
      ((Avoids.failIf fun _ => id).bind fun _ _ => .ok _).bind fun _ _ =>
      (Avoids.failIf fun _ => id).bind fun _ _ => (Avoids.failIf fun _ => id).bind fun _ _ =>
      (Avoids.failIf fun _ => id).bind fun _ _ => addCheckedU32_inc_avoids.bind fun _ _ => .ok _

theorem acceptCuratorInvite_avoids (hb : Bookkept rules s) :
    Avoids ChainError.Serious (acceptCuratorInvite rules p profiles s owner slug team) := by
  unfold acceptCuratorInvite
  refine (Avoids.failIf fun _ => id).bind fun _ _ => ?_
  split
  · exact .error id
  split
  · exact .error id
  refine (Avoids.failIf fun _ => id).bind fun _ _ => (Avoids.failIf fun _ => id).bind fun _ _ => ?_
  split
  · exact .error id
  refine (Avoids.failIf fun _ => id).bind fun _ _ =>
    ((Avoids.failIf fun _ => id).bind fun _ _ => .ok _).bind fun _ _ =>
    (Avoids.failIf fun _ => id).bind fun _ _ => joinCommunity_avoids.bind fun s₁ h₁ =>
    (Avoids.failIf fun _ => id).bind fun _ _ => (liftCore_avoids _ fun _ => id).bind fun _ _ =>
    addCheckedU32_inc_avoids.bind fun _ _ => ?_
  -- neither the join nor the new roster record touches invitations
  exact clearInvite_avoids (hb.self.of_joinCommunity h₁).invites

theorem removeSubscriberContribution_avoids :
    Avoids ChainError.Corrupt (removeSubscriberContribution s slug pref) := by
  unfold removeSubscriberContribution uncountSubscriber
  split
  · exact .ok s
  · split
    · exact .error id
    · exact (Avoids.failIf fun _ => id).bind fun _ _ => .ok _

theorem addSubscriberContribution_avoids :
    Avoids ChainError.Serious (addSubscriberContribution s slug pref) := by
  unfold addSubscriberContribution countSubscriber
  split
  · exact .ok s
  · split
    · exact .error id
    · exact (liftCore_avoids _ fun _ => id).bind fun _ _ => .ok _

theorem removePaidContribution_avoids :
    Avoids ChainError.Corrupt (removePaidContribution s slug pref paid) := by
  cases paid with
  | true => exact removeSubscriberContribution_avoids
  | false => exact .ok s

theorem addPaidContribution_avoids :
    Avoids ChainError.Serious (addPaidContribution s slug pref paid) := by
  cases paid with
  | true => exact addSubscriberContribution_avoids
  | false => exact .ok s

theorem checkPreference_avoids :
    Avoids ChainError.Serious (checkPreference s owner slug mode team) := by
  unfold checkPreference
  split
  · exact (Avoids.failIf fun _ => id).bind fun _ _ => (Avoids.failIf fun _ => id).bind fun _ _ =>
      (Avoids.failIf fun _ => id).bind fun _ _ => .ok _
  · exact (Avoids.failIf fun _ => id).bind fun _ _ => .ok _
  · exact .error id

/-- A preference that changes fails seriously only where taking back the old contribution does. -/
theorem setCurationPreference_avoids (hbad : ∀ e, bad e → e.Serious)
    (hremove : ∀ old, s.joins.get (toLex (owner, slug)) = some old →
      Avoids bad (removePaidContribution s slug old paid)) :
    Avoids bad (setCurationPreference s owner slug mode team paid) := by
  unfold setCurationPreference
  split
  · exact .error (mt (hbad _) id)
  · next old hold =>
    refine (checkPreference_avoids.mono hbad).bind fun _ _ => ?_
    split
    · exact .ok s
    · exact (hremove old hold).bind fun _ _ =>
        (addPaidContribution_avoids.mono hbad).bind fun _ _ => .ok _

theorem resolveJoinLens_avoids :
    Avoids ChainError.Serious (resolveJoinLens s owner slug mode team) := by
  unfold resolveJoinLens
  split
  · exact (Avoids.failIf fun _ => id).bind fun _ _ => .ok _
  · exact (Avoids.failIf fun _ => id).bind fun _ _ => (Avoids.failIf fun _ => id).bind fun _ _ =>
      (Avoids.failIf fun _ => id).bind fun _ _ => .ok _
  · refine (Avoids.failIf fun _ => id).bind fun _ _ => ?_
    split <;> exact .ok _
  · exact .error id

theorem joinCommunityWithLens_avoids (hbad : ∀ e, bad e → e.Serious)
    (hset : ∀ s₁ mode team, joinCommunity rules p s owner slug cap = .ok s₁ →
      Avoids bad (setCurationPreference s₁ owner slug mode team paid)) :
    Avoids bad (joinCommunityWithLens rules p s owner slug cap mode team paid) := by
  unfold joinCommunityWithLens
  split
  · exact .ok s
  · exact (resolveJoinLens_avoids.mono hbad).bind fun lens _ =>
      (joinCommunity_avoids.mono hbad).bind fun s₁ h₁ => hset s₁ lens.1 lens.2 h₁

theorem leaveCommunity_avoids (hbad : ∀ e, bad e → e.Serious) (hb : Bookkept rules s)
    (hheight : height ≠ 0)
    (hremove : ∀ pref s₁, s.joins.get (toLex (owner, slug)) = some pref →
      leaveTeam rules p height profiles s owner slug = .ok s₁ →
      Avoids bad (removePaidContribution s₁ slug pref paid)) :
    Avoids bad (leaveCommunity rules p height profiles s owner slug paid) := by
  unfold leaveCommunity
  split
  · exact .error (mt (hbad _) id)
  · next pref hpref =>
    refine ((leaveTeam_avoids hb).mono hbad).bind fun s₁ h₁ =>
      (hremove pref s₁ hpref h₁).bind fun s₂ h₂ => ?_
    have hc := ((hb.self.of_leaveTeam hheight h₁).of_recounted (recounted_removePaid h₂)).joins
    have hjoin : s₂.joins.get (toLex (owner, slug)) = some pref := by
      rw [(recounted_removePaid h₂).joins, joins_leaveTeam h₁]
      exact hpref
    refine (Avoids.failIf fun hmissing => ?_).bind fun _ _ => ?_
    · exact absurd ((hc.mirror _).symm.trans (has_iff.mpr ⟨pref, hjoin⟩)) hmissing
    · exact ((addCheckedU32_dec_avoids (hc.tally.rows.pos hjoin)).mono hbad).bind fun _ _ => .ok _

theorem joins_shiftContribution (h : shiftContribution owner after s slug = .ok s') :
    s'.joins = s.joins := by
  obtain ⟨pref, -, ⟨-, h⟩ | ⟨-, h⟩⟩ := shiftContribution_cases h
  · exact (recounted_addSubscriber h).joins
  · exact (recounted_removeSubscriber h).joins

/-- The loop over the joined communities finds their preferences. -/
theorem shiftContributions_avoids {slugs : List Slug}
    (hjoined : ∀ slug ∈ slugs, s.joins.has (toLex (owner, slug)) = true) :
    Avoids ChainError.Corrupt (slugs.foldlM (shiftContribution owner after) s) := by
  induction slugs generalizing s with
  | nil => exact .ok s
  | cons slug slugs ih =>
    rw [List.foldlM_cons]
    refine Avoids.bind ?_ fun s₁ h₁ => ih ?_
    · obtain ⟨pref, hpref⟩ := has_iff.mp (hjoined slug List.mem_cons_self)
      unfold shiftContribution getPreference
      rw [hpref]
      cases after with
      | true => exact avoids_corrupt addSubscriberContribution_avoids
      | false => exact removeSubscriberContribution_avoids
    · rw [joins_shiftContribution h₁]
      exact fun slug' hslug' => hjoined slug' (List.mem_cons_of_mem slug hslug')

theorem clearPendingInvitationsForTarget_avoids (hb : Bookkept rules s) :
    Avoids ChainError.Serious (clearPendingInvitationsForTarget s owner) :=
  Avoids.foldlM (I := Bookkept rules) (fun _ _ hb => clearInvite_avoids hb.invites)
    (fun _ _ _ hb h => (hb.self.of_clearInvite h).toBookkept) hb

/-- A move to another eligibility fails seriously only where moving the contributions does. -/
theorem transitionCurationEligibility_avoids (hbad : ∀ e, bad e → e.Serious)
    (hb : Bookkept rules s) (hheight : height ≠ 0) {before : Bool}
    (hshift : before ≠ after →
      Avoids bad ((s.joinedCommunities owner).foldlM (shiftContribution owner after) s)) :
    Avoids bad (transitionCurationEligibility rules p height profiles s owner before after) := by
  unfold transitionCurationEligibility
  split
  · exact .ok s
  · next hmoved =>
    refine (hshift hmoved).bind fun s₁ h₁ => ?_
    have hb₁ : Bookkept rules s₁ := foldlM_ok_induction
      (fun _ _ _ _ h hb => (Bookkept.self hb).of_shiftContribution h |>.toBookkept) h₁ hb
    split
    · exact .ok s₁
    · refine ((clearPendingInvitationsForTarget_avoids hb₁).mono hbad).bind fun s₂ h₂ => ?_
      exact Avoids.foldlM (I := Bookkept rules)
        (fun _ _ hb => (removeCurationMembership_avoids hb).mono hbad)
        (fun _ _ _ hb h => (hb.self.of_removeCurationMembership hheight h).toBookkept)
        (hb₁.self.of_clearPendingInvitationsForTarget h₂).toBookkept

theorem createCurationTeam_avoids (hbad : ∀ e, bad e → e.Serious)
    (hset : ∀ core text cap s₁, profiles.get owner = some core → joinCommunity rules p
        ((s.founded (.fresh slug (s.nextTeamId slug) owner name text height)
          (rules.teamNameKey name)).enlisted slug (s.nextTeamId slug) owner 1)
        owner slug cap = .ok s₁ →
      Avoids bad (setCurationPreference s₁ owner slug 1 (s.nextTeamId slug) (canCurate core))) :
    Avoids bad (createCurationTeam rules p height profiles s owner slug name description) := by
  have hquiet : ∀ {e : ChainError}, ¬ e.Serious → ¬ bad e := fun he hbad' => he (hbad _ hbad')
  unfold createCurationTeam
  refine (liftText_avoids _ fun _ => hquiet id).bind fun _ _ =>
    (liftText_avoids _ fun _ => hquiet id).bind fun _ _ =>
    (liftText_avoids _ fun _ => hquiet id).bind fun text _ => ?_
  split
  · exact .error (hquiet id)
  next core hcore =>
  refine (Avoids.failIf fun _ => hquiet id).bind fun _ _ =>
    (Avoids.failIf fun _ => hquiet id).bind fun _ _ =>
    (Avoids.failIf fun _ => hquiet id).bind fun _ _ => ?_
  split
  · exact .error (hquiet id)
  refine (Avoids.failIf fun _ => hquiet id).bind fun _ _ =>
    (liftCore_avoids _ fun _ => hquiet id).bind fun next hnext =>
    (addCheckedU32_inc_avoids.mono hbad).bind fun counts hcounts =>
    (joinCommunity_avoids.mono hbad).bind fun s₁ h₁ => ?_
  simp only [liftCore_eq_ok, checkedAddUint64_eq_ok] at hnext
  obtain ⟨-, rfl⟩ := hnext
  obtain ⟨-, rfl⟩ := addCheckedU32_inc hcounts
  exact hset core text _ s₁ hcore h₁

theorem rerouteBannedUserPreference_avoids (hbad : ∀ e, bad e → e.Serious) {target : Addr}
    (hset : ∀ core mode next, profiles.get target = some core →
      Avoids bad (setCurationPreference s target slug mode next (canCurate core))) :
    Avoids bad (rerouteBannedUserPreference profiles s slug team target) := by
  unfold rerouteBannedUserPreference
  split
  · exact .ok s
  · split
    · exact .ok s
    · split
      · exact .ok s
      · split
        · exact .error (mt (hbad _) id)
        · next core hcore => split <;> exact hset core _ _ hcore

theorem requireTeamOwner_avoids : Avoids ChainError.Serious
    (requireTeamOwner profiles s owner slug team) := by
  unfold requireTeamOwner
  split
  · exact .error id
  · exact (Avoids.failIf fun _ => id).bind fun _ _ => (Avoids.failIf fun _ => id).bind
      fun _ _ => .ok _

theorem updateCurationTeamProfile_avoids :
    Avoids ChainError.Serious
      (updateCurationTeamProfile rules p profiles s owner slug team name description) := by
  unfold updateCurationTeamProfile
  refine requireTeamOwner_avoids.bind fun _ _ => (liftText_avoids _ fun _ => id).bind fun _ _ =>
    (liftText_avoids _ fun _ => id).bind fun _ _ => ?_
  dsimp only
  split
  · exact (Avoids.failIf fun _ => id).bind fun _ _ => .ok _
  · exact .ok _

theorem setCurationTeamOwner_avoids {newOwner : Addr} :
    Avoids ChainError.Serious (setCurationTeamOwner profiles s slug team newOwner) := by
  unfold setCurationTeamOwner
  split
  · exact .error id
  · exact (Avoids.failIf fun _ => id).bind fun _ _ => (Avoids.failIf fun _ => id).bind fun _ _ =>
      (Avoids.failIf fun _ => id).bind fun _ _ => .ok _

end Errors

/-! ## 6. Blocked communities -/

section Blocked

variable {b b' : BlockedCommunities} {owner : Addr} {pattern : Text}

variable (ht : Tally b.idx b.counts)

include ht

theorem Tally.of_remove (h : b.remove owner pattern = .ok b') : Tally b'.idx b'.counts := by
  unfold BlockedCommunities.remove at h
  cases hidx : b.idx.get (toLex (owner, pattern)) with
  | none =>
    rw [hidx] at h
    exact Except.ok.inj h ▸ ht
  | some seq =>
    simp only [hidx, bind_eq_ok, pure_eq_ok] at h
    obtain ⟨c, hc, rfl⟩ := h
    obtain ⟨-, rfl⟩ := addCheckedU32_dec hc
    exact ht.erase hidx

theorem remove_avoids : Avoids ChainError.Serious (b.remove owner pattern) := by
  unfold BlockedCommunities.remove
  split
  · exact .ok b
  · next seq hidx => exact (addCheckedU32_dec_avoids (ht.rows.pos hidx)).bind fun _ _ => .ok _

theorem Tally.of_evictOldest (h : b.evictOldest owner = .ok b') : Tally b'.idx b'.counts := by
  unfold BlockedCommunities.evictOldest at h
  split at h
  · exact Except.ok.inj h ▸ ht
  · exact ht.of_remove h

theorem evictOldest_avoids : Avoids ChainError.Serious (b.evictOldest owner) := by
  unfold BlockedCommunities.evictOldest
  split
  · exact .ok b
  · exact remove_avoids ht

/-- The lists once a pattern was added, before the oldest one goes. -/
theorem Tally.added (hnew : ¬ b.idx.has (toLex (owner, pattern)) = true)
    {counts : OrderedMap Addr ℕ} (hcounts : addCheckedU32 b.counts owner 1 = .ok counts) (seq : ℕ) :
    Tally (b.idx.set (toLex (owner, pattern)) seq) counts := by
  obtain ⟨hfits, rfl⟩ := addCheckedU32_inc hcounts
  exact ht.set seq (has_eq_false_iff.mp (by simpa using hnew)) hfits

theorem Tally.of_add (h : b.add owner pattern cap = .ok b') : Tally b'.idx b'.counts := by
  unfold BlockedCommunities.add at h
  split at h
  · exact Except.ok.inj h ▸ ht
  · next hnew =>
    simp only [bind_eq_ok, failIf_eq_ok, exists_const, mapError_eq_ok] at h
    obtain ⟨-, next, -, counts, hcounts, h⟩ := h
    have hadded := ht.added hnew hcounts
    split at h
    · exact Tally.of_evictOldest (hadded _) h
    · rw [pure_eq_ok] at h
      exact h ▸ hadded _

theorem add_avoids : Avoids ChainError.Serious (b.add owner pattern cap) := by
  unfold BlockedCommunities.add
  split
  · exact .ok b
  · next hnew =>
    refine (Avoids.failIf fun _ => id).bind fun _ _ =>
      (Avoids.mapError fun _ _ => id).bind fun _ _ =>
      addCheckedU32_inc_avoids.bind fun counts hcounts => ?_
    dsimp only
    split
    · exact evictOldest_avoids (ht.added hnew hcounts _)
    · exact .ok _

end Blocked

end MirageNode
