import MirageNode.CurationRuns
import MirageNode.Lib.Ranking
import MirageNode.SubscriberCounts

/-!
# Bans and lenses

A team can ban a user, who then must not be pinned to it. A ban therefore moves the user's
preference to the best team that has not banned them, or to the raw feed. The same team is
what a join with the default lens is resolved to, and what the web backend shows by a query of
its own.

No live team has a user pinned that it has banned, in every state of every run, and the three
choices agree (`bans_and_lenses`).
-/

namespace MirageNode

open OrderedStore OrderedMap Fallible CurationState Ranking

/-! ## 1. The default team -/

/-- Whether the team has banned the account. -/
def CurationState.banned (s : CurationState) (slug : Slug) (team : ℕ) (a : Addr) : Bool :=
  s.hiddenUsers.has (rosterKey slug team a)

/-- What the teams of a community are ranked by: more subscribers first, then the earlier
creation, then the lower number. -/
def CurationTeam.rank (t : CurationTeam) : ℕᵒᵈ ×ₗ ℕ ×ₗ ℕ :=
  toLex (.toDual t.subscriberCount, toLex (t.createdOrder, t.teamId))

/-- A live team that has not banned the account, and no other such team has more subscribers,
or as many and was created before, or both alike and has a lower number. -/
structure DefaultTeam (s : CurationState) (slug : Slug) (a : Addr) (t : CurationTeam) : Prop where
  live : s.liveTeam slug t.teamId = some t
  unbanned : s.banned slug t.teamId a = false
  first : ∀ id u, s.liveTeam slug id = some u → s.banned slug id a = false → u ≠ t →
    u.subscriberCount < t.subscriberCount ∨
    u.subscriberCount = t.subscriberCount ∧ (t.createdOrder < u.createdOrder ∨
      t.createdOrder = u.createdOrder ∧ t.teamId < u.teamId)

/-- Every live team of the community has banned the account. -/
def NoTeamFor (s : CurationState) (slug : Slug) (a : Addr) : Prop :=
  ∀ id t, s.liveTeam slug id = some t → s.banned slug id a = true

section Rank

variable {s : CurationState} {slug : Slug} {a : Addr} {t u : CurationTeam}

theorem CurationTeam.rank_lt_iff : t.rank < u.rank ↔ u.subscriberCount < t.subscriberCount ∨
    u.subscriberCount = t.subscriberCount ∧ (t.createdOrder < u.createdOrder ∨
      t.createdOrder = u.createdOrder ∧ t.teamId < u.teamId) := by
  simp only [rank, Prod.Lex.toLex_lt_toLex, OrderDual.toDual_lt_toDual, OrderDual.toDual_inj]
  rw [eq_comm]

theorem CurationTeam.beats_iff : t.beats u = true ↔ t.rank < u.rank := by
  rw [rank_lt_iff]
  simp only [beats, Bool.or_eq_true, Bool.and_eq_true, decide_eq_true_eq]
  omega

theorem CurationTeam.teamId_of_rank (h : t.rank = u.rank) : t.teamId = u.teamId := by
  simp only [rank, toLex_inj, Prod.mk.injEq] at h
  exact h.2.2

/-- Whether `bestCurationTeamForUser` considers the team. -/
def openTo (s : CurationState) (slug : Slug) (a : Addr) (allowHidden : ℕ) (t : CurationTeam) :
    Bool :=
  t.live && !(decide (t.teamId ≠ allowHidden) && s.banned slug t.teamId a)

/-- The records of the teams of a community. -/
def CurationState.teamsOf (s : CurationState) (slug : Slug) : List CurationTeam :=
  (s.teams.slice slug).entries.map Prod.snd

theorem pickTeam_eq (s : CurationState) (slug : Slug) (a : Addr) (n : ℕ)
    (best : Option CurationTeam) (t : CurationTeam) :
    pickTeam s slug a n best t = if openTo s slug a n t then
      match best with
      | none => some t
      | some b => if t.beats b then some t else best
      else best := by
  by_cases hlive : t.live = true
  · by_cases hban : t.teamId ≠ n ∧ s.banned slug t.teamId a = true
    · have hclosed : openTo s slug a n t = false := by simp [openTo, hban]
      have hban' : t.teamId ≠ n ∧ s.hiddenUsers.has (rosterKey slug t.teamId a) = true := hban
      simp [pickTeam, hlive, hban', hclosed]
    · have hopen : openTo s slug a n t = true := by
        simpa [openTo, hlive, or_iff_not_imp_left] using hban
      have hban' : ¬ (t.teamId ≠ n ∧ s.hiddenUsers.has (rosterKey slug t.teamId a) = true) := hban
      cases best <;> simp only [pickTeam, hlive, hban', hopen, Bool.not_true, Bool.false_eq_true,
        if_false, if_true]
  · simp [pickTeam, openTo, hlive]

/-- The scan of the keeper finds the first of the open teams. -/
theorem bestCurationTeamForUser_eq_argmin (s : CurationState) (slug : Slug) (a : Addr) (n : ℕ) :
    bestCurationTeamForUser s slug a n =
      ((s.teamsOf slug).filter (openTo s slug a n)).argmin CurationTeam.rank := by
  refine foldl_scan (openTo s slug a n) (pickTeam s slug a n) ?_ ?_ ?_
  · intro best t ht
    rw [pickTeam_eq, if_neg (Bool.eq_false_iff.mp ht)]
  · intro t ht
    rw [pickTeam_eq, if_pos ht]
  · intro t b ht
    rw [pickTeam_eq, if_pos ht]
    simp only [CurationTeam.beats_iff]

theorem mem_teamsOf (hkeyed : s.Keyed) :
    t ∈ s.teamsOf slug ↔ t.community = slug ∧ s.teams.get (toLex (slug, t.teamId)) = some t := by
  simp only [teamsOf, List.mem_map, Prod.exists, exists_eq_right]
  constructor
  · rintro ⟨id, hmem⟩
    have hget : s.teams.get (toLex (slug, id)) = some t := by
      rw [← get_slice]
      exact mem_entries_iff.mp hmem
    obtain ⟨rfl, rfl⟩ := hkeyed slug id t hget
    exact ⟨rfl, hget⟩
  · rintro ⟨-, hget⟩
    refine ⟨t.teamId, mem_entries_iff.mpr ?_⟩
    rwa [get_slice]

/-- The teams of a community have different ranks. -/
theorem distinct_rank (hkeyed : s.Keyed) (p : CurationTeam → Bool) :
    Distinct CurationTeam.rank ((s.teamsOf slug).filter p) := by
  intro t ht u hu hrank
  have ht' := ((mem_teamsOf hkeyed).mp (List.mem_filter.mp ht).1).2
  have hu' := ((mem_teamsOf hkeyed).mp (List.mem_filter.mp hu).1).2
  rw [CurationTeam.teamId_of_rank hrank, hu'] at ht'
  exact (Option.some.inj ht').symm

/-- A store whose teams stand under their numbers, which are not zero. -/
structure CurationState.Numbered (s : CurationState) : Prop where
  keyed : s.Keyed
  pos : ∀ slug id t, s.teams.get (toLex (slug, id)) = some t → id ≠ 0

/-- No team is exempt from its bans where none has the number zero. -/
theorem mem_open_iff (hs : s.Numbered) :
    t ∈ (s.teamsOf slug).filter (openTo s slug a 0) ↔
      s.liveTeam slug t.teamId = some t ∧ s.banned slug t.teamId a = false := by
  rw [List.mem_filter, mem_teamsOf hs.keyed, liveTeam_eq_some]
  constructor
  · rintro ⟨⟨-, hget⟩, hopen⟩
    have hpos := hs.pos slug t.teamId t hget
    simp only [openTo, hpos, ne_eq, not_false_eq_true, decide_true, Bool.true_and,
      Bool.and_eq_true, Bool.not_eq_true'] at hopen
    exact ⟨⟨hget, hopen.1⟩, hopen.2⟩
  · rintro ⟨⟨hget, hlive⟩, hban⟩
    exact ⟨⟨(hs.keyed slug t.teamId t hget).1, hget⟩, by simp [openTo, hlive, hban]⟩

theorem defaultTeam_iff_least (hs : s.Numbered) :
    DefaultTeam s slug a t ↔
      Least CurationTeam.rank ((s.teamsOf slug).filter (openTo s slug a 0)) t := by
  constructor
  · intro h
    refine ⟨(mem_open_iff hs).mpr ⟨h.live, h.unbanned⟩, fun u hu => ?_⟩
    obtain ⟨hlive, hban⟩ := (mem_open_iff hs).mp hu
    by_cases hsame : u = t
    · rw [hsame]
    · exact (CurationTeam.rank_lt_iff.mpr (h.first u.teamId u hlive hban hsame)).le
  · intro h
    obtain ⟨hlive, hban⟩ := (mem_open_iff hs).mp h.mem
    refine ⟨hlive, hban, fun id u hu hubanned hne => ?_⟩
    obtain ⟨-, rfl⟩ := hs.keyed slug id u (liveTeam_eq_some.mp hu).1
    have hmem := (mem_open_iff hs).mpr ⟨hu, hubanned⟩
    refine CurationTeam.rank_lt_iff.mp (lt_of_le_of_ne (h.le u hmem) fun heq => ?_)
    exact hne (distinct_rank hs.keyed _ u hmem t h.mem heq.symm)

theorem bestCurationTeamForUser_eq_some (hs : s.Numbered) :
    bestCurationTeamForUser s slug a 0 = some t ↔ DefaultTeam s slug a t := by
  rw [bestCurationTeamForUser_eq_argmin, argmin_eq_some (distinct_rank hs.keyed _),
    defaultTeam_iff_least hs]

theorem bestCurationTeamForUser_eq_none (hs : s.Numbered) :
    bestCurationTeamForUser s slug a 0 = none ↔ NoTeamFor s slug a := by
  rw [bestCurationTeamForUser_eq_argmin, List.argmin_eq_none, List.eq_nil_iff_forall_not_mem]
  constructor
  · intro h id t hlive
    obtain ⟨-, rfl⟩ := hs.keyed slug id t (liveTeam_eq_some.mp hlive).1
    by_contra hopen
    exact h t ((mem_open_iff hs).mpr ⟨hlive, Bool.eq_false_iff.mpr hopen⟩)
  · intro h t ht
    obtain ⟨hlive, hopen⟩ := (mem_open_iff hs).mp ht
    exact absurd (h t.teamId t hlive) (Bool.eq_false_iff.mp hopen)

end Rank

/-! ## 2. The query of the backend -/

/-- A text of the backend. -/
abbrev WebText := List Char

def strip (t : WebText) : WebText :=
  ((t.dropWhile Char.isWhitespace).reverse.dropWhile Char.isWhitespace).reverse

/-- `lower`, and `LOWER` of the database. -/
def lower (t : WebText) : WebText := t.map Char.toLower

/-- A row of `curation_teams`. -/
structure TeamRow where
  community : Slug
  teamId : ℕ
  owner : WebText
  name : Name
  description : Text
  subscriberOnly : Bool
  subscriberCount : ℕ
  createdHeight : ℤ
  createdOrder : ℕ
  tag : Option Text
  deletedHeight : Option ℤ
deriving DecidableEq, Repr

/-- A row of `curation_hidden_users`. -/
structure HiddenUserRow where
  community : Slug
  teamId : ℕ
  targetUser : WebText
deriving DecidableEq, Repr

/-- The two tables that `get_default_team` reads. -/
structure Tables where
  teams : List TeamRow
  hiddenUsers : List HiddenUserRow

/-- What `get_default_team` returns of a row. -/
structure TeamView where
  teamId : ℕ
  owner : WebText
  name : Name
  description : Text
  subscriberOnly : Bool
  subscriberCount : ℕ
  createdHeight : ℤ
  createdOrder : ℕ
  tag : Text
deriving DecidableEq, Repr

def TeamRow.view (row : TeamRow) : TeamView where
  teamId := row.teamId
  owner := row.owner
  name := row.name
  description := row.description
  subscriberOnly := row.subscriberOnly
  subscriberCount := row.subscriberCount
  createdHeight := row.createdHeight
  createdOrder := row.createdOrder
  tag := row.tag.getD 0

/-- The `ORDER BY` of the query. -/
def TeamRow.order (row : TeamRow) : ℕᵒᵈ ×ₗ ℕ ×ₗ ℕ :=
  toLex (.toDual row.subscriberCount, toLex (row.createdOrder, row.teamId))

/-- The viewer's address as the query gets it, empty for a guest. -/
def viewerAddress (viewer : Option WebText) : WebText :=
  let address := lower (strip (viewer.getD []))
  if address = "guest".toList then [] else address

/-- The `WHERE` of the query. -/
def Tables.selects (db : Tables) (community : Slug) (address : WebText) (row : TeamRow) : Bool :=
  row.community = community && row.deletedHeight = none &&
    (address = [] || !db.hiddenUsers.any fun h =>
      h.community = row.community && h.teamId = row.teamId && lower h.targetUser = address)

def getDefaultTeam (db : Tables) (community : Slug) (viewer : Option WebText) : Option TeamView :=
  (sortedFirst TeamRow.order
    (db.teams.filter (db.selects community (viewerAddress viewer)))).map TeamRow.view

/-- The row of a team. -/
def CurationTeam.row (text : Addr → WebText) (t : CurationTeam) : TeamRow where
  community := t.community
  teamId := t.teamId
  owner := text t.owner
  name := t.name
  description := t.description
  subscriberOnly := t.subscriberOnly
  subscriberCount := t.subscriberCount
  createdHeight := t.createdHeight
  createdOrder := t.createdOrder
  tag := some t.tag
  deletedHeight := if t.deletedHeight = 0 then none else some t.deletedHeight

/-- What is assumed of the texts of addresses: they differ, are in lower case without blanks
around them, and none reads as a guest. -/
structure AddressText (text : Addr → WebText) : Prop where
  inj : ∀ a b, text a = text b → a = b
  strip : ∀ a, strip (text a) = text a
  lower : ∀ a, lower (text a) = text a
  nonempty : ∀ a, text a ≠ []
  named : ∀ a, text a ≠ "guest".toList

/-- The tables hold the teams and the bans of a store. -/
structure Mirrors (text : Addr → WebText) (s : CurationState) (db : Tables) : Prop where
  teams : ∀ row, row ∈ db.teams ↔
    ∃ k t, s.teams.get k = some t ∧ row = t.row text
  bans : ∀ row, row ∈ db.hiddenUsers ↔
    ∃ slug id a, s.banned slug id a = true ∧ row = ⟨slug, id, text a⟩

section Query

variable {text : Addr → WebText} {s : CurationState} {db : Tables} {slug : Slug} {a : Addr}
  (htext : AddressText text)

include htext

theorem viewerAddress_text (a : Addr) : viewerAddress (some (text a)) = text a := by
  simp only [viewerAddress, Option.getD_some, htext.strip, htext.lower, htext.named, if_false]

variable (h : Mirrors text s db)

include h

theorem Mirrors.banned (slug : Slug) (id : ℕ)
    (a : Addr) : (db.hiddenUsers.any fun h => h.community = slug && h.teamId = id &&
      lower h.targetUser = text a) = s.banned slug id a := by
  rw [Bool.eq_iff_iff]
  simp only [List.any_eq_true, Bool.and_eq_true, decide_eq_true_eq]
  constructor
  · rintro ⟨row, hrow, ⟨rfl, rfl⟩, htarget⟩
    obtain ⟨slug', id', b, hban, rfl⟩ := (h.bans row).mp hrow
    rw [htext.lower] at htarget
    exact htext.inj b a htarget ▸ hban
  · intro hban
    exact ⟨_, (h.bans _).mpr ⟨slug, id, a, hban, rfl⟩, ⟨rfl, rfl⟩, htext.lower a⟩

/-- Whether the query selects the row of a team. -/
theorem Mirrors.selects_row (slug : Slug) (a : Addr) (t : CurationTeam) :
    db.selects slug (text a) (t.row text) =
      (decide (t.community = slug) && t.live && !s.banned t.community t.teamId a) := by
  have hlive : decide ((t.row text).deletedHeight = none) = t.live := by
    by_cases hzero : t.deletedHeight = 0 <;> simp [CurationTeam.row, CurationTeam.live, hzero]
  rw [Tables.selects, hlive, decide_eq_false (htext.nonempty a), Bool.false_or]
  exact congrArg (fun b => decide (t.community = slug) && t.live && !b)
    (h.banned htext t.community t.teamId a)

/-- The rows that the query selects are those of the teams that are open to the viewer. -/
theorem Mirrors.selects_iff (hs : s.Numbered) (row : TeamRow) :
    row ∈ db.teams.filter (db.selects slug (text a)) ↔
      ∃ t ∈ (s.teamsOf slug).filter (openTo s slug a 0), row = t.row text := by
  rw [List.mem_filter, h.teams]
  constructor
  · rintro ⟨⟨k, t, hget, rfl⟩, hselects⟩
    rw [h.selects_row htext] at hselects
    simp only [Bool.and_eq_true, decide_eq_true_eq, Bool.not_eq_true'] at hselects
    obtain ⟨⟨rfl, hlive⟩, hban⟩ := hselects
    have hkey := hs.keyed (ofLex k).1 (ofLex k).2 t hget
    refine ⟨t, (mem_open_iff hs).mpr ⟨liveTeam_eq_some.mpr ⟨?_, hlive⟩, hban⟩, rfl⟩
    rw [hkey.1, hkey.2]
    exact hget
  · rintro ⟨t, ht, rfl⟩
    obtain ⟨hlive, hban⟩ := (mem_open_iff hs).mp ht
    obtain ⟨hget, halive⟩ := liveTeam_eq_some.mp hlive
    obtain ⟨rfl, -⟩ := hs.keyed slug t.teamId t hget
    refine ⟨⟨_, t, hget, rfl⟩, ?_⟩
    rw [h.selects_row htext, halive, hban, decide_eq_true rfl]
    rfl

/-- The query finds the team that the scan of the keeper finds. -/
theorem getDefaultTeam_eq (hs : s.Numbered) (slug : Slug) (a : Addr) :
    getDefaultTeam db slug (some (text a)) =
      (bestCurationTeamForUser s slug a 0).map fun t => (t.row text).view := by
  have horder : ∀ t : CurationTeam, (t.row text).order = t.rank := fun _ => rfl
  rw [getDefaultTeam, viewerAddress_text htext, bestCurationTeamForUser_eq_argmin,
    sortedFirst_eq_map_argmin (CurationTeam.row text) horder (distinct_rank hs.keyed _)
      (h.selects_iff htext hs), Option.map_map]
  rfl

end Query

/-! ## 3. The choices of the keeper -/

/-- A mode and a team that stand for the default lens of an account: its default team, which
the backend also finds, or the raw feed if there is none. -/
def LensChoice (text : Addr → WebText) (s : CurationState) (slug : Slug) (a : Addr) (mode : ℤ)
    (team : ℕ) : Prop :=
  (∃ t, DefaultTeam s slug a t ∧ mode = 1 ∧ team = t.teamId ∧ ∀ db, Mirrors text s db →
    getDefaultTeam db slug (some (text a)) = some (t.row text).view) ∨
  (NoTeamFor s slug a ∧ mode = 2 ∧ team = 0 ∧ ∀ db, Mirrors text s db →
    getDefaultTeam db slug (some (text a)) = none)

section Choice

variable {text : Addr → WebText} {s s' : CurationState} {slug : Slug} {a : Addr}
  (htext : AddressText text) (hs : s.Numbered)

include htext hs

theorem lensChoice_of_best {t : CurationTeam}
    (hbest : bestCurationTeamForUser s slug a 0 = some t) :
    LensChoice text s slug a 1 t.teamId := by
  refine .inl ⟨t, (bestCurationTeamForUser_eq_some hs).mp hbest, rfl, rfl, fun db hdb => ?_⟩
  rw [getDefaultTeam_eq htext hdb hs, hbest, Option.map_some]

theorem lensChoice_of_none (hbest : bestCurationTeamForUser s slug a 0 = none) :
    LensChoice text s slug a 2 0 := by
  refine .inr ⟨(bestCurationTeamForUser_eq_none hs).mp hbest, rfl, rfl, fun db hdb => ?_⟩
  rw [getDefaultTeam_eq htext hdb hs, hbest, Option.map_none]

/-- The default lens of a join. -/
theorem resolveJoinLens_default (slug : Slug)
    (a : Addr) : ∃ mode team, resolveJoinLens s a slug 0 0 = .ok (mode, team) ∧
      LensChoice text s slug a mode team := by
  cases hbest : bestCurationTeamForUser s slug a 0 with
  | none =>
    refine ⟨2, 0, ?_, lensChoice_of_none htext hs hbest⟩
    simp only [resolveJoinLens, PreferenceMode.ofInt, if_true, hbest]
    rfl
  | some t =>
    refine ⟨1, t.teamId, ?_, lensChoice_of_best htext hs hbest⟩
    simp only [resolveJoinLens, PreferenceMode.ofInt, if_true, hbest]
    rfl

/-- A ban leaves the banned user's preference, or stores the default lens. -/
theorem rerouteBannedUserPreference_choice {profiles : Profiles} {team : ℕ}
    (h : rerouteBannedUserPreference profiles s slug team a = .ok s') :
    s' = s ∨ ∃ mode m next, LensChoice text s slug a mode next ∧
      PreferenceMode.ofInt mode = some m ∧ s'.getPreference a slug = some ⟨m, next⟩ := by
  rcases rerouteBannedUserPreference_cases h with ⟨rfl, -⟩ | ⟨core, mode, next, -, hbest, hset⟩
  · exact .inl rfl
  · obtain ⟨m, hcheck, hjoins⟩ := joins_setCurationPreference hset
    refine .inr ⟨mode, m, next, ?_, (checkPreference_eq_ok hcheck).1, ?_⟩
    · rcases hbest with ⟨hnone, rfl, rfl⟩ | ⟨t, hbest, rfl, rfl⟩
      · exact lensChoice_of_none htext hs hnone
      · exact lensChoice_of_best htext hs hbest
    · rw [getPreference, hjoins, get_set_self]

end Choice

/-! ## 4. Preferences and bans -/

/-- A preference that is not pinned, or is pinned to a team that is there and has not banned
the account. -/
def LensAllowed (s : CurationState) (k : Addr ×ₗ Slug) (pref : CommunityPreference) : Prop :=
  pref.mode = .pinned → pref.pinnedTeamId ≠ 0 ∧
    s.teams.has (toLex ((ofLex k).2, pref.pinnedTeamId)) = true ∧
    s.banned (ofLex k).2 pref.pinnedTeamId (ofLex k).1 = false

/-- No team and no ban goes or comes, but for new teams, and every new preference is allowed. -/
structure Follows (s s' : CurationState) : Prop where
  teams : ∀ k, s.teams.has k = true → s'.teams.has k = true
  bans : s'.hiddenUsers = s.hiddenUsers
  lenses : ∀ k pref, s'.joins.get k = some pref →
    s.joins.get k = some pref ∨ LensAllowed s' k pref

theorem lensAllowed_default (s : CurationState) (k : Addr ×ₗ Slug) :
    LensAllowed s k .default := nofun

variable {pref : CommunityPreference} {paid : Bool}

section Follows

variable {rules : TextRules} {p : Params} {height : ℤ} {profiles : Profiles}
  {s s₁ s' : CurationState} {slug : Slug} {team : ℕ} {owner : Addr}

theorem Follows.refl (s : CurationState) : Follows s s := ⟨fun _ h => h, rfl, fun _ _ => .inl⟩

theorem Follows.trans (h : Follows s s₁) (h' : Follows s₁ s') : Follows s s' := by
  refine ⟨fun k hk => h'.teams k (h.teams k hk), h'.bans.trans h.bans, fun k pref hpref => ?_⟩
  rcases h'.lenses k pref hpref with hold | hnew
  · refine (h.lenses k pref hold).imp_right fun hallowed hmode => ?_
    obtain ⟨hid, hteam, hban⟩ := hallowed hmode
    refine ⟨hid, h'.teams _ hteam, ?_⟩
    rw [banned, h'.bans]
    exact hban
  · exact .inr hnew

/-- Other records. -/
theorem Follows.of_same (hteams : s'.teams = s.teams) (hbans : s'.hiddenUsers = s.hiddenUsers)
    (hjoins : s'.joins = s.joins) : Follows s s' :=
  ⟨fun _ hk => hteams ▸ hk, hbans, fun _ _ hpref => .inl (hjoins ▸ hpref)⟩

theorem follows_setCurationTeam (s : CurationState) (t : CurationTeam) :
    Follows s (s.setCurationTeam t) := by
  refine ⟨fun k hk => ?_, rfl, fun _ _ => .inl⟩
  rw [setCurationTeam, has_set, hk, Bool.or_true]

theorem follows_joinCommunity {cap : ℕ} (h : joinCommunity rules p s owner slug cap = .ok s') :
    Follows s s' := by
  rcases joinCommunity_cases h with ⟨-, rfl⟩ | ⟨-, -, rfl⟩
  · exact .refl s'
  · refine ⟨fun _ hk => hk, rfl, fun k pref hpref => ?_⟩
    rcases get_set_cases hpref with ⟨-, rfl⟩ | ⟨-, hpref⟩
    · exact .inr (lensAllowed_default _ k)
    · exact .inl hpref

theorem Recounted.follows (h : Recounted s s') : Follows s s' := by
  rcases h with rfl | ⟨_, _, t, _, -, rfl⟩
  · exact .refl s'
  · exact follows_setCurationTeam s _

/-- A preference that passed the check, also once the counts have moved. -/
theorem lensAllowed_of_checkPreference {mode : ℤ} {m : PreferenceMode}
    (hcheck : checkPreference s owner slug mode team = .ok m)
    (hteams : ∀ k, s.teams.has k = true → s'.teams.has k = true)
    (hbans : s'.hiddenUsers = s.hiddenUsers) : LensAllowed s' (toLex (owner, slug)) ⟨m, team⟩ := by
  intro hmode
  obtain ⟨hid, ⟨t, hlive⟩, hban⟩ := (checkPreference_eq_ok hcheck).2.1 hmode
  refine ⟨hid, hteams _ (has_iff.mpr ⟨t, (liveTeam_eq_some.mp hlive).1⟩), ?_⟩
  rw [banned, hbans]
  exact hban

theorem follows_setCurationPreference {mode : ℤ}
    (h : setCurationPreference s owner slug mode team paid = .ok s') : Follows s s' := by
  obtain ⟨old, -, rfl | ⟨m, s₁, s₂, hcheck, hremove, hadd, rfl⟩⟩ := setCurationPreference_cases h
  · exact .refl s'
  · have hfollows := (recounted_removePaid hremove).follows.trans (recounted_addPaid hadd).follows
    refine ⟨hfollows.teams, hfollows.bans, fun k pref hpref => ?_⟩
    rcases get_set_cases hpref with ⟨rfl, rfl⟩ | ⟨-, hpref⟩
    · exact .inr (lensAllowed_of_checkPreference hcheck hfollows.teams hfollows.bans)
    · have hjoins : s₂.joins = s.joins :=
        (recounted_addPaid hadd).joins.trans (recounted_removePaid hremove).joins
      exact .inl (hjoins ▸ hpref)

theorem follows_joinCommunityWithLens {cap : ℕ} {mode : ℤ}
    (h : joinCommunityWithLens rules p s owner slug cap mode team paid = .ok s') :
    Follows s s' := by
  rcases joinCommunityWithLens_cases h with rfl | ⟨lens, s₁, hjoin, hset⟩
  · exact .refl s'
  · exact (follows_joinCommunity hjoin).trans (follows_setCurationPreference hset)

theorem follows_clearInvite (h : clearInvite s slug team owner = .ok s') : Follows s s' := by
  rcases clearInvite_cases h with ⟨-, rfl⟩ | ⟨-, rfl⟩
  · exact .refl s'
  · exact .of_same rfl rfl rfl

theorem follows_removeCuratorFromTeam (h : removeCuratorFromTeam p s slug team owner = .ok s') :
    Follows s s' := by
  obtain ⟨-, -, rfl⟩ := removeCuratorFromTeam_cases h
  exact .of_same rfl rfl rfl

theorem follows_deleteCurationTeam (h : deleteCurationTeam rules p height s slug team = .ok s') :
    Follows s s' := by
  obtain ⟨t, s₁, s₂, -, hdischarge, huninvite, rfl⟩ := deleteCurationTeam_cases h
  have h₁ : Follows s s₁ := foldlM_ok_induction
    (fun _ _ _ _ h hs => hs.trans (follows_removeCuratorFromTeam h)) hdischarge (.refl s)
  have h₂ : Follows s s₂ := foldlM_ok_induction
    (fun _ _ _ _ h hs => hs.trans (follows_clearInvite h)) huninvite h₁
  refine .trans (h₂.trans ?_) (follows_setCurationTeam _ _)
  exact .of_same rfl rfl rfl

theorem follows_removeCurationMembership
    (h : removeCurationMembership rules p height profiles s owner slug team = .ok s') :
    Follows s s' := by
  rcases removeCurationMembership_cases h with
    ⟨-, rfl⟩ | ⟨t, -, ⟨-, h⟩ | ⟨-, -, h⟩ | ⟨-, next, s₁, -, h₁, rfl⟩⟩
  · exact .refl s'
  · exact follows_removeCuratorFromTeam h
  · exact follows_deleteCurationTeam h
  · exact (follows_removeCuratorFromTeam h₁).trans (follows_setCurationTeam s₁ _)

theorem follows_leaveCommunity
    (h : leaveCommunity rules p height profiles s owner slug paid = .ok s') : Follows s s' := by
  obtain ⟨pref, s₁, s₂, -, hteam, hremove, rfl⟩ := leaveCommunity_cases h
  have h₁ : Follows s s₁ := by
    rcases leaveTeam_cases hteam with ⟨rfl, -⟩ | ⟨team, -, h⟩
    · exact .refl s₁
    · exact follows_removeCurationMembership h
  refine (h₁.trans (recounted_removePaid hremove).follows).trans ?_
  exact ⟨fun _ hk => hk, rfl, fun k pref hpref => .inl (get_of_get_erase hpref)⟩

theorem follows_shiftContribution {after : Bool}
    (h : shiftContribution owner after s slug = .ok s') : Follows s s' := by
  obtain ⟨pref, -, ⟨-, h⟩ | ⟨-, h⟩⟩ := shiftContribution_cases h
  · exact (recounted_addSubscriber h).follows
  · exact (recounted_removeSubscriber h).follows

theorem follows_transitionCurationEligibility {before after : Bool}
    (h : transitionCurationEligibility rules p height profiles s owner before after = .ok s') :
    Follows s s' := by
  rcases transitionCurationEligibility_cases h with ⟨-, rfl⟩ | ⟨-, s₁, hshift, hrest⟩
  · exact .refl s'
  · have h₁ : Follows s s₁ := foldlM_ok_induction
      (fun _ _ _ _ h hs => hs.trans (follows_shiftContribution h)) hshift (.refl s)
    rcases hrest with ⟨-, rfl⟩ | ⟨-, s₂, hclear, hremove⟩
    · exact h₁
    · have h₂ : Follows s s₂ := foldlM_ok_induction
        (fun _ _ _ _ h hs => hs.trans (follows_clearInvite h)) hclear h₁
      exact foldlM_ok_induction
        (fun _ _ _ _ h hs => hs.trans (follows_removeCurationMembership h)) hremove h₂

theorem follows_createCurationTeam {name : Name} {description : Text}
    (h : createCurationTeam rules p height profiles s owner slug name description = .ok s') :
    Follows s s' := by
  obtain ⟨core, text, cap, s₁, -, -, -, -, -, hjoin, hset⟩ := createCurationTeam_cases h
  refine (Follows.trans ?_ (follows_joinCommunity hjoin)).trans (follows_setCurationPreference hset)
  refine ⟨fun k hk => ?_, rfl, fun _ _ => .inl⟩
  simp only [enlisted, founded, has_set, hk, Bool.or_true]

theorem follows_acceptCuratorInvite
    (h : acceptCuratorInvite rules p profiles s owner slug team = .ok s') : Follows s s' := by
  obtain ⟨t, cap, s₁, -, -, -, -, hjoin, -, hclear⟩ := acceptCuratorInvite_cases h
  refine (follows_joinCommunity hjoin).trans (Follows.trans ?_ (follows_clearInvite hclear))
  exact (follows_setCurationTeam s₁ _).trans (.of_same rfl rfl rfl)

end Follows

/-! ## 5. Runs -/

/-- A preference is pinned only to a team that is there, and to one that has banned the account
only if the team is deleted. -/
def LensOpen (s : CurationState) (k : Addr ×ₗ Slug) (pref : CommunityPreference) : Prop :=
  pref.mode = .pinned → pref.pinnedTeamId ≠ 0 ∧
    ∃ t, s.teams.get (toLex ((ofLex k).2, pref.pinnedTeamId)) = some t ∧
      (s.banned (ofLex k).2 pref.pinnedTeamId (ofLex k).1 = true → t.live = false)

/-- No account is pinned to a live team that has banned it. -/
def LensesOpen (s : CurationState) : Prop :=
  ∀ k pref, s.joins.get k = some pref → LensOpen s k pref

section Lenses

variable {rules : TextRules} {s s' : CurationState} {k : Addr ×ₗ Slug} {pref : CommunityPreference}

theorem LensAllowed.lensOpen (h : LensAllowed s k pref) : LensOpen s k pref := by
  intro hmode
  obtain ⟨hid, hteam, hban⟩ := h hmode
  obtain ⟨t, ht⟩ := has_iff.mp hteam
  exact ⟨hid, t, ht, fun h => absurd h (Bool.eq_false_iff.mp hban)⟩

/-- Deleted teams stay deleted. -/
theorem LensOpen.follows (h : LensOpen s k pref) (hfollows : Follows s s')
    (hkept : TeamsKept s s') : LensOpen s' k pref := by
  intro hmode
  obtain ⟨hid, t, ht, hdead⟩ := h hmode
  obtain ⟨t', ht', hsame⟩ := hkept _ t ht
  refine ⟨hid, t', ht', fun hban => hsame.deleted (hdead ?_)⟩
  rw [banned, hfollows.bans] at hban
  exact hban

theorem LensesOpen.follows (h : LensesOpen s) (hfollows : Follows s s') (hkept : TeamsKept s s') :
    LensesOpen s' := by
  intro k pref hpref
  rcases hfollows.lenses k pref hpref with hold | hnew
  · exact (h k pref hold).follows hfollows hkept
  · exact hnew.lensOpen

/-- Lifted bans. -/
theorem LensesOpen.moderated (h : LensesOpen s) (hsame : s.SameButModeration s')
    (hbans : ∀ k, s'.hiddenUsers.has k = true → s.hiddenUsers.has k = true) : LensesOpen s' := by
  intro k pref hpref hmode
  rw [hsame] at hpref
  obtain ⟨hid, t, ht, hdead⟩ := h k pref hpref hmode
  refine ⟨hid, t, ?_, fun hban => hdead (hbans _ hban)⟩
  rw [hsame]
  exact ht

variable {profiles : Profiles} {slug : Slug} {team : ℕ} {target actor : Addr}

theorem banned_hideUser (s : CurationState) (slug : Slug) (team : ℕ) (target actor : Addr)
    {slug' : Slug} {id : ℕ} {a : Addr}
    (h : (setCurationActionHiddenUser s slug team target actor true).banned slug' id a = true) :
    slug' = slug ∧ id = team ∧ a = target ∨ s.banned slug' id a = true := by
  simp only [banned, setCurationActionHiddenUser, if_true, has_set, Bool.or_eq_true,
    decide_eq_true_eq, rosterKey_inj] at h
  exact h

/-- A new ban is the only preference that can be in its way, and only if the banned user looks
through the team. -/
theorem LensesOpen.hideUser (h : LensesOpen s) :
    ∀ k pref, s.joins.get k = some pref →
      (k = toLex (target, slug) → pref.mode = .pinned → pref.pinnedTeamId = team →
        ∃ t, s.teams.get (toLex (slug, team)) = some t ∧ t.live = false) →
      LensOpen (setCurationActionHiddenUser s slug team target actor true) k pref := by
  intro k pref hpref hown hmode
  obtain ⟨hid, t, ht, hdead⟩ := h k pref hpref hmode
  refine ⟨hid, t, ht, fun hban => ?_⟩
  rcases banned_hideUser s slug team target actor hban with ⟨hslug, hteam, ha⟩ | hold
  · obtain ⟨u, hu, hgone⟩ := hown (congrArg toLex (Prod.ext ha hslug)) hmode hteam
    rw [hslug, hteam, hu] at ht
    exact Option.some.inj ht ▸ hgone
  · exact hdead hold

/-- A ban with the change of the banned user's preference. -/
theorem LensesOpen.ban (h : LensesOpen s) (hb : Bookkept rules s)
    (hreroute : rerouteBannedUserPreference profiles
      (setCurationActionHiddenUser s slug team target actor true) slug team target = .ok s') :
    LensesOpen s' := by
  rcases rerouteBannedUserPreference_cases hreroute with ⟨rfl, hlook⟩ |
    ⟨core, mode, next, -, -, hset⟩
  · intro k pref hpref
    refine h.hideUser k pref hpref fun hk hmode hteam => ?_
    subst hk hteam
    obtain ⟨hid, t, ht, -⟩ := h _ pref hpref hmode
    refine ⟨t, ht, Bool.eq_false_iff.mpr fun hlive => ?_⟩
    -- a user pinned to a live team looks through it
    rcases hlook pref hpref with hraw | hother
    · rw [hmode] at hraw
      cases hraw
    · refine hother ?_
      have hcounted : (setCurationActionHiddenUser s slug pref.pinnedTeamId target actor
          true).countedTeam slug pref = some t :=
        countedTeam_eq_some.mpr ⟨hmode, liveTeam_eq_some.mpr ⟨ht, hlive⟩⟩
      simp only [currentTeam, hcounted, Option.isSome_some, if_true, if_neg hid]
  · have hb₁ : Bookkept rules (setCurationActionHiddenUser s slug team target actor true) :=
      (hb.self.moderated (sameButModeration_hideUser s slug team target actor true)).toBookkept
    have hkept := (hb₁.self.of_setCurationPreference hset).kept
    have hfollows := follows_setCurationPreference hset
    obtain ⟨m, hcheck, hjoins⟩ := joins_setCurationPreference hset
    intro k pref hpref
    rw [hjoins] at hpref
    rcases get_set_cases hpref with ⟨rfl, rfl⟩ | ⟨hk, hpref⟩
    · exact (lensAllowed_of_checkPreference hcheck hfollows.teams hfollows.bans).lensOpen
    · exact (h.hideUser k pref hpref fun hk' => absurd hk' hk).follows hfollows hkept

end Lenses

section Calls

variable {env : ChainEnv} {ctx : BlockCtx} {s s' : ChainState} {c : CurationState}

theorem CurationCall.lensesOpen (hheight : ctx.height ≠ 0) {call : CurationCall}
    (hb : Bookkept env.toTextRules s.curation) (h : LensesOpen s.curation)
    (hready : call.Ready s) (hexec : call.exec env ctx s = .ok c) : LensesOpen c := by
  have hkept := (CurationCall.continues hheight hb.self hready hexec).kept
  cases call with
  | join owner slug cap => exact h.follows (follows_joinCommunity hexec) hkept
  | joinWithLens owner core slug cap mode team =>
    exact h.follows (follows_joinCommunityWithLens hexec) hkept
  | prefer owner core slug mode team | govPrefer owner core slug mode team =>
    exact h.follows (follows_setCurationPreference hexec) hkept
  | leave owner core slug => exact h.follows (follows_leaveCommunity hexec) hkept
  | createTeam owner slug name description =>
    exact h.follows (follows_createCurationTeam hexec) hkept
  | invite actor slug team target =>
    obtain ⟨_, _, _, _, _, rfl⟩ := inviteCurator_cases hexec
    exact h.follows (.of_same rfl rfl rfl) hkept
  | uninvite slug team target =>
    obtain ⟨_, rfl⟩ := clearPendingInvite_cases hexec
    exact h.follows (.of_same rfl rfl rfl) hkept
  | accept actor slug team => exact h.follows (follows_acceptCuratorInvite hexec) hkept
  | remove slug team target => exact h.follows (follows_removeCuratorFromTeam hexec) hkept
  | dismiss slug team target => exact h.follows (follows_removeCuratorFromTeam hexec) hkept
  | setOwner slug team newOwner =>
    obtain ⟨t, _, _, _, rfl⟩ := setCurationTeamOwner_cases hexec
    exact h.follows (follows_setCurationTeam _ _) hkept
  | deleteTeam slug team => exact h.follows (follows_deleteCurationTeam hexec) hkept
  | rename actor slug team name description =>
    obtain ⟨t, text, -, ⟨-, rfl⟩ | ⟨-, -, rfl⟩⟩ := updateCurationTeamProfile_cases hexec
    · exact h.follows (follows_setCurationTeam _ _) hkept
    · refine h.follows (.trans ?_ (follows_setCurationTeam _ _)) hkept
      exact .of_same rfl rfl rfl
  | decorate t tag subscriberOnly =>
    obtain rfl := Except.ok.inj hexec
    exact h.follows (follows_setCurationTeam _ _) hkept
  | moderate c' =>
    obtain rfl := Except.ok.inj hexec
    exact h.moderated hready.1 hready.2
  | ban slug team target actor => exact h.ban hb hexec

theorem KeeperCall.lensesOpen (hheight : ctx.height ≠ 0) {k : KeeperCall}
    (hb : Bookkept env.toTextRules s.curation) (h : LensesOpen s.curation)
    (hready : k.Ready ctx s) (hexec : k.exec env ctx s = .ok s') : LensesOpen s'.curation := by
  cases KeeperCall.curation_cases hready hexec with
  | same hsame _ => exact hsame ▸ h
  | call call hcall _ => exact CurationCall.lensesOpen hheight hb h hready hcall
  | moved owner before after _ hmove _ =>
    exact h.follows (follows_transitionCurationEligibility hmove)
      (hb.self.of_transitionCurationEligibility hheight hmove).kept
  | deleted target core hsame _ => exact hsame ▸ h

end Calls

/-- Books in order, and no account pinned to a live team that has banned it. -/
structure LensBooks (rules : TextRules) (s : CurationState) : Prop extends Bookkept rules s where
  lenses : LensesOpen s

theorem Unfounded.lensBooks {rules : TextRules} {s : CurationState} (h : Unfounded s)
    (hb : Bookkept rules s) : LensBooks rules s :=
  ⟨hb, fun k pref hpref hmode => absurd hmode (h.unpinned k pref hpref)⟩

theorem LensBooks.numbered {rules : TextRules} {s : CurationState} (h : LensBooks rules s) :
    s.Numbered :=
  ⟨h.teams.keyed, fun slug id t ht => (h.teams.below slug id t ht).1.ne'⟩

theorem lensBooks_sound (env : ChainEnv) {ctx : BlockCtx} (hctx : ctx.Valid) :
    Sound env ctx (fun s => LensBooks env.toTextRules s.curation) (fun _ => False)
      (fun _ _ => True) :=
  .of_step (fun _ _ _ => id) fun _ _ _ hs hready _ h =>
    ⟨(KeeperCall.continues hctx.height.ne' hs.self hready h).toBookkept,
      KeeperCall.lensesOpen hctx.height.ne' hs.toBookkept hs.lenses hready h⟩

/-- In every state of every run no account is pinned to a live team that has banned it. A join
with the default lens, and a ban that moves the banned user, choose the default team of the
account, which is also the one that the backend finds in tables with the same teams and bans,
or the raw feed if there is none. -/
theorem bans_and_lenses {env : ChainEnv} {cond : BlockCtx → ChainState → ChainInput → Prop}
    {s₀ s : ChainState} {t₀ t : ℤ} {text : Addr → WebText} (htext : AddressText text)
    (hbooks : LensBooks env.toTextRules s₀.curation) (hrun : ChainRun env cond s₀ t₀ s t) :
    (∀ a slug id u, s.curation.getPreference a slug = some ⟨.pinned, id⟩ →
      s.curation.liveTeam slug id = some u → s.curation.banned slug id a = false) ∧
    (∀ a slug, ∃ mode team, resolveJoinLens s.curation a slug 0 0 = .ok (mode, team) ∧
      LensChoice text s.curation slug a mode team) ∧
    ∀ slug team a actor c, rerouteBannedUserPreference s.profiles
        (setCurationActionHiddenUser s.curation slug team a actor true) slug team a = .ok c →
      c = setCurationActionHiddenUser s.curation slug team a actor true ∨
      ∃ mode m next, LensChoice text (setCurationActionHiddenUser s.curation slug team a actor true)
          slug a mode next ∧ PreferenceMode.ofInt mode = some m ∧
        c.getPreference a slug = some ⟨m, next⟩ := by
  have hbooks : LensBooks env.toTextRules s.curation := ChainRun.keeps
    (I := fun s => LensBooks env.toTextRules s.curation) (fun _ hctx => lensBooks_sound env hctx)
    (fun _ _ input _ => input.allowed_of_forall fun _ _ => trivial) hbooks hrun
  refine ⟨fun a slug id u hpref hlive => ?_, fun a slug =>
    resolveJoinLens_default htext hbooks.numbered slug a, fun slug team a actor c h => ?_⟩
  · obtain ⟨-, v, hv, hdead⟩ := hbooks.lenses _ _ hpref rfl
    obtain ⟨hu, halive⟩ := liveTeam_eq_some.mp hlive
    obtain rfl : u = v := Option.some.inj (hu.symm.trans hv)
    exact Bool.eq_false_iff.mpr fun hban => absurd halive (Bool.eq_false_iff.mp (hdead hban))
  · exact rerouteBannedUserPreference_choice htext
      ⟨hbooks.numbered.keyed, hbooks.numbered.pos⟩ h

/-- Addresses of one letter, told apart by their lengths. -/
def letters (a : Addr) : WebText := List.replicate (a + 1) 'm'

theorem letters_addressText : AddressText letters where
  inj a b h := by
    have hlength : a + 1 = b + 1 := by simpa [letters] using congrArg List.length h
    exact Nat.succ.inj hlength
  strip a := by
    have hdrop : (letters a).dropWhile Char.isWhitespace = letters a := rfl
    have hreverse : (letters a).reverse = letters a := List.reverse_replicate
    rw [strip, hdrop, hreverse, hdrop, hreverse]
  lower a := by
    rw [lower, letters, List.map_replicate]
    rfl
  nonempty a := List.cons_ne_nil _ _
  named a h := by
    have hhead : some 'm' = "guest".toList.head? := congrArg List.head? h
    exact absurd hhead (by decide)

/-- Account 2 is pinned to the team of account 1, which bans it: the ban moves it to the raw
feed. -/
theorem bans_and_lenses_banned : ∃ s₀ s c,
    runAdmins [(⟨10, 1, 0⟩, .relay (.user 1 0) (.createCurationTeam 3 5 0)),
      (⟨20, 2, 0⟩, .relay (.user 2 0) (.joinCommunity 3 1 1))] = some (s₀, s) ∧
    s.curation.getPreference 2 3 = some ⟨.pinned, 1⟩ ∧ s.curation.banned 3 1 2 = false ∧
    rerouteBannedUserPreference s.profiles (setCurationActionHiddenUser s.curation 3 1 2 1 true)
      3 1 2 = .ok c ∧ c.getPreference 2 3 = some ⟨.raw, 0⟩ ∧
    ∃ mode m next, LensChoice letters (setCurationActionHiddenUser s.curation 3 1 2 1 true) 3 2 mode
      next ∧ PreferenceMode.ofInt mode = some m ∧ c.getPreference 2 3 = some ⟨m, next⟩ := by
  have hok : ((runAdmins [(⟨10, 1, 0⟩, .relay (.user 1 0) (.createCurationTeam 3 5 0)),
      (⟨20, 2, 0⟩, .relay (.user 2 0) (.joinCommunity 3 1 1))]).bind fun r =>
      (rerouteBannedUserPreference r.2.profiles
        (setCurationActionHiddenUser r.2.curation 3 1 2 1 true) 3 1 2).toOption.map fun c =>
      (r.2.curation.getPreference 2 3, (r.2.curation.liveTeam 3 1).isSome, c.getPreference 2 3)) =
      some (some ⟨.pinned, 1⟩, true, some ⟨.raw, 0⟩) := by decide +kernel
  obtain ⟨⟨s₀, s⟩, hadmins, hok⟩ := Option.bind_eq_some_iff.mp hok
  obtain ⟨c, hc, hview⟩ := Option.map_eq_some_iff.mp hok
  simp only [Prod.mk.injEq] at hview
  obtain ⟨hpinned, hlive, hraw⟩ := hview
  obtain ⟨team, hlive⟩ := Option.isSome_iff_exists.mp hlive
  obtain ⟨hgenesis, hinputs⟩ := runAdmins_eq_some.mp hadmins
  obtain ⟨hnone, hunfounded⟩ := unfounded_of_initGenesis rfl hgenesis
  have hrun : ChainRun plainEnv.toChainEnv (fun _ _ _ => True) s₀ 0 s 20 :=
    ChainRun.start.append _ hinputs (by decide) (by decide) fun _ _ _ => trivial
  obtain ⟨hopen, -, hreroute⟩ := bans_and_lenses letters_addressText
    (hunfounded.lensBooks hnone.curation) hrun
  refine ⟨s₀, s, c, hadmins, hpinned, hopen 2 3 1 team hpinned hlive, toOption_eq_some.mp hc, hraw,
    (hreroute 3 1 2 1 c (toOption_eq_some.mp hc)).resolve_left ?_⟩
  -- the preference is not the one that the ban finds
  rintro rfl
  cases hpinned.symm.trans hraw

end MirageNode
