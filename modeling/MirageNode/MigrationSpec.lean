import MirageNode.BoundedLists
import MirageNode.Migration
import MirageNode.Renewals
import MirageNode.Genesis

/-!
# What the v1.39.0 migration keeps

For each part of `MigrateV139` what a store looks like after it, and from these what a whole
migration that succeeds leaves of the users' records.
-/

namespace MirageNode

open OrderedStore OrderedMap Fallible Option

variable {ctx : BlockCtx} {s s' : ChainState} {c c' : CurationState} {topics : ListStore}

/-! ## 1. Counting owners -/

theorem uint32_add_uint32 (m n : ℕ) : uint32 (uint32 m + n) = uint32 (m + n) :=
  Nat.mod_add_mod m (2 ^ 32) n

/-- What the counting loop adds to the counters it starts from. -/
theorem get_foldl_countOwners (owners : List Addr) (m : OrderedMap Addr ℕ) (a : Addr) :
    (owners.foldl (fun m owner => m.set owner (uint32 (m.count owner + 1))) m).get a =
      if a ∈ owners then some (uint32 (m.count a + owners.count a)) else m.get a := by
  induction owners generalizing m with
  | nil => rfl
  | cons b owners ih =>
    rw [List.foldl_cons, ih]
    by_cases hab : a = b
    · subst hab
      have hcount : (m.set a (uint32 (m.count a + 1))).count a = uint32 (m.count a + 1) := by
        rw [OrderedMap.count, get_set_self]
        rfl
      rw [hcount, uint32_add_uint32, get_set_self, List.count_cons_self,
        if_pos List.mem_cons_self]
      split
      · rw [add_assoc, add_comm 1]
      next hnot => rw [List.count_eq_zero_of_not_mem hnot]
    · have hget : (m.set b (uint32 (m.count b + 1))).get a = m.get a :=
        get_set_of_ne _ hab
      rw [OrderedMap.count, hget, List.count_cons_of_ne (Ne.symm hab)]
      simp only [List.mem_cons, hab, false_or]
      rfl

theorem get_countOwners (owners : List Addr) (a : Addr) :
    (countOwners owners).get a = if a ∈ owners then some (uint32 (owners.count a)) else none := by
  rw [countOwners, get_foldl_countOwners, count_empty, zero_add, get_empty]

variable {l : ListStore}

theorem ListStore.mem_pairs {owner : Addr} {entry : ℕ} :
    (owner, entry) ∈ l.pairs ↔ l.hasEntry owner entry = true := by
  rw [ListStore.pairs, List.mem_map, ListStore.hasEntry, has_iff]
  constructor
  · rintro ⟨⟨k, v⟩, he, hk⟩
    obtain rfl : k = toLex (owner, entry) := congrArg toLex hk
    exact ⟨v, mem_entries_iff.mp he⟩
  · rintro ⟨v, hv⟩
    exact ⟨(toLex (owner, entry), v), mem_entries_iff.mpr hv, rfl⟩

theorem ListStore.nodup_pairs (l : ListStore) : l.pairs.Nodup := by
  have hnodup := l.entries.nodup_keys.map (f := ofLex) ofLex.injective
  simpa [ListStore.pairs, Function.comp_def] using hnodup

/-- An account occurs as often as it has entries. -/
theorem ListStore.count_pairs (l : ListStore) (owner : Addr) :
    (l.pairs.map Prod.fst).count owner = (l.entries.slice owner).size := by
  rw [size_slice, OrderedMap.scan, ListStore.pairs, List.map_map, List.count,
    List.countP_map, List.countP_eq_length_filter]
  rfl

/-! ## 2. Followed topics -/

theorem migrateFollowedTopic_eq_ok {join : Addr × Slug} (h : migrateFollowedTopic c join = .ok c') :
    c' = { c with
      joins := c.joins.set (toLex join) .default
      joinRev := c.joinRev.set (toLex (join.2, join.1)) () } := by
  simp only [migrateFollowedTopic, bind_eq_ok, failIf_eq_ok, pure_eq_ok, exists_const] at h
  exact h.2.symm

/-- The three maps that the followed topics go to. -/
theorem migrateFollowedTopics_eq_ok (h : migrateFollowedTopics topics c = .ok c') :
    c' = { c with
      joins := topics.pairs.foldl (fun m j => m.set (toLex j) .default) c.joins
      joinRev := topics.pairs.foldl (fun m j => m.set (toLex (j.2, j.1)) ()) c.joinRev
      joinCount := (countOwners (topics.pairs.map Prod.fst)).entries.foldl
        (fun m e => m.set e.1 e.2) c.joinCount } := by
  simp only [migrateFollowedTopics, bind_eq_ok, pure_eq_ok] at h
  obtain ⟨c₁, h₁, rfl⟩ := h
  have hfold := foldlM_ok_eq_foldl (fun _ _ _ => migrateFollowedTopic_eq_ok) h₁
  clear h₁
  subst hfold
  generalize topics.pairs = pairs
  -- the loop writes the forward and the reverse records side by side
  have hside : ∀ c : CurationState, pairs.foldl (fun c j => { c with
      joins := c.joins.set (toLex j) .default
      joinRev := c.joinRev.set (toLex (j.2, j.1)) () }) c =
      { c with
        joins := pairs.foldl (fun m j => m.set (toLex j) .default) c.joins
        joinRev := pairs.foldl (fun m j => m.set (toLex (j.2, j.1)) ()) c.joinRev } := by
    induction pairs with
    | nil => exact fun _ => rfl
    | cons j pairs ih => exact fun c => ih _
  rw [hside]

/-- The joined communities of an account after its followed topics were turned into joins. -/
structure FollowsMigrated (before : ListStore) (after : CurationState) (owner : Addr) : Prop where
  joined : ∀ slug, slug ∈ after.joinedCommunities owner ↔ before.hasEntry owner slug = true
  preference : ∀ slug, before.hasEntry owner slug = true →
    after.getPreference owner slug = some .default
  reverse : ∀ slug, before.hasEntry owner slug = true →
    after.joinRev.has (toLex (slug, owner)) = true
  count : after.joinCount.count owner = uint32 (after.joinedCommunities owner).length

theorem nodup_joinedCommunities (c : CurationState) (owner : Addr) :
    (c.joinedCommunities owner).Nodup := nodup_keys _

theorem ListStore.mem_slice_keys {owner : Addr} {entry : ℕ} :
    entry ∈ (l.entries.slice owner).entries.map Prod.fst ↔ l.hasEntry owner entry = true := by
  rw [ListStore.hasEntry, has_iff]
  simp only [List.mem_map, Prod.exists, mem_entries_iff, get_slice,
    exists_and_right, exists_eq_right]

/-- A list without repetitions of an account's entries has as many of them as are stored. -/
theorem ListStore.length_eq_size {owner : Addr} {names : List ℕ}
    (hnodup : names.Nodup) (hnames : ∀ n, n ∈ names ↔ l.hasEntry owner n = true) :
    names.length = (l.entries.slice owner).size := by
  have hperm : names.Perm ((l.entries.slice owner).entries.map Prod.fst) := by
    rw [List.perm_ext_iff_of_nodup hnodup (nodup_keys _)]
    exact fun n => (hnames n).trans mem_slice_keys.symm
  rw [hperm.length_eq, List.length_map]
  rfl

/-- The counter that the counting loop writes for an account with entries. -/
theorem ListStore.count_written (l : ListStore) (base : OrderedMap Addr ℕ) {owner : Addr}
    (hbase : (∃ n, l.hasEntry owner n = true) ∨ base.count owner = 0) :
    ((countOwners (l.pairs.map Prod.fst)).entries.foldl (fun m e => m.set e.1 e.2) base).count
      owner = uint32 (l.entries.slice owner).size := by
  rw [OrderedMap.count, get_foldl_set_entries, get_countOwners, l.count_pairs]
  by_cases hmem : owner ∈ l.pairs.map Prod.fst
  · rw [if_pos hmem]
    rfl
  · have hnone : ∀ n, l.hasEntry owner n ≠ true :=
      fun n hn => hmem (List.mem_map.mpr ⟨(owner, n), mem_pairs.mpr hn, rfl⟩)
    have hzero : base.count owner = 0 := hbase.resolve_left (not_exists.mpr hnone)
    have hsize : ([] : List ℕ).length = (l.entries.slice owner).size :=
      length_eq_size List.nodup_nil fun n => by simp [hnone n]
    rw [if_neg hmem, ← hsize]
    exact hzero

theorem followsMigrated_of_eq_ok (h : migrateFollowedTopics topics c = .ok c') {owner : Addr}
    {topic : ℕ} (htopic : topics.hasEntry owner topic = true)
    (hnew : c.joinedCommunities owner = []) : FollowsMigrated topics c' owner := by
  have hc' := migrateFollowedTopics_eq_ok h
  have hpref : ∀ slug, topics.hasEntry owner slug = true →
      c'.joins.get (toLex (owner, slug)) = some .default := by
    intro slug hslug
    rw [hc']
    have hnodup : (topics.pairs.map toLex).Nodup := topics.nodup_pairs.map toLex.injective
    exact get_foldl_set_of_mem (b := (owner, slug)) toLex (fun _ => CommunityPreference.default)
      hnodup _
      (ListStore.mem_pairs.mpr hslug)
  have hjoined : ∀ slug, slug ∈ c'.joinedCommunities owner ↔ topics.hasEntry owner slug = true := by
    intro slug
    rw [CurationState.mem_joinedCommunities, has_iff]
    refine ⟨fun ⟨pref, hget⟩ => ?_, fun hslug => ⟨_, hpref slug hslug⟩⟩
    by_contra hnot
    -- a join that is not a topic was there before
    have hold : c'.joins.get (toLex (owner, slug)) = c.joins.get (toLex (owner, slug)) := by
      rw [hc']
      refine get_foldl_set_of_not_mem toLex (fun _ => CommunityPreference.default) _
        fun j hj heq => hnot ?_
      exact ListStore.mem_pairs.mp (toLex.injective heq ▸ hj)
    have hmem := CurationState.mem_joinedCommunities.mpr
      (has_iff.mpr ⟨pref, hold.symm.trans hget⟩)
    rw [hnew] at hmem
    exact List.not_mem_nil hmem
  refine ⟨hjoined, hpref, fun slug hslug => ?_, ?_⟩
  · rw [has_iff, hc']
    have hnodup : (topics.pairs.map fun j => toLex (j.2, j.1)).Nodup :=
      topics.nodup_pairs.map fun a b hab => by
        have := toLex.injective hab
        simp only [Prod.mk.injEq] at this
        exact Prod.ext this.2 this.1
    exact ⟨(), get_foldl_set_of_mem (b := (owner, slug)) (fun j => toLex (j.2, j.1))
      (fun _ => ()) hnodup _ (ListStore.mem_pairs.mpr hslug)⟩
  · rw [ListStore.length_eq_size (nodup_joinedCommunities c' owner) hjoined, hc']
    exact topics.count_written _ (.inl ⟨topic, htopic⟩)

/-! ## 3. Blocked topics -/

variable {b b' : BlockedCommunities}

theorem count_raiseSeq (m : OrderedMap Addr ℕ) (e : (Addr ×ₗ ℕ) × ℕ) (a : Addr) :
    (raiseSeq m e).count a =
      if a = (ofLex e.1).1 then max (m.count a) e.2 else m.count a := by
  unfold raiseSeq
  by_cases ha : a = (ofLex e.1).1
  · subst ha
    rw [if_pos rfl]
    split
    next hlt =>
      rw [max_eq_right hlt.le, OrderedMap.count, get_set_self]
      rfl
    next hle => rw [max_eq_left (not_lt.mp hle)]
  · rw [if_neg ha]
    split
    · rw [OrderedMap.count, get_set_of_ne _ ha]
      rfl
    · rfl

theorem le_foldl_raiseSeq (entries : List ((Addr ×ₗ ℕ) × ℕ)) (m : OrderedMap Addr ℕ) :
    (∀ a, m.count a ≤ (entries.foldl raiseSeq m).count a) ∧
      ∀ e ∈ entries, e.2 ≤ (entries.foldl raiseSeq m).count (ofLex e.1).1 := by
  induction entries generalizing m with
  | nil => exact ⟨fun _ => le_rfl, fun e he => absurd he List.not_mem_nil⟩
  | cons e entries ih =>
    obtain ⟨hmono, hmem⟩ := ih (raiseSeq m e)
    refine ⟨fun a => ?_, List.forall_mem_cons.mpr ⟨?_, hmem⟩⟩
    · refine le_trans ?_ (hmono a)
      rw [count_raiseSeq]
      split
      · exact le_max_left _ _
      · exact le_rfl
    · refine le_trans ?_ (hmono _)
      rw [count_raiseSeq, if_pos rfl]
      exact le_max_right _ _

theorem le_maxSeqs {entries : List ((Addr ×ₗ ℕ) × ℕ)} {e : (Addr ×ₗ ℕ) × ℕ} (he : e ∈ entries) :
    e.2 ≤ (maxSeqs entries).count (ofLex e.1).1 :=
  (le_foldl_raiseSeq entries .empty).2 e he

/-- Where the list entry of a blocked topic goes. -/
def blockKey (e : (Addr ×ₗ ℕ) × ℕ) : Addr ×ₗ ℕ ×ₗ Text :=
  toLex ((ofLex e.1).1, toLex (e.2, (ofLex e.1).2))

theorem migrateBlockedTopic_eq_ok {e : (Addr ×ₗ ℕ) × ℕ} (h : migrateBlockedTopic b e = .ok b') :
    b' = { b with entries := b.entries.set (blockKey e) (), idx := b.idx.set e.1 e.2 } := by
  simp only [migrateBlockedTopic, bind_eq_ok, failIf_eq_ok, pure_eq_ok, exists_const] at h
  exact h.2.symm

theorem migrateBlockedCount_eq_ok {maxSeq : OrderedMap Addr ℕ} {e : Addr × ℕ}
    (h : migrateBlockedCount maxSeq b e = .ok b') :
    b' = { b with
      counts := b.counts.set e.1 e.2
      next := b.next.set e.1 (maxSeq.count e.1 + 1) } := by
  simp only [migrateBlockedCount, bind_eq_ok, mapError_eq_ok, pure_eq_ok] at h
  obtain ⟨next, hnext, rfl⟩ := h
  obtain ⟨-, rfl⟩ := checkedAddUint64_eq_ok.mp hnext
  rfl

/-- The four maps that the blocked topics go to. -/
theorem migrateBlockedTopics_eq_ok (h : migrateBlockedTopics topics b = .ok b') :
    b' = {
      entries := topics.entries.entries.foldl (fun m e => m.set (blockKey e) ()) b.entries
      idx := topics.entries.entries.foldl (fun m e => m.set e.1 e.2) b.idx
      counts := (countOwners (topics.pairs.map Prod.fst)).entries.foldl
        (fun m e => m.set e.1 e.2) b.counts
      next := (countOwners (topics.pairs.map Prod.fst)).entries.foldl
        (fun m e => m.set e.1 ((maxSeqs topics.entries.entries).count e.1 + 1)) b.next } := by
  simp only [migrateBlockedTopics, bind_eq_ok] at h
  obtain ⟨b₁, h₁, h₂⟩ := h
  have hfold := foldlM_ok_eq_foldl (fun _ _ _ => migrateBlockedTopic_eq_ok) h₁
  have hfold' := foldlM_ok_eq_foldl (fun _ _ _ => migrateBlockedCount_eq_ok) h₂
  have hlists : ∀ (es : List ((Addr ×ₗ ℕ) × ℕ)) (b : BlockedCommunities),
      es.foldl (fun b e => { b with
        entries := b.entries.set (blockKey e) (), idx := b.idx.set e.1 e.2 }) b =
      { b with
        entries := es.foldl (fun m e => m.set (blockKey e) ()) b.entries
        idx := es.foldl (fun m e => m.set e.1 e.2) b.idx } := by
    intro es
    induction es with
    | nil => exact fun _ => rfl
    | cons e es ih => exact fun b => ih _
  have hcounts : ∀ (maxSeq : OrderedMap Addr ℕ) (es : List (Addr × ℕ)) (b : BlockedCommunities),
      es.foldl (fun b e => { b with
        counts := b.counts.set e.1 e.2
        next := b.next.set e.1 (maxSeq.count e.1 + 1) }) b =
      { b with
        counts := es.foldl (fun m e => m.set e.1 e.2) b.counts
        next := es.foldl (fun m e => m.set e.1 (maxSeq.count e.1 + 1)) b.next } := by
    intro maxSeq es
    induction es with
    | nil => exact fun _ => rfl
    | cons e es ih => exact fun b => ih _
  rw [hlists] at hfold
  rw [hcounts, hfold] at hfold'
  exact hfold'

/-- The blocked communities of an account after its blocked topics were turned into them. -/
structure BlocksMigrated (before : ListStore) (after : BlockedCommunities) (owner : Addr) :
    Prop where
  listed : ∀ pattern, pattern ∈ after.patterns owner ↔ before.hasEntry owner pattern = true
  order : (after.patterns owner).Pairwise fun p q =>
    before.entries.count (toLex (owner, p)) < before.entries.count (toLex (owner, q))
  index : ∀ pattern seq, after.idx.get (toLex (owner, pattern)) = some seq ↔
    after.entries.has (toLex (owner, toLex (seq, pattern))) = true
  count : after.counts.count owner = uint32 (after.patterns owner).length
  next : ∀ pattern seq, after.entries.has (toLex (owner, toLex (seq, pattern))) = true →
    seq < after.next.count owner

/-- The blocked topics of every account have different sequence numbers. -/
def ListStore.Ordered (l : ListStore) : Prop :=
  ∀ owner p q seq, l.entries.get (toLex (owner, p)) = some seq →
    l.entries.get (toLex (owner, q)) = some seq → p = q

theorem has_blockKey_iff (h : migrateBlockedTopics topics .empty = .ok b') {owner : Addr}
    {pattern : Text} {seq : ℕ} :
    b'.entries.has (toLex (owner, toLex (seq, pattern))) = true ↔
      topics.entries.get (toLex (owner, pattern)) = some seq := by
  rw [migrateBlockedTopics_eq_ok h, has_iff]
  constructor
  · rintro ⟨v, hv⟩
    by_contra hnot
    have hother : ∀ e ∈ topics.entries.entries, toLex (owner, toLex (seq, pattern)) ≠
        blockKey e := by
      rintro ⟨k, n⟩ he heq
      refine hnot ?_
      rw [← mem_entries_iff]
      have hkey := toLex.injective heq
      have hrest := toLex.injective (Prod.mk.inj hkey).2
      obtain rfl : k = toLex (owner, pattern) :=
        congrArg toLex (Prod.ext (Prod.mk.inj hkey).1.symm (Prod.mk.inj hrest).2.symm)
      obtain rfl : seq = n := (Prod.mk.inj hrest).1
      exact he
    have hnone := get_foldl_set_of_not_mem blockKey (fun _ => ()) .empty hother
    exact absurd (hnone.symm.trans hv) (some_ne_none v).symm
  · intro hget
    have hnodup : (topics.entries.entries.map blockKey).Nodup := by
      refine (List.nodup_map_iff_inj_on topics.entries.nodup_keys.of_map).mpr ?_
      rintro ⟨k, n⟩ - ⟨k', n'⟩ - heq
      have hkey := toLex.injective heq
      have hrest := toLex.injective (Prod.mk.inj hkey).2
      exact Prod.ext (ofLex.injective (Prod.ext (Prod.mk.inj hkey).1 (Prod.mk.inj hrest).2))
        (Prod.mk.inj hrest).1
    exact ⟨(), get_foldl_set_of_mem (b := (toLex (owner, pattern), seq)) blockKey
      (fun _ => ()) hnodup _ (mem_entries_iff.mpr hget)⟩

theorem blocksMigrated_of_eq_ok (h : migrateBlockedTopics topics .empty = .ok b')
    (hordered : topics.Ordered) (owner : Addr) : BlocksMigrated topics b' owner := by
  have hb' := migrateBlockedTopics_eq_ok h
  have hlisted : ∀ pattern, pattern ∈ b'.patterns owner ↔ topics.hasEntry owner pattern = true := by
    intro pattern
    rw [BlockedCommunities.mem_patterns, ListStore.hasEntry, has_iff]
    simp only [has_blockKey_iff h]
  have horder : (b'.patterns owner).Pairwise fun p q =>
      topics.entries.count (toLex (owner, p)) < topics.entries.count (toLex (owner, q)) := by
    rw [BlockedCommunities.patterns, List.pairwise_map]
    refine (b'.entries.slice owner).sorted.imp_of_mem ?_
    rintro ⟨k, v⟩ ⟨k', v'⟩ hk hk' hlt
    -- an entry stands under the sequence number of its topic
    have hseq : ∀ {k : ℕ ×ₗ Text} {v : Unit}, (k, v) ∈ (b'.entries.slice owner).entries →
        topics.entries.get (toLex (owner, (ofLex k).2)) = some (ofLex k).1 := by
      intro k v hk
      rw [mem_entries_iff, get_slice] at hk
      exact (has_blockKey_iff h).mp (has_iff.mpr ⟨v, hk⟩)
    have hget := hseq hk
    have hget' := hseq hk'
    rw [OrderedMap.count, OrderedMap.count, hget, hget']
    rcases Prod.Lex.lt_iff.mp hlt with hfst | ⟨hfst, hsnd⟩
    · exact hfst
    · have hfst : (ofLex k).1 = (ofLex k').1 := hfst
      have hsame := hordered owner _ _ _ hget (hfst ▸ hget')
      exact absurd hsame (ne_of_lt hsnd)
  refine ⟨hlisted, horder, fun pattern seq => ?_, ?_, fun pattern seq hhas => ?_⟩
  · rw [has_blockKey_iff h, hb']
    show OrderedMap.get _ _ = _ ↔ _
    rw [get_foldl_set_entries]
    simp [BlockedCommunities.empty]
  · have hnodup : (b'.patterns owner).Nodup := horder.imp fun hlt heq => by
      subst heq
      exact lt_irrefl _ hlt
    rw [ListStore.length_eq_size hnodup hlisted, hb']
    exact topics.count_written _ (.inr rfl)
  · have hget := (has_blockKey_iff h).mp hhas
    have hle := le_maxSeqs (mem_entries_iff.mpr hget)
    have hmem : owner ∈ topics.pairs.map Prod.fst :=
      List.mem_map.mpr ⟨(owner, pattern), ListStore.mem_pairs.mpr
        (has_iff.mpr ⟨seq, hget⟩), rfl⟩
    have hcount : (countOwners (topics.pairs.map Prod.fst)).get owner =
        some (uint32 ((topics.pairs.map Prod.fst).count owner)) := by
      rw [get_countOwners, if_pos hmem]
    have hnext := get_foldl_set_of_mem (κ := Addr) Prod.fst
      (fun e : Addr × ℕ => (maxSeqs topics.entries.entries).count e.1 + 1)
      (nodup_keys _) BlockedCommunities.empty.next
      (mem_entries_iff.mpr hcount)
    rw [hb', OrderedMap.count]
    show seq < Option.getD (OrderedMap.get _ _) 0
    rw [hnext]
    exact Nat.lt_succ_of_le hle

/-! ## 4. Teams -/

section Teams

variable {teams teams' : OrderedMap (Slug ×ₗ ℕ) CurationTeam} {eligible : Addr → Bool}

/-- The key that a team names. -/
def CurationTeam.key (team : CurationTeam) : Slug ×ₗ ℕ := toLex (team.community, team.teamId)

/-- Every team is stored under the community and the number it names. -/
def TeamsFiled (teams : OrderedMap (Slug ×ₗ ℕ) CurationTeam) : Prop :=
  ∀ k team, teams.get k = some team → k = team.key

theorem TeamsFiled.nodup (h : TeamsFiled teams) :
    ((teams.entries.map Prod.snd).map CurationTeam.key).Nodup := by
  have hkeys : (teams.entries.map Prod.snd).map CurationTeam.key = teams.entries.map Prod.fst := by
    rw [List.map_map]
    refine List.map_congr_left ?_
    rintro ⟨k, team⟩ he
    exact (h k team (mem_entries_iff.mp he)).symm
  rw [hkeys]
  exact teams.nodup_keys

/-- Writing teams that are filed under what they name. -/
theorem TeamsFiled.get_foldl_set (h : TeamsFiled teams) (f : CurationTeam → CurationTeam)
    (base : OrderedMap (Slug ×ₗ ℕ) CurationTeam) (k : Slug ×ₗ ℕ) :
    ((teams.entries.map Prod.snd).foldl (fun m team => m.set team.key (f team)) base).get k =
      ((teams.get k).map f).or (base.get k) := by
  cases hget : teams.get k with
  | some team =>
    have hmem : team ∈ teams.entries.map Prod.snd :=
      List.mem_map.mpr ⟨(k, team), mem_entries_iff.mpr hget, rfl⟩
    rw [h k team hget]
    exact get_foldl_set_of_mem CurationTeam.key f h.nodup base hmem
  | none =>
    refine get_foldl_set_of_not_mem CurationTeam.key f base fun team hteam heq => ?_
    obtain ⟨⟨k', team'⟩, he, rfl⟩ := List.mem_map.mp hteam
    have hget' := mem_entries_iff.mp he
    rw [heq, ← h k' team' hget', hget'] at hget
    cases hget

variable {team : CurationTeam}

theorem collectTeam_eq_ok (h : collectTeam teams team = .ok teams') :
    team.teamId ≠ 0 ∧ teams' = teams.set team.key team.uncounted := by
  simp only [collectTeam, bind_eq_ok, failIf_eq_ok, pure_eq_ok, exists_const, not_or] at h
  exact ⟨h.1.2, h.2.2.symm⟩

theorem get_collectTeams (hfiled : TeamsFiled teams)
    (h : (teams.entries.map Prod.snd).foldlM collectTeam .empty = .ok teams') (k : Slug ×ₗ ℕ) :
    teams'.get k = (teams.get k).map CurationTeam.uncounted := by
  rw [foldlM_ok_eq_foldl (fun _ _ _ h => (collectTeam_eq_ok h).2) h, hfiled.get_foldl_set,
    get_empty, or_none]

/-- A team with more subscribers, unless it is deleted. -/
def CurationTeam.joinedBy (team : CurationTeam) (n : ℕ) : CurationTeam :=
  if team.deletedHeight = 0 then { team with subscriberCount := team.subscriberCount + n } else team

@[simp] theorem CurationTeam.joinedBy_zero (team : CurationTeam) : team.joinedBy 0 = team := by
  unfold joinedBy
  split <;> rfl

theorem CurationTeam.joinedBy_joinedBy (team : CurationTeam) (m n : ℕ) :
    (team.joinedBy m).joinedBy n = team.joinedBy (m + n) := by
  by_cases h : team.deletedHeight = 0 <;> simp [joinedBy, h, Nat.add_assoc]

@[simp] theorem CurationTeam.owner_joinedBy (team : CurationTeam) (n : ℕ) :
    (team.joinedBy n).owner = team.owner := by
  unfold joinedBy
  split <;> rfl

@[simp] theorem CurationTeam.live_joinedBy (team : CurationTeam) (n : ℕ) :
    (team.joinedBy n).live = team.live := by
  unfold joinedBy
  split <;> rfl

@[simp] theorem CurationTeam.key_joinedBy (team : CurationTeam) (n : ℕ) :
    (team.joinedBy n).key = team.key := by
  unfold joinedBy
  split <;> rfl

/-- A live team that starts from zero has the subscribers it was given. -/
theorem CurationTeam.subscriberCount_joinedBy {n : ℕ}
    (hlive : (team.uncounted.joinedBy n).live = true) :
    (team.uncounted.joinedBy n).subscriberCount = n := by
  unfold joinedBy at hlive ⊢
  split at hlive
  next hzero =>
    rw [if_pos hzero]
    exact Nat.zero_add n
  next hdeleted => exact absurd (of_decide_eq_true hlive) hdeleted

theorem get_recountJoin {e : (Addr ×ₗ Slug) × CommunityPreference}
    (h : recountJoin eligible teams e = .ok teams') (slug : Slug) (id : ℕ) :
    teams'.get (toLex (slug, id)) = (teams.get (toLex (slug, id))).map fun team =>
      team.joinedBy (if pinnedTo eligible slug id e then 1 else 0) := by
  have hsame : ∀ o : Option CurationTeam, o = o.map fun team => team.joinedBy 0 := by
    intro o
    cases o <;> simp
  unfold recountJoin at h
  dsimp only at h
  split at h
  next hskip =>
    obtain rfl := Except.ok.inj h
    have hnot : pinnedTo eligible slug id e = false := by
      rcases hskip with hskip | hskip <;> simp [pinnedTo, hskip]
    rw [hnot]
    exact hsame _
  next hcounted =>
    push Not at hcounted
    split at h
    next hnone =>
      obtain rfl := Except.ok.inj h
      by_cases hpin : pinnedTo eligible slug id e = true
      · simp only [pinnedTo, Bool.and_eq_true, decide_eq_true_eq] at hpin
        obtain ⟨⟨-, rfl⟩, rfl⟩ := hpin
        rw [hnone]
        rfl
      · rw [if_neg hpin]
        exact hsame _
    next team hteam =>
      split at h
      next hdeleted =>
        obtain rfl := Except.ok.inj h
        by_cases hpin : pinnedTo eligible slug id e = true
        · simp only [pinnedTo, Bool.and_eq_true, decide_eq_true_eq] at hpin
          obtain ⟨⟨-, rfl⟩, rfl⟩ := hpin
          rw [hteam, map_some, CurationTeam.joinedBy, if_neg hdeleted]
        · rw [if_neg hpin]
          exact hsame _
      next hlive =>
        rw [bind_eq_ok] at h
        obtain ⟨next, hnext, h⟩ := h
        obtain rfl := pure_eq_ok.mp h
        obtain ⟨-, rfl⟩ := checkedAddUint64_eq_ok.mp (mapError_eq_ok.mp hnext)
        by_cases hpin : pinnedTo eligible slug id e = true
        · rw [if_pos hpin]
          simp only [pinnedTo, Bool.and_eq_true, decide_eq_true_eq] at hpin
          obtain ⟨⟨-, rfl⟩, rfl⟩ := hpin
          rw [hteam, get_set_self, map_some, CurationTeam.joinedBy,
            if_pos (not_not.mp hlive)]
        · rw [if_neg hpin, get_set_of_ne]
          · exact hsame _
          · intro heq
            obtain ⟨hslug, hid⟩ := Prod.mk.inj (toLex.injective heq)
            exact hpin (by simp [pinnedTo, hcounted, hslug, hid])

theorem get_recount {es : List ((Addr ×ₗ Slug) × CommunityPreference)}
    (h : es.foldlM (recountJoin eligible) teams = .ok teams') (slug : Slug) (id : ℕ) :
    teams'.get (toLex (slug, id)) = (teams.get (toLex (slug, id))).map fun team =>
      team.joinedBy (es.countP (pinnedTo eligible slug id)) := by
  induction es generalizing teams with
  | nil =>
    obtain rfl := pure_eq_ok.mp h
    cases teams.get (toLex (slug, id)) <;> simp
  | cons e es ih =>
    rw [List.foldlM_cons, bind_eq_ok] at h
    obtain ⟨teams₁, he, hrest⟩ := h
    rw [ih hrest, get_recountJoin he, map_map, List.countP_cons]
    simp only [Function.comp_def, CurationTeam.joinedBy_joinedBy, Nat.add_comm]

theorem foldl_setCurationTeam (teams : List CurationTeam) (c : CurationState) :
    teams.foldl CurationState.setCurationTeam c =
      { c with teams := teams.foldl (fun m team => m.set team.key team) c.teams } := by
  induction teams generalizing c with
  | nil => rfl
  | cons team teams ih => exact ih _

/-- The teams after the recount, each with the number of its subscribers. -/
theorem migrateCuratorDefinedCommunities_eq_ok (hfiled : TeamsFiled c.teams)
    (h : migrateCuratorDefinedCommunities eligible c = .ok c') :
    c' = { c with teams := c'.teams } ∧ ∀ slug id,
      c'.teams.get (toLex (slug, id)) = (c.teams.get (toLex (slug, id))).map fun team =>
        team.uncounted.joinedBy (c.subscribers eligible slug id) := by
  simp only [migrateCuratorDefinedCommunities, bind_eq_ok, pure_eq_ok] at h
  obtain ⟨teams₁, h₁, teams₂, h₂, rfl⟩ := h
  have hget : ∀ slug id, teams₂.get (toLex (slug, id)) =
      (c.teams.get (toLex (slug, id))).map fun team =>
        team.uncounted.joinedBy (c.subscribers eligible slug id) := by
    intro slug id
    rw [get_recount h₂, get_collectTeams hfiled h₁, map_map]
    rfl
  have hfiled₂ : TeamsFiled teams₂ := by
    intro k team hteam
    have hteam' := hget (ofLex k).1 (ofLex k).2
    rw [show toLex ((ofLex k).1, (ofLex k).2) = k from rfl, hteam, eq_comm,
      map_eq_some_iff] at hteam'
    obtain ⟨old, hold, rfl⟩ := hteam'
    rw [CurationTeam.key_joinedBy]
    exact hfiled k old hold
  rw [foldl_setCurationTeam]
  refine ⟨rfl, fun slug id => ?_⟩
  rw [← hget slug id]
  refine (hfiled₂.get_foldl_set (fun team => team) c.teams _).trans ?_
  rw [map_id']
  cases hold : c.teams.get (toLex (slug, id)) with
  | none => exact or_none
  | some team =>
    have hsome := hget slug id
    rw [hold, map_some] at hsome
    rw [hsome]
    rfl

/-- Every live team has the number of its subscribers. -/
theorem subscriberCount_migrateCuratorDefinedCommunities (hfiled : TeamsFiled c.teams)
    (h : migrateCuratorDefinedCommunities eligible c = .ok c') {slug : Slug} {id : ℕ}
    (hlive : c'.liveTeam slug id = some team) :
    team.subscriberCount = c'.subscribers eligible slug id := by
  obtain ⟨hc', hget⟩ := migrateCuratorDefinedCommunities_eq_ok hfiled h
  obtain ⟨hteam, halive⟩ := filter_eq_some_iff.mp hlive
  obtain ⟨old, -, rfl⟩ := map_eq_some_iff.mp ((hget slug id).symm.trans hteam)
  have hsame : c'.subscribers eligible slug id = c.subscribers eligible slug id := by
    rw [hc']
    rfl
  rw [hsame]
  exact CurationTeam.subscriberCount_joinedBy halive

end Teams

/-! ## 5. Profiles -/

section Profiles

variable {now : ℤ} {core : ProfileCore} {owner : Addr}

theorem ProfileCore.validPaid_iff :
    core.validPaid now = true ↔
      (core.level = levelSubscriber ∨ core.level = levelAgent) ∧ now < core.subscriptionExpiry := by
  simp only [validPaid, Bool.and_eq_true, Bool.or_eq_true, decide_eq_true_eq, gt_iff_lt, and_comm]

@[simp] theorem ProfileCore.migrated_effectivePaid :
    (core.migrated now).effectivePaid = core.validPaid now := by
  unfold migrated
  split
  next h => exact h.symm
  next h => exact (Bool.not_eq_true _ ▸ h).symm

@[simp] theorem ProfileCore.migrated_subscriptionExpiry :
    (core.migrated now).subscriptionExpiry = core.subscriptionExpiry := by
  unfold migrated
  split <;> rfl

@[simp] theorem ProfileCore.migrated_reserveFunds : (core.migrated now).reserveFunds = 0 := by
  unfold migrated
  split <;> rfl

variable {subs : OrderedMap (ℤ ×ₗ Addr) ℤ} {idx rest : OrderedMap Addr ℤ}

theorem indexOwner_eq_ok {e : (ℤ ×ₗ Addr) × ℤ} (h : indexOwner idx e = .ok rest) :
    idx.get (ofLex e.1).2 = none ∧ rest = idx.set (ofLex e.1).2 (ofLex e.1).1 := by
  simp only [indexOwner, bind_eq_ok, failIf_eq_ok, pure_eq_ok, exists_const, Bool.not_eq_true,
    has_eq_false_iff] at h
  exact ⟨h.1, h.2.symm⟩

/-- The index by owner has every record of an index without duplicates, and no other. -/
theorem get_indexOwner (h : subs.entries.foldlM indexOwner .empty = .ok idx) (a : Addr) (x : ℤ) :
    idx.get a = some x ↔ subs.has (toLex (x, a)) = true := by
  constructor
  · refine foldlM_ok_induction (P := fun idx => idx.get a = some x → _) ?_ h nofun
    rintro ⟨k, level⟩ he m m' hm ih hget
    obtain ⟨-, rfl⟩ := indexOwner_eq_ok hm
    rcases get_set_cases hget with ⟨rfl, rfl⟩ | ⟨-, hget⟩
    · exact has_iff.mpr ⟨level, mem_entries_iff.mp he⟩
    · exact ih hget
  · intro hhas
    obtain ⟨level, hlevel⟩ := has_iff.mp hhas
    refine foldlM_ok_forall (Q := fun e idx => idx.get (ofLex e.1).2 = some (ofLex e.1).1)
      ?_ ?_ h _ (mem_entries_iff.mpr hlevel)
    · intro e m m' hm
      obtain ⟨-, rfl⟩ := indexOwner_eq_ok hm
      exact get_set_self _ _ _
    · intro e e' m m' hm hget
      obtain ⟨hnone, rfl⟩ := indexOwner_eq_ok hm
      rw [get_set_of_ne, hget]
      intro heq
      rw [← heq, hget] at hnone
      cases hnone

theorem checkPaidIndex_eq_ok {e : Addr × ProfileCore} (h : checkPaidIndex now idx e = .ok rest) :
    (e.2.validPaid now = true → idx.get e.1 = some e.2.subscriptionExpiry) ∧
      rest = idx.erase e.1 := by
  unfold checkPaidIndex at h
  split at h <;> simp only [bind_eq_ok, failIf_eq_ok, pure_eq_ok, exists_const] at h
  next hpaid => exact ⟨fun _ => not_not.mp h.1, h.2.symm⟩
  next hpaid => exact ⟨fun hp => absurd hp hpaid, h.2.symm⟩

/-- The index agrees with every paid profile that was checked against it. -/
theorem checkPaidIndex_foldlM {es : List (Addr × ProfileCore)}
    (h : es.foldlM (checkPaidIndex now) idx = .ok rest) :
    ∀ e ∈ es, e.2.validPaid now = true → idx.get e.1 = some e.2.subscriptionExpiry := by
  induction es generalizing idx with
  | nil => exact fun e he => absurd he List.not_mem_nil
  | cons e es ih =>
    rw [List.foldlM_cons, bind_eq_ok] at h
    obtain ⟨idx₁, he, hrest⟩ := h
    obtain ⟨hpaid, rfl⟩ := checkPaidIndex_eq_ok he
    refine List.forall_mem_cons.mpr ⟨hpaid, fun e' he' hpaid' => ?_⟩
    exact get_of_get_erase (ih hrest e' he' hpaid')

/-- A paid profile has one index entry, at its expiry. -/
theorem checkSubscriptions_eq_ok {profiles : Profiles}
    (h : checkSubscriptions now profiles subs = .ok ())
    (hcore : profiles.get owner = some core) (hpaid : core.validPaid now = true) (x : ℤ) :
    subs.has (toLex (x, owner)) = true ↔ x = core.subscriptionExpiry := by
  simp only [checkSubscriptions, bind_eq_ok, failIf_eq_ok] at h
  obtain ⟨idx, hidx, rest, hrest, -⟩ := h
  have hget := checkPaidIndex_foldlM hrest (owner, core) (mem_entries_iff.mpr hcore) hpaid
  rw [← get_indexOwner hidx, hget, Option.some.injEq, eq_comm]

theorem burnReserve_eq_ok {bank bank' : Bank} {reserve : ℕ}
    (h : burnReserve bank reserve = .ok bank') :
    reserve ≤ bank.core ∧ bank' = { bank with core := bank.core - reserve } := by
  simp only [burnReserve, bind_eq_ok, failIf_eq_ok, exists_const] at h
  obtain ⟨hcover, h⟩ := h
  refine ⟨not_lt.mp hcover, ?_⟩
  split at h
  · simp only [bind_eq_ok, failIf_eq_ok, mapError_eq_ok, exists_const, Bank.burnCoinsTracked,
      pure_eq_ok] at h
    exact h.2.2.symm
  next hzero =>
    obtain rfl : reserve = 0 := Nat.eq_zero_of_not_pos hzero
    exact (pure_eq_ok.mp h).symm

/-- An account has a renewal state for its expiry, and the queue entry it names. -/
def Scheduled (s : ChainState) (owner : Addr) : Prop :=
  ∃ core st, s.profiles.get owner = some core ∧ s.renewals.get owner = some st ∧
    st.expiry = core.subscriptionExpiry ∧ s.renewalQueue.has (st.key owner) = true

theorem Scheduled.replace_self (hnamed : RenewalsNamed s) (now : ℤ)
    (hcore : s.profiles.get owner = some core) (hpos : 0 < core.subscriptionExpiry) :
    Scheduled (replaceSubscriptionRenewalSchedule now s owner) owner := by
  have hhas := (hnamed.has_replace_self now hcore hpos (RenewalState.owner_key _ _)).mpr rfl
  rw [replaceSubscriptionRenewalSchedule_scheduled now hcore hpos] at hhas ⊢
  exact ⟨core, _, hcore, get_set_self _ _ _, rfl, hhas⟩

theorem Scheduled.replace (h : Scheduled s owner) (hnamed : RenewalsNamed s) (now : ℤ) {a : Addr}
    (hpos : ∀ core, s.profiles.get a = some core → 0 < core.subscriptionExpiry) :
    Scheduled (replaceSubscriptionRenewalSchedule now s a) owner := by
  obtain ⟨core, st, hcore, hst, hexpiry, hqueue⟩ := h
  rcases eq_or_ne a owner with rfl | hne
  · exact .replace_self hnamed now hcore (hpos core hcore)
  · have hqueue' := (@RenewalsNamed.has_replace_of_ne s a hnamed now (st.key owner)
      hne.symm).mpr hqueue
    obtain ⟨renewals, queue, hframe⟩ := replaceSubscriptionRenewalSchedule_frame now s a
    have hst' : (replaceSubscriptionRenewalSchedule now s a).renewals.get owner = some st := by
      by_cases ha : ∃ core, s.profiles.get a = some core
      · obtain ⟨coreₐ, hcoreₐ⟩ := ha
        rw [replaceSubscriptionRenewalSchedule_scheduled now hcoreₐ (hpos coreₐ hcoreₐ)]
        exact (get_set_of_ne _ hne.symm).trans hst
      · rw [replaceSubscriptionRenewalSchedule_unscheduled now fun core h => absurd ⟨core, h⟩ ha]
        exact (get_erase_of_ne hne.symm).trans hst
    refine ⟨core, st, ?_, hst', hexpiry, hqueue'⟩
    rw [hframe]
    exact hcore

/-- Scheduling changes nothing else. -/
theorem foldl_scheduleRenewal_frame (now : ℤ) (es : List (Addr × ProfileCore)) (s : ChainState) :
    ∃ renewals queue, es.foldl (scheduleRenewal now) s =
      { s with renewals := renewals, renewalQueue := queue } := by
  induction es generalizing s with
  | nil => exact ⟨_, _, rfl⟩
  | cons e es ih =>
    obtain ⟨renewals₁, queue₁, hframe₁⟩ : ∃ renewals queue, scheduleRenewal now s e =
        { s with renewals := renewals, renewalQueue := queue } := by
      unfold scheduleRenewal
      split
      · exact replaceSubscriptionRenewalSchedule_frame now s e.1
      · exact ⟨_, _, rfl⟩
    obtain ⟨renewals₂, queue₂, hframe₂⟩ := ih (scheduleRenewal now s e)
    exact ⟨renewals₂, queue₂, by rw [List.foldl_cons, hframe₂, hframe₁]⟩

/-- Scheduling keeps the queue named and keeps who is scheduled. -/
theorem scheduleRenewal_keeps (now : ℤ) {e : Addr × ProfileCore}
    (he : s.profiles.get e.1 = some e.2) (hnamed : RenewalsNamed s) :
    RenewalsNamed (scheduleRenewal now s e) ∧
      ∀ a, Scheduled s a → Scheduled (scheduleRenewal now s e) a := by
  unfold scheduleRenewal
  split
  next hpaid =>
    refine ⟨hnamed.replace now e.1, fun a ha => ha.replace hnamed now fun core hcore => ?_⟩
    obtain rfl : e.2 = core := Option.some.inj (he.symm.trans hcore)
    exact hpaid.2
  next => exact ⟨hnamed, fun _ ha => ha⟩

theorem foldl_scheduleRenewal (now : ℤ) {es : List (Addr × ProfileCore)}
    (hes : ∀ e ∈ es, s.profiles.get e.1 = some e.2) (hnamed : RenewalsNamed s) :
    RenewalsNamed (es.foldl (scheduleRenewal now) s) ∧
      (∀ a, Scheduled s a → Scheduled (es.foldl (scheduleRenewal now) s) a) ∧
      ∀ e ∈ es, e.2.effectivePaid = true → 0 < e.2.subscriptionExpiry →
        Scheduled (es.foldl (scheduleRenewal now) s) e.1 := by
  induction es generalizing s with
  | nil => exact ⟨hnamed, fun _ ha => ha, fun e he => absurd he List.not_mem_nil⟩
  | cons e es ih =>
    have hhead := hes e List.mem_cons_self
    obtain ⟨hnamed₁, hkeep₁⟩ := scheduleRenewal_keeps now hhead hnamed
    have hes₁ : ∀ e' ∈ es, (scheduleRenewal now s e).profiles.get e'.1 = some e'.2 := by
      obtain ⟨_, _, hframe⟩ := foldl_scheduleRenewal_frame now [e] s
      rw [List.foldl_cons, List.foldl_nil] at hframe
      rw [hframe]
      exact fun e' he' => hes e' (List.mem_cons_of_mem e he')
    obtain ⟨hnamed₂, hkeep₂, hdone₂⟩ := ih hes₁ hnamed₁
    refine ⟨hnamed₂, fun a ha => hkeep₂ a (hkeep₁ a ha),
      List.forall_mem_cons.mpr ⟨fun hpaid hpos => hkeep₂ _ ?_, hdone₂⟩⟩
    rw [scheduleRenewal, if_pos ⟨hpaid, hpos⟩]
    exact .replace_self hnamed now hhead hpos

end Profiles

/-! ## 6. The migration -/

theorem startCreatorGrid_eq_ok {now : ℤ} {seconds : ℕ} {creator creator' : CreatorState}
    (h : startCreatorGrid now seconds creator = .ok creator') :
    0 ≤ now ∧ creator'.bank = creator.bank := by
  simp only [startCreatorGrid, bind_eq_ok, pure_eq_ok] at h
  obtain ⟨epoch, hepoch, creator₁, hsched, stream, -, rfl⟩ := h
  simp only [setCreatorSchedule, bind_eq_ok, failIf_eq_ok, pure_eq_ok, exists_const] at hsched
  obtain ⟨-, -, rfl⟩ := hsched
  simp only [creatorEpochFromUnix, CreatorSchedule.epochAt, bind_eq_ok, failIf_eq_ok,
    exists_const] at hepoch
  exact ⟨not_lt.mp hepoch.1, rfl⟩

/-- The record of an account with a profile after the migration. -/
structure ProfileMigrated (now : ℤ) (before : ProfileCore) (s' : ChainState) (owner : Addr)
    (after : ProfileCore) : Prop where
  paid : after.effectivePaid = true ↔
    (before.level = levelSubscriber ∨ before.level = levelAgent) ∧ now < before.subscriptionExpiry
  expiry : after.effectivePaid = true → after.subscriptionExpiry = before.subscriptionExpiry
  indexed : after.effectivePaid = true →
    ∀ x, s'.subs.has (toLex (x, owner)) = true ↔ x = after.subscriptionExpiry
  queued : after.effectivePaid = true → ∃ st, s'.renewals.get owner = some st ∧
    st.expiry = after.subscriptionExpiry ∧
    ∀ key, s'.renewalQueue.has key = true ∧ key.owner = owner ↔ key = st.key owner
  reserve : after.reserveFunds = 0

/-- What a migration leaves of the records of the users. -/
structure Migrated (ctx : BlockCtx) (s s' : ChainState) : Prop where
  follows : ∀ owner topic, s.followedTopics.hasEntry owner topic = true →
    FollowsMigrated s.followedTopics s'.curation owner
  blocks : ∀ owner, BlocksMigrated s.blockedTopics s'.blockedCommunities owner
  profiles : ∀ owner before, s.profiles.get owner = some before →
    ∃ after, s'.profiles.get owner = some after ∧ ProfileMigrated ctx.time before s' owner after
  noProfiles : ∀ owner, s.profiles.get owner = none → s'.profiles.get owner = none
  teams : ∀ slug id team, s'.curation.liveTeam slug id = some team →
    team.subscriberCount = s'.curation.subscribers (Profiles.eligible s'.profiles) slug id
  covered : reserveTotal s.profiles ≤ s.creator.bank.core
  burned : s'.creator.bank =
    { s.creator.bank with core := s.creator.bank.core - reserveTotal s.profiles }
  again : ∀ ctx', migrateV139 ctx' s' = .ok s'

/-- No account with followed topics has joined a community. -/
def FollowersUnjoined (s : ChainState) : Prop :=
  ∀ owner topic, s.followedTopics.hasEntry owner topic = true →
    s.curation.joinedCommunities owner = []

/-- What the migration did, part by part. -/
theorem migrateV139_eq_ok (hold : s.upgraded = false) (h : migrateV139 ctx s = .ok s') :
    ∃ s₁ creator, migrateRecords ctx.time s = .ok s₁ ∧ 0 ≤ ctx.time ∧
      creator.bank = (s₁.profiles.entries.foldl (scheduleRenewal ctx.time) s₁).creator.bank ∧
      s' = { s₁.profiles.entries.foldl (scheduleRenewal ctx.time) s₁ with
        creator := creator, upgraded := true } := by
  simp only [migrateV139, hold, Bool.false_eq_true, if_false, bind_eq_ok, pure_eq_ok,
    mapError_eq_ok] at h
  obtain ⟨s₁, hs₁, creator, hgrid, rfl⟩ := h
  obtain ⟨hnow, hbank⟩ := startCreatorGrid_eq_ok hgrid
  exact ⟨s₁, creator, hs₁, hnow, hbank, rfl⟩

/-- What the migration does to the curation store and to the blocked communities. -/
theorem migrateV139_curation (hold : s.upgraded = false) (h : migrateV139 ctx s = .ok s') :
    ∃ c₁, migrateFollowedTopics s.followedTopics s.curation = .ok c₁ ∧
      migrateCuratorDefinedCommunities (Profiles.eligible s'.profiles) c₁ = .ok s'.curation ∧
      migrateBlockedTopics s.blockedTopics s.blockedCommunities = .ok s'.blockedCommunities ∧
      s'.profiles = (s.profiles.mapVal fun core => core.migrated ctx.time) ∧
      s'.foundersPinned = s.foundersPinned ∧
      (TeamsFiled s.curation.teams → TeamsFiled c₁.teams) := by
  obtain ⟨s₁, creator, hs₁, -, -, rfl⟩ := migrateV139_eq_ok hold h
  simp only [migrateRecords, bind_eq_ok, pure_eq_ok] at hs₁
  obtain ⟨_, -, bank, -, c₁, hfollowed, b, hblocked, c₂, hteams, _, -, hs₁⟩ := hs₁
  obtain ⟨_, _, hframe⟩ := foldl_scheduleRenewal_frame ctx.time s₁.profiles.entries s₁
  rw [hframe]
  subst hs₁
  refine ⟨c₁, hfollowed, hteams, hblocked, rfl, rfl, fun hfiled => ?_⟩
  rw [migrateFollowedTopics_eq_ok hfollowed]
  exact hfiled

/-- A migration that succeeds keeps the users' records, on a store without blocked communities
whose teams are stored under what they name and whose renewal queue has no stray entries. -/
theorem migration_keeps_records (ctx : BlockCtx) (s s' : ChainState) (hold : s.upgraded = false)
    (hordered : s.blockedTopics.Ordered) (hunjoined : FollowersUnjoined s)
    (hblocked : s.blockedCommunities = .empty) (hfiled : TeamsFiled s.curation.teams)
    (hnamed : RenewalsNamed s) (h : migrateV139 ctx s = .ok s') : Migrated ctx s s' := by
  obtain ⟨s₁, creator, hs₁, hnow, hbank, rfl⟩ := migrateV139_eq_ok hold h
  simp only [migrateRecords, bind_eq_ok, pure_eq_ok, mapError_eq_ok] at hs₁
  obtain ⟨⟨⟩, hsubs, bank, hburn, c₁, hfollowed, b, hb, c₂, hteams, ⟨⟩, -, hs₁⟩ := hs₁
  obtain ⟨hcovered, rfl⟩ := burnReserve_eq_ok hburn
  have hc₁ := migrateFollowedTopics_eq_ok hfollowed
  have hfiled₁ : TeamsFiled c₁.teams := by
    rw [hc₁]
    exact hfiled
  obtain ⟨hc₂, -⟩ := migrateCuratorDefinedCommunities_eq_ok hfiled₁ hteams
  rw [hblocked] at hb
  have hnamed₁ : RenewalsNamed s₁ := by
    rw [← hs₁]
    exact hnamed
  -- the schedules are made of the new profiles
  obtain ⟨hnamed', -, hdone⟩ := foldl_scheduleRenewal ctx.time
    (fun e he => mem_entries_iff.mp he) hnamed₁
  obtain ⟨renewals, queue, hframe⟩ := foldl_scheduleRenewal_frame ctx.time s₁.profiles.entries s₁
  rw [hframe] at hnamed' hdone hbank ⊢
  subst hs₁
  refine ⟨fun owner topic htopic => ?_, blocksMigrated_of_eq_ok hb hordered,
    fun owner before hbefore => ?_, fun owner hnone => ?_, fun slug id team hlive => ?_, hcovered,
    hbank, fun _ => rfl⟩
  · obtain ⟨hjoined, hpref, hrev, hcount⟩ := followsMigrated_of_eq_ok hfollowed htopic
      (hunjoined owner topic htopic)
    rw [hc₂]
    exact ⟨hjoined, hpref, hrev, hcount⟩
  · have hafter : (s.profiles.mapVal fun core => core.migrated ctx.time).get owner =
        some (before.migrated ctx.time) := by
      rw [get_mapVal, hbefore, map_some]
    refine ⟨_, hafter, ?_, fun _ => before.migrated_subscriptionExpiry, fun hpaid => ?_,
      fun hpaid => ?_, before.migrated_reserveFunds⟩
    · rw [before.migrated_effectivePaid, ProfileCore.validPaid_iff]
    · rw [before.migrated_effectivePaid] at hpaid
      rw [before.migrated_subscriptionExpiry]
      exact checkSubscriptions_eq_ok hsubs hbefore hpaid
    · have hpos : 0 < (before.migrated ctx.time).subscriptionExpiry := by
        rw [before.migrated_effectivePaid, ProfileCore.validPaid_iff] at hpaid
        rw [before.migrated_subscriptionExpiry]
        exact hnow.trans_lt hpaid.2
      obtain ⟨core, st, hcore, hst, hexpiry, hhas⟩ :=
        hdone _ (mem_entries_iff.mpr hafter) hpaid hpos
      obtain rfl : before.migrated ctx.time = core := Option.some.inj (hafter.symm.trans hcore)
      refine ⟨st, hst, hexpiry, fun key => ⟨?_, ?_⟩⟩
      · rintro ⟨hkey, howner⟩
        exact hnamed'.unique hkey hhas howner
      · rintro rfl
        exact ⟨hhas, rfl⟩
  · show OrderedMap.get _ _ = none
    rw [get_mapVal, hnone, map_none]
  · exact subscriberCount_migrateCuratorDefinedCommunities hfiled₁ hteams hlive

/-- A store from before v1.39.0: account 7 is an agent with a reserve who follows topic 3 and
blocks topic 4, account 8 is an admin who is pinned to the team of community 3. -/
def oldStore : ChainState :=
  { ChainState.fresh ⟨.empty, 0, 5⟩ .empty defaultParams with
    profiles := (OrderedMap.empty.set 7 ⟨none, levelAgent, 2000, true, false, 5⟩).set 8
      ⟨none, levelAdminMin, 0, false, false, 0⟩
    subs := OrderedMap.empty.set (toLex (2000, 7)) levelAgent
    followedTopics := { ListStore.empty with entries := OrderedMap.empty.set (toLex (7, 3)) 1 }
    blockedTopics := { ListStore.empty with entries := OrderedMap.empty.set (toLex (7, 4)) 0 }
    curation := { CurationState.empty with
      joins := OrderedMap.empty.set (toLex (8, 3)) ⟨.pinned, 1⟩
      teams := OrderedMap.empty.set (toLex (3, 1)) ⟨3, 1, 8, 1, 0, 1, 0, 0, 0, 0, 0, false⟩ } }

theorem migration_keeps_records_oldStore :
    ∃ s', migrateV139 ⟨1000, 1, 0⟩ oldStore = .ok s' ∧ Migrated ⟨1000, 1, 0⟩ oldStore s' := by
  have hok : (migrateV139 ⟨1000, 1, 0⟩ oldStore).toOption.isSome = true := by decide +kernel
  obtain ⟨s', hs'⟩ := isSome_iff_exists.mp hok
  have hs' := toOption_eq_some.mp hs'
  refine ⟨s', hs', migration_keeps_records _ _ _ rfl ?_ ?_ rfl ?_ nofun hs'⟩
  · intro owner p q seq hp hq
    simp [oldStore, get_set] at hp hq
    omega
  · intro owner topic htopic
    obtain ⟨v, hv⟩ := has_iff.mp htopic
    simp [oldStore, get_set] at hv
    obtain ⟨⟨rfl, -⟩, -⟩ := hv
    decide +kernel
  · intro k team hteam
    simp [oldStore, get_set] at hteam
    obtain ⟨rfl, rfl⟩ := hteam
    rfl

/-- A store that was not migrated and already has a blocked community: account 7 blocked
community 5 with number 4, and has the blocked topic 3 with number 0. -/
def staleBlocks : ChainState :=
  { ChainState.fresh ⟨.empty, 0, 0⟩ .empty defaultParams with
    blockedTopics := { ListStore.empty with entries := OrderedMap.empty.set (toLex (7, 3)) 0 }
    blockedCommunities := {
      entries := OrderedMap.empty.set (toLex (7, toLex (4, 5))) ()
      idx := OrderedMap.empty.set (toLex (7, 5)) 4
      counts := OrderedMap.empty.set 7 1
      next := OrderedMap.empty.set 7 5 } }

/-- A store that was not migrated and has a queue entry that no renewal state names. -/
def strayRenewal : ChainState :=
  { ChainState.fresh ⟨.empty, 0, 0⟩ .empty defaultParams with
    profiles := OrderedMap.empty.set 7 ⟨none, levelSubscriber, 2000, true, false, 0⟩
    subs := OrderedMap.empty.set (toLex (2000, 7)) levelSubscriber
    renewalQueue := OrderedMap.empty.set (renewalKey 5 7 1500 1) () }

/-- A store that was not migrated and has team 1 of community 3 under another number. -/
def misfiledTeam : ChainState :=
  { ChainState.fresh ⟨.empty, 0, 0⟩ .empty defaultParams with
    curation := { CurationState.empty with
      teams := OrderedMap.empty.set (toLex (3, 2)) ⟨3, 1, 8, 1, 0, 1, 0, 0, 9, 0, 0, false⟩ } }

/-- The migration counts only the blocks it moves: account 7 of `staleBlocks` then has two
blocked communities, a count of one and a next number below the one in use. A queue entry that
no renewal state names stays beside the new one. A team that is not stored under what it names
is not counted again where it stands. -/
theorem migration_trusts_old_records :
    (staleBlocks.upgraded = false ∧ staleBlocks.blockedTopics.Ordered ∧
      FollowersUnjoined staleBlocks ∧
      ∃ s', migrateV139 ⟨1000, 1, 0⟩ staleBlocks = .ok s' ∧
        s'.blockedCommunities.patterns 7 = [3, 5] ∧ s'.blockedCommunities.counts.count 7 = 1 ∧
        s'.blockedCommunities.next.count 7 = 1) ∧
    (strayRenewal.upgraded = false ∧ strayRenewal.blockedTopics.Ordered ∧
      FollowersUnjoined strayRenewal ∧
      ∃ s', migrateV139 ⟨1000, 1, 0⟩ strayRenewal = .ok s' ∧
        (s'.profiles.get 7).map ProfileCore.effectivePaid = some true ∧
        (s'.renewalQueue.entries.map fun e => e.1.owner) = [7, 7]) ∧
    (misfiledTeam.upgraded = false ∧ misfiledTeam.blockedTopics.Ordered ∧
      FollowersUnjoined misfiledTeam ∧
      ∃ s', migrateV139 ⟨1000, 1, 0⟩ misfiledTeam = .ok s' ∧
        (s'.curation.liveTeam 3 2).map CurationTeam.subscriberCount = some 9 ∧
        s'.curation.joins.size = 0) := by
  have hrun : ∀ {α : Type} {s : ChainState} {f : ChainState → α} {v : α},
      (migrateV139 ⟨1000, 1, 0⟩ s).toOption.map f = some v →
      ∃ s', migrateV139 ⟨1000, 1, 0⟩ s = .ok s' ∧ f s' = v := by
    intro α s f v h
    obtain ⟨s', hs', hv⟩ := map_eq_some_iff.mp h
    exact ⟨s', toOption_eq_some.mp hs', hv⟩
  refine ⟨⟨rfl, ?_, nofun, ?_⟩, ⟨rfl, nofun, nofun, ?_⟩, ⟨rfl, nofun, nofun, ?_⟩⟩
  · intro owner p q seq hp hq
    simp [staleBlocks, get_set] at hp hq
    omega
  · obtain ⟨s', hs', hv⟩ := @hrun _ staleBlocks (fun s' => (s'.blockedCommunities.patterns 7,
      s'.blockedCommunities.counts.count 7, s'.blockedCommunities.next.count 7)) ([3, 5], 1, 1)
      (by decide +kernel)
    simp only [Prod.mk.injEq] at hv
    exact ⟨s', hs', hv⟩
  · obtain ⟨s', hs', hv⟩ := @hrun _ strayRenewal (fun s' =>
      ((s'.profiles.get 7).map ProfileCore.effectivePaid,
        s'.renewalQueue.entries.map fun e => e.1.owner)) (some true, [7, 7]) (by decide +kernel)
    simp only [Prod.mk.injEq] at hv
    exact ⟨s', hs', hv⟩
  · obtain ⟨s', hs', hv⟩ := @hrun _ misfiledTeam (fun s' =>
      ((s'.curation.liveTeam 3 2).map CurationTeam.subscriberCount, s'.curation.joins.size))
      (some 9, 0) (by decide +kernel)
    simp only [Prod.mk.injEq] at hv
    exact ⟨s', hs', hv⟩

end MirageNode
