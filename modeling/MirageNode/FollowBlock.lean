import MirageNode.BoundedLists
import MirageNode.Genesis
import MirageNode.SubscriptionCalls

/-!
# Following and blocking

`FollowUser` takes the user off the sender's blocked users and `BlockUser` off the followed
ones, so nobody is on both lists of an account. Whatever the limits are and whoever is
dropped from a full list, this holds after every history of the four messages that write
to the lists, and the stored counts are the sizes of the lists.
-/

namespace MirageNode

open OrderedStore OrderedMap Fallible BoundedQueue

/-! ## 1. Writes to a list -/

namespace ListStore

variable {l l' : ListStore} {owner o : Addr} {entry e cap : ℕ}

/-- Every stored count is the number of the entries. -/
def Counted (l : ListStore) : Prop := RowCount l.entries l.counts

theorem counted_empty : Counted .empty := RowCount.empty

theorem get_of_hasEntry (h : l.hasEntry owner entry = true) :
    ∃ seq, l.entries.get (toLex (owner, entry)) = some seq := has_iff.mp h

theorem get_of_not_hasEntry (h : ¬ l.hasEntry owner entry = true) :
    l.entries.get (toLex (owner, entry)) = none :=
  has_eq_false_iff.mp (by simpa [hasEntry] using h)

theorem hasEntry_removeSetEntry : (l.removeSetEntry owner entry).hasEntry o e = true ↔
    l.hasEntry o e = true ∧ ¬ (o = owner ∧ e = entry) := by
  unfold removeSetEntry
  split
  · simp only [hasEntry, has_erase, Bool.and_eq_true, Bool.not_eq_true',
      decide_eq_false_iff_not, EmbeddingLike.apply_eq_iff_eq, Prod.mk.injEq]
    exact and_comm
  next habsent =>
    refine ⟨fun h => ⟨h, ?_⟩, And.left⟩
    rintro ⟨rfl, rfl⟩
    exact habsent h

theorem Counted.removeSetEntry (h : l.Counted) (owner : Addr) (entry : ℕ) :
    (l.removeSetEntry owner entry).Counted := by
  unfold ListStore.removeSetEntry
  split
  next hhas =>
    obtain ⟨seq, hget⟩ := get_of_hasEntry hhas
    exact RowCount.erase h hget
  next => exact h

/-- What an addition to a set or a deque writes before any eviction. -/
theorem hasEntry_set {v : ℕ} {counts seqs : OrderedMap Addr ℕ} :
    (⟨l.entries.set (toLex (owner, entry)) v, counts, seqs⟩ : ListStore).hasEntry o e = true ↔
      (o = owner ∧ e = entry) ∨ l.hasEntry o e = true := by
  simp [hasEntry, has_set_iff]

theorem Counted.set (h : l.Counted) (hnew : ¬ l.hasEntry owner entry = true) (v : ℕ)
    (seqs : OrderedMap Addr ℕ) :
    Counted ⟨l.entries.set (toLex (owner, entry)) v,
      l.counts.set owner (l.counts.count owner + 1), seqs⟩ := by
  have hset := RowCount.set h v (get_of_not_hasEntry hnew)
  rwa [OrderedMap.setCount, if_neg (Nat.succ_ne_zero _)] at hset

/-- `addSetEntry` puts in the entry. -/
theorem addSetEntry_spec (h : l.addSetEntry owner entry = .ok l') (hc : l.Counted) :
    l'.Counted ∧ ∀ o e, l'.hasEntry o e = true → (o = owner ∧ e = entry) ∨
      l.hasEntry o e = true := by
  unfold addSetEntry at h
  split at h
  · obtain rfl := Except.ok.inj h
    exact ⟨hc, fun _ _ => .inr⟩
  next hnew =>
    simp only [bind_eq_ok, failIf_eq_ok, pure_eq_ok, exists_const] at h
    obtain ⟨-, rfl⟩ := h
    exact ⟨hc.set hnew 1 l.seqs, fun _ _ => hasEntry_set.mp⟩

/-- What is dropped above the cap is one of the entries. -/
theorem evicted_eq_remove (h : l.hasEntry owner entry = true) :
    ∃ e, { l.evictLowestSeq owner with
      counts := (l.evictLowestSeq owner).counts.setCount owner (l.counts.count owner - 1) } =
      l.removeSetEntry owner e := by
  obtain ⟨seq, hget⟩ := get_of_hasEntry h
  have hmem : (entry, seq) ∈ (l.entries.slice owner).entries :=
    mem_entries_iff.mpr ((get_slice _ _ _).trans hget)
  obtain ⟨⟨e, s⟩, he, hfold⟩ : ∃ b ∈ (l.entries.slice owner).entries,
      (l.entries.slice owner).entries.foldl lowerSeq none = some b := by
    cases hentries : (l.entries.slice owner).entries with
    | nil =>
      rw [hentries] at hmem
      cases hmem
    | cons b bs =>
      obtain ⟨b', hb', hfold, -⟩ := foldl_keepLower Prod.snd bs b
      exact ⟨b', hb', by rw [lowerSeq_eq]; exact hfold⟩
  have hhas : l.hasEntry owner e = true := by
    refine has_iff.mpr ⟨s, ?_⟩
    rw [← get_slice]
    exact mem_entries_iff.mp he
  refine ⟨e, ?_⟩
  rw [evictLowestSeq, hfold, removeSetEntry, if_pos hhas]

/-- `addDequeEntry` puts in the entry and may drop one. -/
theorem addDequeEntry_spec (h : l.addDequeEntry owner entry cap = .ok l') (hc : l.Counted) :
    l'.Counted ∧ ∀ o e, l'.hasEntry o e = true → (o = owner ∧ e = entry) ∨
      l.hasEntry o e = true := by
  unfold addDequeEntry at h
  split at h
  · obtain rfl := Except.ok.inj h
    exact ⟨hc, fun _ _ => .inr⟩
  next hnew =>
    simp only [bind_eq_ok, failIf_eq_ok, mapError_eq_ok, checkedAddUint64_eq_ok,
      exists_const] at h
    obtain ⟨_, ⟨-, rfl⟩, -, h⟩ := h
    have hwritten : (l.written owner entry).Counted := hc.set hnew _ _
    split at h
    · have hentry : (l.written owner entry).hasEntry owner entry = true :=
        hasEntry_set.mpr (.inl ⟨rfl, rfl⟩)
      obtain ⟨dropped, hdropped⟩ := evicted_eq_remove hentry
      have hcount : (l.written owner entry).counts.count owner = l.counts.count owner + 1 := by
        rw [written, count_set, if_pos rfl]
      rw [hcount] at hdropped
      obtain rfl : (l.written owner entry).removeSetEntry owner dropped = l' :=
        hdropped.symm.trans (pure_eq_ok.mp h)
      refine ⟨hwritten.removeSetEntry owner dropped, fun o e he => ?_⟩
      exact hasEntry_set.mp (hasEntry_removeSetEntry.mp he).1
    · obtain rfl := pure_eq_ok.mp h
      exact ⟨hwritten, fun _ _ => hasEntry_set.mp⟩

end ListStore

/-! ## 2. The two lists of an account -/

/-- Nobody is on both lists of an account, nobody on a list of their own, and the counts
are right. -/
structure ListsApart (followed blocked : ListStore) : Prop where
  apart : ∀ owner user, followed.hasEntry owner user = true → ¬ blocked.hasEntry owner user = true
  noSelfFollow : ∀ owner, ¬ followed.hasEntry owner owner = true
  noSelfBlock : ∀ owner, ¬ blocked.hasEntry owner owner = true
  followedCounted : followed.Counted
  blockedCounted : blocked.Counted

namespace ListsApart

variable {f f' b b' : ListStore} {owner user cap : ℕ}

theorem empty : ListsApart .empty .empty :=
  ⟨fun _ _ => nofun, fun _ => nofun, fun _ => nofun, ListStore.counted_empty,
    ListStore.counted_empty⟩

theorem unfollow (h : ListsApart f b) (owner user : Addr) :
    ListsApart (f.removeSetEntry owner user) b where
  apart o u hf := h.apart o u (ListStore.hasEntry_removeSetEntry.mp hf).1
  noSelfFollow o hf := h.noSelfFollow o (ListStore.hasEntry_removeSetEntry.mp hf).1
  noSelfBlock := h.noSelfBlock
  followedCounted := h.followedCounted.removeSetEntry owner user
  blockedCounted := h.blockedCounted

theorem unblock (h : ListsApart f b) (owner user : Addr) :
    ListsApart f (b.removeSetEntry owner user) where
  apart o u hf hb := h.apart o u hf (ListStore.hasEntry_removeSetEntry.mp hb).1
  noSelfFollow := h.noSelfFollow
  noSelfBlock o hb := h.noSelfBlock o (ListStore.hasEntry_removeSetEntry.mp hb).1
  followedCounted := h.followedCounted
  blockedCounted := h.blockedCounted.removeSetEntry owner user

theorem follow (h : ListsApart f b) (hself : owner ≠ user)
    (hadd : f.addSetEntry owner user = .ok f') : ListsApart f' (b.removeSetEntry owner user) := by
  obtain ⟨hcounted, hentries⟩ := ListStore.addSetEntry_spec hadd h.followedCounted
  have hremoved := h.unblock owner user
  refine ⟨fun o u hf hb => ?_, fun o hf => ?_, hremoved.noSelfBlock, hcounted,
    hremoved.blockedCounted⟩
  · rcases hentries o u hf with hnew | hold
    · exact (ListStore.hasEntry_removeSetEntry.mp hb).2 hnew
    · exact hremoved.apart o u hold hb
  · rcases hentries o o hf with ⟨rfl, rfl⟩ | hold
    · exact hself rfl
    · exact h.noSelfFollow o hold

theorem block (h : ListsApart f b) (hself : owner ≠ user)
    (hadd : b.addDequeEntry owner user cap = .ok b') :
    ListsApart (f.removeSetEntry owner user) b' := by
  obtain ⟨hcounted, hentries⟩ := ListStore.addDequeEntry_spec hadd h.blockedCounted
  have hremoved := h.unfollow owner user
  refine ⟨fun o u hf hb => ?_, hremoved.noSelfFollow, fun o hb => ?_, hremoved.followedCounted,
    hcounted⟩
  · rcases hentries o u hb with hnew | hold
    · exact (ListStore.hasEntry_removeSetEntry.mp hf).2 hnew
    · exact hremoved.apart o u hf hold
  · rcases hentries o o hb with ⟨rfl, rfl⟩ | hold
    · exact hself rfl
    · exact h.noSelfBlock o hold

end ListsApart

/-! ## 3. Messages -/

section Messages

variable {env : ChainEnv} {ctx : BlockCtx} {s s' : ChainState} {actor : Actor}

/-- The lists of followed and of blocked users are the same. -/
def ChainState.SameUserLists (s s' : ChainState) : Prop :=
  s'.followedUsers = s.followedUsers ∧ s'.blockedUsers = s.blockedUsers

def ChainState.UsersApart (s : ChainState) : Prop := ListsApart s.followedUsers s.blockedUsers

theorem ChainState.UsersApart.of_same (h : s.UsersApart) (hsame : s.SameUserLists s') :
    s'.UsersApart := by
  unfold ChainState.UsersApart
  rw [hsame.1, hsame.2]
  exact h

theorem chargeUser_userLists (h : chargeUser ctx s actor = .ok s') : s.SameUserLists s' := by
  cases actor with
  | governance => exact Except.ok.inj h ▸ ⟨rfl, rfl⟩
  | user addr pow =>
    simp only [chargeUser, consumeSubscriberQuota] at h
    split at h
    · exact Except.ok.inj h ▸ ⟨rfl, rfl⟩
    · split at h
      · exact Except.ok.inj h ▸ ⟨rfl, rfl⟩
      · simp only [bind_eq_ok, failIf_eq_ok, exists_const, pure_eq_ok] at h
        obtain ⟨-, rfl⟩ := h
        exact ⟨rfl, rfl⟩

theorem ensureProfile_userLists {owner : Addr} (h : ensureProfile env s owner = .ok s') :
    s.SameUserLists s' := by
  unfold ensureProfile at h
  split at h
  · exact Except.ok.inj h ▸ ⟨rfl, rfl⟩
  · rw [updateProfileCore_eq_ok h]
    exact ⟨rfl, rfl⟩

/-- The four messages that write to the lists. -/
def RelayMsg.OnUserLists : RelayMsg → Prop
  | .followUser _ _ | .unfollowUser _ _ | .blockUser _ | .unblockUser _ => True
  | _ => False

theorem handleFollowUser_apart {target user : Addr} (hs : s.UsersApart)
    (h : handleFollowUser env ctx s actor target user = .ok s') : s'.UsersApart := by
  simp only [handleFollowUser, bind_eq_ok, failIf_eq_ok, exists_const] at h
  obtain ⟨owner, -, hself, level, -, tier, -, h⟩ := h
  split at h
  next hfollowed =>
    obtain rfl := pure_eq_ok.mp h
    exact ListsApart.unblock hs owner user
  next =>
    simp only [bind_eq_ok, failIf_eq_ok, exists_const] at h
    obtain ⟨-, list, hlist, s₁, hprofile, hcharge⟩ := h
    have hfollow : ({ s with
        blockedUsers := s.blockedUsers.removeSetEntry owner user
        followedUsers := list } : ChainState).UsersApart := ListsApart.follow hs hself hlist
    exact (hfollow.of_same (ensureProfile_userLists hprofile)).of_same
      (chargeUser_userLists hcharge)

theorem handleUnfollowUser_apart {target user : Addr} (hs : s.UsersApart)
    (h : handleUnfollowUser ctx s actor target user = .ok s') : s'.UsersApart := by
  simp only [handleUnfollowUser, bind_eq_ok] at h
  obtain ⟨owner, -, level, -, h⟩ := h
  have hremoved : ({ s with
      followedUsers := s.followedUsers.removeSetEntry owner user } : ChainState).UsersApart :=
    ListsApart.unfollow hs owner user
  exact hremoved.of_same (chargeUser_userLists h)

theorem handleBlockUser_apart {target : Addr} (hs : s.UsersApart)
    (h : handleBlockUser env ctx s actor target = .ok s') : s'.UsersApart := by
  simp only [handleBlockUser, bind_eq_ok, failIf_eq_ok, exists_const] at h
  obtain ⟨level, -, hself, tier, -, -, list, hlist, h⟩ := h
  have hblocked : ({ s with
      followedUsers := s.followedUsers.removeSetEntry (actor.account env) target
      blockedUsers := list } : ChainState).UsersApart := ListsApart.block hs hself hlist
  exact hblocked.of_same (chargeUser_userLists h)

theorem handleUnblockUser_apart {target : Addr} (hs : s.UsersApart)
    (h : handleUnblockUser env ctx s actor target = .ok s') : s'.UsersApart := by
  simp only [handleUnblockUser, bind_eq_ok] at h
  obtain ⟨level, -, h⟩ := h
  have hremoved : ({ s with
      blockedUsers := s.blockedUsers.removeSetEntry (actor.account env) target } :
      ChainState).UsersApart := ListsApart.unblock hs _ target
  exact hremoved.of_same (chargeUser_userLists h)

/-- One message. -/
theorem RelayMsg.exec_apart {msg : RelayMsg} (hmsg : msg.OnUserLists) (hs : s.UsersApart)
    (h : msg.exec env ctx s actor = .ok s') : s'.UsersApart := by
  cases msg with
  | followUser target user => exact handleFollowUser_apart hs h
  | unfollowUser target user => exact handleUnfollowUser_apart hs h
  | blockUser target => exact handleBlockUser_apart hs h
  | unblockUser target => exact handleUnblockUser_apart hs h
  | _ => exact hmsg.elim

end Messages

/-! ## 4. Histories -/

/-- Messages to the lists by any accounts. Between two of them anything may happen that
leaves the lists alone: limits, levels and profiles change. -/
inductive UserListRun (env : ChainEnv) (s₀ : ChainState) : ChainState → Prop
  | start : UserListRun env s₀ s₀
  | message {s s' : ChainState} {ctx : BlockCtx} {actor : Actor} {msg : RelayMsg} :
      UserListRun env s₀ s → msg.OnUserLists → msg.exec env ctx s actor = .ok s' →
      UserListRun env s₀ s'
  | elsewhere {s s' : ChainState} : UserListRun env s₀ s → s.SameUserLists s' →
      UserListRun env s₀ s'

/-- After any history from empty lists nobody is followed and blocked by one account,
nobody follows or blocks themselves, and both counts are the sizes of the lists. -/
theorem follow_block_apart {env : ChainEnv} {s₀ s : ChainState}
    (hfollowed : s₀.followedUsers = .empty) (hblocked : s₀.blockedUsers = .empty)
    (hrun : UserListRun env s₀ s) :
    (∀ owner user, ¬ (s.followedUsers.hasEntry owner user = true ∧
      s.blockedUsers.hasEntry owner user = true)) ∧
    (∀ owner, s.followedUsers.hasEntry owner owner = false ∧
      s.blockedUsers.hasEntry owner owner = false) ∧
    ∀ owner, s.followedUsers.counts.count owner = (s.followedUsers.entries.slice owner).size ∧
      s.blockedUsers.counts.count owner = (s.blockedUsers.entries.slice owner).size := by
  have hapart : s.UsersApart := by
    induction hrun with
    | start =>
      rw [ChainState.UsersApart, hfollowed, hblocked]
      exact ListsApart.empty
    | message _ hmsg hexec ih => exact RelayMsg.exec_apart hmsg ih hexec
    | elsewhere _ hsame ih => exact ih.of_same hsame
  refine ⟨fun owner user h => hapart.apart owner user h.1 h.2, fun owner => ?_, fun owner => ?_⟩
  · exact ⟨eq_false_of_ne_true (hapart.noSelfFollow owner),
      eq_false_of_ne_true (hapart.noSelfBlock owner)⟩
  · exact ⟨hapart.followedCounted owner, hapart.blockedCounted owner⟩

/-- A store with an admin, account 1. -/
def listOwner : ChainState :=
  { ChainState.fresh ⟨.empty, 0, 0⟩ .empty defaultParams with
    profiles := OrderedMap.empty.set 1 ⟨some 5, levelAdminMin, 0, false, false, 0⟩ }

/-- The stores after account 1 follows account 2, and after it blocks account 2. -/
def followThenBlock : Except ChainError (ChainState × ChainState) := do
  let s ← (RelayMsg.followUser 1 2).exec plainEnv.toChainEnv ⟨1000, 1, 0⟩ listOwner (.user 1 0)
  let s' ← (RelayMsg.blockUser 2).exec plainEnv.toChainEnv ⟨1001, 2, 0⟩ s (.user 1 0)
  return (s, s')

/-- Account 1 follows account 2 and then blocks it, which ends the follow. -/
theorem follow_block_apart_blocked : ∃ s s', followThenBlock = .ok (s, s') ∧
    s.followedUsers.hasEntry 1 2 = true ∧ s'.blockedUsers.hasEntry 1 2 = true ∧
    ¬ (s'.followedUsers.hasEntry 1 2 = true ∧ s'.blockedUsers.hasEntry 1 2 = true) ∧
    s'.followedUsers.counts.count 1 = (s'.followedUsers.entries.slice 1).size := by
  have hview : followThenBlock.toOption.map (fun r =>
      (r.1.followedUsers.hasEntry 1 2, r.2.blockedUsers.hasEntry 1 2)) = some (true, true) := by
    decide +kernel
  obtain ⟨⟨s, s'⟩, hs, hlists⟩ := Option.map_eq_some_iff.mp hview
  obtain ⟨hfollows, hblocks⟩ := Prod.mk.inj hlists
  have hexec := toOption_eq_some.mp hs
  have hmsgs := hexec
  simp only [followThenBlock, bind_eq_ok, pure_eq_ok, Prod.mk.injEq] at hmsgs
  obtain ⟨_, hfollow, _, hblock, rfl, rfl⟩ := hmsgs
  have hmsg : (RelayMsg.followUser 1 2).OnUserLists := trivial
  have hmsg' : (RelayMsg.blockUser 2).OnUserLists := trivial
  have hrun := UserListRun.message (.message .start hmsg hfollow) hmsg' hblock
  obtain ⟨hapart, -, hcounts⟩ := follow_block_apart rfl rfl hrun
  exact ⟨_, _, hexec, hfollows, hblocks, hapart 1 2, (hcounts 1).1⟩

end MirageNode
