import MirageNode.EngagementGuards

/-!
# Deleted posts and rewards

`Delete` stamps a post with the clock, and `engagementValid` refuses engagements of epochs
from the stamp on, whenever they are counted. The handler accepts a second deletion of the
same post and moves the stamp up to the clock of that moment, so that engagements of the
epochs in between become valid again if they have not been counted
(`second_deletion_revalidates`). A stamp of zero, set while the clock has not started, is
read as no deletion.

`deletion_final`: if a post is deleted again only in the epoch of its first deletion, and
never while the clock is at zero, then no later operation brings an engagement back.
-/

namespace MirageNode

open OrderedStore Fallible

/-- The stamp of a deleted post is not moved: the deletion of a stored post comes after the clock
has started, a second one only in the epoch of the first, and no transaction is run again
once its post is deleted. -/
def CreatorOp.KeepsDeletions (s : CreatorState) : CreatorOp → Prop
  | delete _ _ target => ∀ post, s.posts.get target = some post →
      s.clock ≠ 0 ∧ (post.deletedEpoch ≠ 0 → post.deletedEpoch = s.clock)
  | post _ _ _ hash _ _ => ∀ post, s.posts.get hash = some post → post.deletedEpoch = 0
  | _ => True

/-- The post bears the stamp of an epoch. -/
def DeletedAt (s : CreatorState) (target : Hash) (d : ℤ) : Prop :=
  ∃ post, s.posts.get target = some post ∧ post.deletedEpoch = d

variable {p : Params} {paid : Bool} {s s' : CreatorState}

theorem recordEngagement_posts {actor : Addr}
    {kind : ℕ} {target : Hash} {value : Option Hash} {reserve : CreatorState → CreatorState}
    (hreserve : ∀ s, ∃ ur rr, reserve s = { s with upvoteReserved := ur, replyReserved := rr })
    (h : recordEngagement p paid s actor kind target value reserve = .ok s') :
    s'.posts = s.posts := by
  rcases recordEngagement_records hreserve h with hkept | ⟨hposts, -⟩
  · exact hkept.posts
  · exact hposts

theorem recordUpvoteEngagement_posts {voter : Addr} {target : Hash} {direction : ℤ}
    (h : recordUpvoteEngagement p paid s voter target direction = .ok s') : s'.posts = s.posts := by
  unfold recordUpvoteEngagement at h
  simp only at h
  split at h
  · have hkept := clearOpenUpvote_records h
    exact hkept.posts
  split at h
  · cases h
    rfl
  · have hposts := recordEngagement_posts (fun s => ⟨_, s.replyReserved, rfl⟩) h
    exact hposts

theorem recordDirectReplyEngagement_posts {commenter : Addr} {parent source : Hash}
    (h : recordDirectReplyEngagement p paid s commenter parent source = .ok s') :
    s'.posts = s.posts := by
  unfold recordDirectReplyEngagement at h
  split at h
  · cases h
    rfl
  · exact recordEngagement_posts (fun s => ⟨s.upvoteReserved, _, rfl⟩) h

/-- What `Post` writes: one post under its own hash. -/
theorem post_posts {owner : Addr} {hash : Hash} {target : Option Hash} {community : Slug}
    (h : post p paid s owner hash target community = .ok s') :
    ∃ new, s'.posts = s.posts.set hash new := by
  unfold post at h
  split at h
  · cases h
    exact ⟨_, rfl⟩
  split at h
  · cases h
  split at h
  · cases h
  · exact ⟨_, recordDirectReplyEngagement_posts h⟩

/-- What `Delete` writes: the stamp of the clock, if the post is stored. -/
theorem deletePost_posts {height : ℤ} {owner : Addr} {byGovernance : Bool}
    {target : Hash} (h : deletePost height s owner byGovernance target = .ok s') :
    s.posts.get target = none ∧ s' = s ∨ ∃ post, s.posts.get target = some post ∧
      s'.posts = s.posts.set target
        { post with deletedHeight := height, deletedEpoch := s.clock } := by
  unfold deletePost at h
  split at h
  next hnone =>
    cases h
    exact .inl ⟨hnone, rfl⟩
  next post hpost =>
    simp only [bind_eq_ok, failIf_eq_ok, exists_const] at h
    obtain ⟨-, h⟩ := h
    split at h
    · cases h
      exact .inr ⟨post, hpost, rfl⟩
    · exact .inr ⟨post, hpost, (clearOpenDirectReply_records h).posts⟩

namespace DeletedAt

variable {s s' : CreatorState} {target : Hash} {d : ℤ}

theorem of_deletePost {height : ℤ} {owner : Addr} {byGovernance : Bool} {post : PostMetadata}
    (hstored : s.posts.get target = some post)
    (h : deletePost height s owner byGovernance target = .ok s') : DeletedAt s' target s.clock := by
  rcases deletePost_posts h with ⟨hnone, -⟩ | ⟨post', -, hposts⟩
  · cases hnone.symm.trans hstored
  · refine ⟨{ post' with deletedHeight := height, deletedEpoch := s.clock }, ?_, rfl⟩
    rw [hposts, OrderedMap.get_set_self]

theorem of_posts (h : DeletedAt s target d) (hposts : s'.posts = s.posts) :
    DeletedAt s' target d := by
  rw [DeletedAt, hposts]
  exact h

/-- Another write of posts under the condition leaves the stamp. -/
theorem of_set (h : DeletedAt s target d) {hash : Hash} {new : PostMetadata}
    (hposts : s'.posts = s.posts.set hash new)
    (hsame : target = hash → new.deletedEpoch = d) : DeletedAt s' target d := by
  obtain ⟨post, hget, hd⟩ := h
  rw [DeletedAt, hposts, OrderedMap.get_set]
  split
  next heq => exact ⟨new, rfl, hsame heq⟩
  next => exact ⟨post, hget, hd⟩

theorem step {ctx : BlockCtx} {op : CreatorOp} (h : DeletedAt s target d) (hd : d ≠ 0)
    (hmeets : op.KeepsDeletions s) (hexec : op.exec ctx s = .ok s') : DeletedAt s' target d := by
  cases hop : op.isMessage with
  | false => exact h.of_posts (op.exec_records hop hexec).posts
  | true =>
    obtain ⟨post, hget, hstamp⟩ := h
    cases op with
    | upvote => exact of_posts ⟨post, hget, hstamp⟩ (recordUpvoteEngagement_posts hexec)
    | reply => exact of_posts ⟨post, hget, hstamp⟩ (recordDirectReplyEngagement_posts hexec)
    | post p paid owner hash parent community =>
      obtain ⟨new, hposts⟩ := post_posts hexec
      refine of_set ⟨post, hget, hstamp⟩ hposts fun heq => ?_
      -- The hash of a deleted post is not posted under again.
      exact absurd (hstamp.symm.trans (hmeets post (heq ▸ hget))) hd
    | delete owner byGovernance again =>
      rcases deletePost_posts hexec with ⟨-, rfl⟩ | ⟨post', hget', hposts⟩
      · exact ⟨post, hget, hstamp⟩
      · refine of_set ⟨post, hget, hstamp⟩ hposts fun heq => ?_
        obtain rfl : post' = post := Option.some.inj (hget'.symm.trans (heq ▸ hget))
        exact ((hmeets post' hget').2 (hstamp ▸ hd)).symm.trans hstamp
    | _ => cases hop

theorem run {s₀ : CreatorState} {t₀ t : ℤ} (h : DeletedAt s₀ target d) (hd : d ≠ 0)
    (hrun : OpRun (fun s op => op.KeepsDeletions s) s₀ t₀ s t) : DeletedAt s target d := by
  induction hrun with
  | start => exact h
  | step ctx op _ _ hmeets hexec ih => exact ih.step hd hmeets hexec

/-- Engagements with the post are refused from the stamp on. -/
theorem target_refused (h : DeletedAt s target d) (hd : d ≠ 0) {epoch : ℤ} (hle : d ≤ epoch)
    (actor : Addr) (kind : ℕ) (value : Option Hash) :
    engagementValid s epoch actor kind target value ≠ .ok true := by
  obtain ⟨post, hget, rfl⟩ := h
  unfold engagementValid
  simp only [hget]
  split
  · nofun
  · rw [if_pos ⟨hd, hle⟩]
    nofun

/-- So are engagements that come from a reply which was deleted. -/
theorem source_refused (h : DeletedAt s target d) (hd : d ≠ 0) {epoch : ℤ} (hle : d ≤ epoch)
    (actor : Addr) (parent : Hash) :
    engagementValid s epoch actor engagementKindDirectReply parent (some target) ≠ .ok true := by
  obtain ⟨src, hget, rfl⟩ := h
  have hlast : (Except.ok (decide ¬ (src.deletedEpoch ≠ 0 ∧ src.deletedEpoch ≤ epoch)) :
      Except CoreError Bool) = .ok false := by
    rw [decide_eq_false (not_not_intro ⟨hd, hle⟩)]
  unfold engagementValid
  cases s.posts.get parent with
  | none => nofun
  | some above =>
    have hkind : ¬ engagementKindDirectReply = engagementKindUpvote := by decide
    simp only [hget, hlast, if_neg hkind, if_true]
    split_ifs <;> nofun

end DeletedAt

/-- A post deleted while the clock was at epoch `d` stays deleted for rewards: in every
state that operations under `KeepsDeletions` lead to, however long counting has waited,
`engagementValid` accepts no engagement of an epoch from `d` on with the post, and none
that comes from it as a reply. -/
theorem deletion_final {ctx : BlockCtx} {s s₁ s₂ : CreatorState} {t₂ : ℤ} {owner : Addr}
    {byGovernance : Bool} {target : Hash} {post : PostMetadata}
    (hstored : s.posts.get target = some post)
    (hmeets : (CreatorOp.delete owner byGovernance target).KeepsDeletions s)
    (hdelete : deletePost ctx.height s owner byGovernance target = .ok s₁)
    (hrun : OpRun (fun s op => op.KeepsDeletions s) s₁ ctx.time s₂ t₂) :
    ∀ epoch, s.clock ≤ epoch →
      (∀ actor kind value, engagementValid s₂ epoch actor kind target value ≠ .ok true) ∧
      ∀ actor parent,
        engagementValid s₂ epoch actor engagementKindDirectReply parent (some target) ≠
          .ok true := by
  have hclock := (hmeets post hstored).1
  have hdeleted := (DeletedAt.of_deletePost hstored hdelete).run hclock hrun
  exact fun epoch hle => ⟨hdeleted.target_refused hclock hle, hdeleted.source_refused hclock hle⟩

/-- What counting would say about the upvote of account 1 in epoch 5. -/
def upvoteVerdict (s : CreatorState) : Except CoreError Bool :=
  engagementValid s 5 1 engagementKindUpvote 7 none

/-- Account 1 upvotes post 7 in epoch 5, and its author deletes the post. The deletion
takes the upvote out, and it stays out while epoch 5 waits to be
counted; the second deletion, in epoch 6, makes it valid again. -/
theorem second_deletion_revalidates :
    ∃ s once later twice,
      recordUpvoteEngagement defaultParams true onePost 1 7 1 = .ok s ∧
      s.clock = 5 ∧ deletePost 10 s 9 false 7 = .ok once ∧
      advanceCreatorClock defaultParams 1800 once = .ok later ∧
      (later.epochs.get 5).map CreatorEpoch.status = some .counting ∧
      upvoteVerdict later = .ok false ∧
      deletePost 12 later 9 false 7 = .ok twice ∧ upvoteVerdict twice = .ok true := by
  have hruns : (do
      let s ← recordUpvoteEngagement defaultParams true onePost 1 7 1
      let once ← deletePost 10 s 9 false 7
      let later ← advanceCreatorClock defaultParams 1800 once
      let twice ← deletePost 12 later 9 false 7
      return (s.clock, (later.epochs.get 5).map CreatorEpoch.status, upvoteVerdict later,
        upvoteVerdict twice)) = Except.ok (5, some .counting, .ok false, .ok true) := by
    decide +kernel
  simp only [bind_eq_ok, pure_eq_ok, Prod.mk.injEq] at hruns
  obtain ⟨s, hs, once, honce, later, hlater, twice, htwice, hclock, hstatus, hfalse, htrue⟩ := hruns
  exact ⟨s, once, later, twice, hs, hclock, honce, hlater, hstatus, hfalse, htwice, htrue⟩

/-- After one deletion the upvote stays out: the clock moves on to epoch 6. -/
theorem deletion_final_nextEpoch :
    ∃ once later, deletePost 10 onePost 9 false 7 = .ok once ∧
      OpRun (fun s op => op.KeepsDeletions s) once 1500 later 1800 ∧ later.clock = 6 ∧
      ∀ epoch, 5 ≤ epoch → ∀ actor kind value,
        engagementValid later epoch actor kind 7 value ≠ .ok true := by
  have hruns : (do
      let once ← deletePost 10 onePost 9 false 7
      let later ← advanceCreatorClock defaultParams 1800 once
      return later.clock) = Except.ok 6 := by
    decide +kernel
  simp only [bind_eq_ok, pure_eq_ok] at hruns
  obtain ⟨once, honce, later, hlater, hclock⟩ := hruns
  have hrun : OpRun (fun s op => op.KeepsDeletions s) once 1500 later 1800 :=
    .step ⟨1800, 11, 0⟩ (.advance defaultParams) .start (by decide) trivial hlater
  have hstored : onePost.posts.get 7 = some ⟨9, some 3, none, 0, 0⟩ := by decide +kernel
  have hmeets : (CreatorOp.delete 9 false 7).KeepsDeletions onePost := by
    intro post hpost
    rw [hstored] at hpost
    cases hpost
    exact ⟨by decide, absurd rfl⟩
  have hfinal := @deletion_final ⟨1500, 10, 0⟩ onePost once later 1800 9 false 7 _ hstored hmeets
    honce hrun
  exact ⟨once, later, honce, hrun, hclock, fun epoch hle => (hfinal epoch hle).1⟩

end MirageNode
