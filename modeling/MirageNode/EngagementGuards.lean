import MirageNode.EngagementBook
import MirageNode.Keys

/-!
# The guards of settlement

`engagementValid` stops the chain at a record it cannot make sense of: a target or a
source without metadata, an engagement with one's own post, a source that is no reply of
the actor to the target. Posts and deletions keep changing the metadata while records
wait to be counted. A hash belongs to one transaction and a transaction has one `MsgPost`,
so the author and the parent under a hash never change (`Agrees`), and with them every
record stays in order (`Grounded`): settlement never stops at one (`settlement_guards_hold`).
-/

namespace MirageNode

open OrderedStore OrderedMap Fallible ByteKeys

/-! ## 1. Operations that leave posts and records alone -/

/-- No post changes and no engagement appears. -/
structure RecordsKept (s s' : CreatorState) : Prop where
  posts : s'.posts = s.posts
  engagements : ∀ k v, s'.engagements.get k = some v → s.engagements.get k = some v

variable {s s' : CreatorState} {p : Params} {target : Hash} {now epoch : ℤ}
  {st : CreatorState × CreatorEpoch} {r : EngagementKey × Option Hash} {ce : CreatorEpoch}
  {value : Option Hash}

namespace RecordsKept

theorem frame (hposts : s'.posts = s.posts)
    (heng : s'.engagements = s.engagements) : RecordsKept s s' :=
  ⟨hposts, fun _ _ hv => heng ▸ hv⟩

theorem refl (s : CreatorState) : RecordsKept s s := .frame rfl rfl

theorem trans {s₁ s₂ s₃ : CreatorState} (h : RecordsKept s₁ s₂) (h' : RecordsKept s₂ s₃) :
    RecordsKept s₁ s₃ :=
  ⟨h'.posts.trans h.posts, fun k v hv => h.engagements k v (h'.engagements k v hv)⟩

theorem after {s₁ : CreatorState} (h : RecordsKept s₁ s') (hposts : s₁.posts = s.posts)
    (heng : s₁.engagements = s.engagements) : RecordsKept s s' :=
  (frame hposts heng).trans h

end RecordsKept

theorem ClockMove.records {sched : CreatorSchedule} {target : ℤ}
    {again : Bool} (h : ClockMove p sched target s s' again) : RecordsKept s s' := by
  cases h with
  | jump => exact .frame rfl rfl
  | wait => exact .frame rfl rfl
  | close _ _ _ _ hcredit hclose =>
    obtain ⟨_, _, _, rfl⟩ := closeCreatorEpoch_frame hclose
    obtain ⟨_, _, rfl⟩ := creditEpoch_frame hcredit
    exact .frame rfl rfl

theorem Regrid.records {newSeconds : ℕ} (h : Regrid p now newSeconds s s') : RecordsKept s s' := by
  cases h with
  | keep => exact .refl s
  | first => exact .frame rfl rfl
  | restart _ _ hcredit hclose =>
    obtain ⟨_, _, _, rfl⟩ := closeCreatorEpoch_frame hclose
    obtain ⟨_, _, rfl⟩ := creditEpoch_frame hcredit
    obtain ⟨_, heq⟩ := truncate_frame _ s.clock now
    rw [heq]
    exact .frame rfl rfl

theorem burnCreatorPool_records {amount : ℤ} (h : burnCreatorPool s amount = .ok s') :
    RecordsKept s s' := by
  obtain ⟨_, _, rfl⟩ := burnCreatorPool_keeps h
  exact .frame rfl rfl

theorem expireEpochUnallocated_records {burn : ℤ}
    (h : expireEpochUnallocated s ce burn = .ok s') : RecordsKept s s' := by
  simp only [expireEpochUnallocated, bind_eq_ok, pure_eq_ok] at h
  obtain ⟨s₁, h₁, rfl⟩ := h
  exact (burnCreatorPool_records h₁).trans (.frame rfl rfl)

theorem finishAllocate_records (h : finishAllocate p now s ce = .ok s') : RecordsKept s s' := by
  obtain ⟨-, ⟨-, hexp⟩ | ⟨-, _, -, rfl⟩⟩ := finishAllocate_keeps h
  · exact expireEpochUnallocated_records hexp
  · exact .frame rfl rfl

theorem allocateRecord_records {st st' : CreatorState × CreatorEpoch}
    {r : EngagementKey × Option Hash} (h : allocateRecord st r = .ok st') :
    RecordsKept st.1 st'.1 := by
  obtain ⟨⟨_, _, _, heq⟩, -⟩ := allocateRecord_keeps h
  rw [heq]
  exact .frame rfl rfl

theorem countRecord_records {st st' : CreatorState × CreatorEpoch} {r : EngagementKey × Option Hash}
    (h : countRecord st r = .ok st') : RecordsKept st.1 st'.1 := by
  obtain ⟨⟨_, _, heq⟩, -⟩ := countRecord_keeps h
  rw [heq]
  exact .frame rfl rfl

theorem expireClaimableEpoch_records {epoch : ℤ} (h : expireClaimableEpoch s epoch = .ok s') :
    RecordsKept s s' := by
  obtain ⟨_, -, ⟨-, rfl⟩ | ⟨-, -, _, hburn, rfl⟩⟩ := expireClaimableEpoch_cases h
  · exact .frame rfl rfl
  · exact (burnCreatorPool_records hburn).trans (.frame rfl rfl)

theorem processCreatorExpiries_records (h : processCreatorExpiries p now s = .ok s') :
    RecordsKept s s' :=
  foldlM_ok_induction (P := RecordsKept s)
    (fun _ _ _ _ hexp hst => hst.trans (expireClaimableEpoch_records hexp)) h (.refl s)

theorem pruneEpochDetails_records (s : CreatorState) (epoch : ℤ) (budget : ℕ) :
    RecordsKept s (pruneEpochDetails s epoch budget).1 := by
  refine ⟨?_, (pruneEpochDetails_sub s epoch budget).1⟩
  obtain ⟨_, _, _, -, heq | ⟨_, -, heq⟩⟩ := pruneEpochDetails_cases s epoch budget <;> rw [heq]

theorem claimCreatorRewards_records {ctx : BlockCtx} {creator : Addr} {epochs : List ℤ}
    (h : claimCreatorRewards p ctx s creator epochs = .ok s') : RecordsKept s s' := by
  have hbooks := claimCreatorRewards_books h
  obtain ⟨items, bank, -, -, -, -, -, -, rfl⟩ := claimCreatorRewards_items h
  obtain ⟨_, _, _, hframe⟩ := foldl_applyClaim_frame ctx creator items s
  refine .frame ?_ hbooks.engagements
  rw [hframe]

theorem removeEngagement_records {actor : Addr} {kind : ℕ}
    (h : removeEngagement s actor kind target = .ok s') : RecordsKept s s' := by
  have herase : ∀ k v, (s.engagements.erase (keyEngagement s.clock actor kind target)).get k =
      some v → s.engagements.get k = some v := fun k v => get_of_get_erase
  rcases removeEngagement_cases h with ⟨-, rfl⟩ | ⟨_, -, -, rfl⟩
  · exact ⟨rfl, herase⟩
  · exact ⟨rfl, herase⟩

theorem clearOpenUpvote_records {voter : Addr}
    (h : clearOpenUpvote s voter target = .ok s') : RecordsKept s s' := by
  unfold clearOpenUpvote at h
  split at h
  · cases h
    exact .refl s
  · split at h
    · cases h
      exact .refl s
    · exact (removeEngagement_records h).after rfl rfl

theorem clearOpenDirectReply_records {author : Addr} {parent source : Hash}
    (h : clearOpenDirectReply s author parent source = .ok s') : RecordsKept s s' := by
  unfold clearOpenDirectReply at h
  split at h
  · cases h
    exact .refl s
  · split at h
    · cases h
      exact .refl s
    · split at h
      · cases h
        exact .refl s
      · exact (removeEngagement_records h).after rfl rfl

/-! ## 2. Records that make sense -/

/-- What `engagementValid` takes for granted about a record. -/
structure Grounded (posts : OrderedMap Hash PostMetadata) (k : EngagementKey)
    (value : Option Hash) : Prop where
  target : ∃ post, posts.get k.target = some post ∧ post.author ≠ k.actor
  source : k.kind = engagementKindUpvote ∨ k.kind = engagementKindDirectReply ∧
    ∃ hash src, value = some hash ∧ posts.get hash = some src ∧ src.author = k.actor ∧
      src.parentHash = some k.target

theorem Grounded.engagementValid_ok {k : EngagementKey} (h : Grounded s.posts k value) (epoch : ℤ) :
    ∃ valid, engagementValid s epoch k.actor k.kind k.target value = .ok valid := by
  obtain ⟨post, hpost, hauthor⟩ := h.target
  unfold engagementValid
  simp only [hpost, if_neg hauthor]
  split
  · exact ⟨_, rfl⟩
  split
  · exact ⟨_, rfl⟩
  next hkind =>
  obtain hup | ⟨hreply, hash, src, rfl, hsrc, hby, hto⟩ := h.source
  · exact absurd hup hkind
  · rw [if_pos hreply]
    simp only [hsrc]
    rw [if_neg (by simp [hby, hto])]
    exact ⟨_, rfl⟩

/-- Every post keeps its author and its parent. -/
def PostsStand (posts posts' : OrderedMap Hash PostMetadata) : Prop :=
  ∀ hash post, posts.get hash = some post → ∃ post', posts'.get hash = some post' ∧
    post'.author = post.author ∧ post'.parentHash = post.parentHash

theorem PostsStand.set {posts : OrderedMap Hash PostMetadata} {hash : Hash} {new : PostMetadata}
    (h : ∀ old, posts.get hash = some old →
      new.author = old.author ∧ new.parentHash = old.parentHash) :
    PostsStand posts (posts.set hash new) := by
  intro hash' post hget
  rw [get_set]
  split
  next heq =>
    subst heq
    exact ⟨new, rfl, h post hget⟩
  next => exact ⟨post, hget, rfl, rfl⟩

theorem Grounded.mono {posts posts' : OrderedMap Hash PostMetadata} {k : EngagementKey}
    (h : Grounded posts k value) (hposts : PostsStand posts posts') : Grounded posts' k value := by
  obtain ⟨post, hpost, hauthor⟩ := h.target
  obtain ⟨post', hpost', hsame, -⟩ := hposts _ post hpost
  refine ⟨⟨post', hpost', hsame ▸ hauthor⟩, h.source.imp_right ?_⟩
  rintro ⟨hreply, hash, src, hvalue, hsrc, hby, hto⟩
  obtain ⟨src', hsrc', hby', hto'⟩ := hposts hash src hsrc
  exact ⟨hreply, hash, src', hvalue, hsrc', hby'.trans hby, hto'.trans hto⟩

/-- A hash belongs to one transaction, and the transaction to one `MsgPost`: `content` is
its author and its target. -/
def Agrees (content : Hash → Addr × Option Hash) (posts : OrderedMap Hash PostMetadata) : Prop :=
  ∀ hash post, posts.get hash = some post → content hash = (post.author, post.parentHash)

/-- The operations of transactions whose posts are those of `content`. A direct reply is
recorded by the post that makes it. -/
def CreatorOp.FromTx (content : Hash → Addr × Option Hash) : CreatorOp → Prop
  | post _ _ owner hash target _ => content hash = (owner, target)
  | reply .. => False
  | _ => True

def RecordsGrounded (s : CreatorState) : Prop :=
  ∀ k v, s.engagements.get k = some v → Grounded s.posts k v

theorem RecordsGrounded.kept (h : RecordsGrounded s)
    (hkept : RecordsKept s s') : RecordsGrounded s' :=
  fun k v hv => hkept.posts ▸ h k v (hkept.engagements k v hv)

/-! ## 3. Settlement does not stop at a record -/

/-- Leaves posts and records alone, and does not fail at a record of `s` that makes sense. -/
def Spares {α : Type} (s : CreatorState) (state : α → CreatorState)
    (x : Except CoreError α) : Prop :=
  Ensures x (fun a => RecordsKept s (state a)) fun err => RecordsGrounded s → ¬ err.OnRecord

theorem spares_of {α : Type} {state : α → CreatorState} {x : Except CoreError α}
    (hok : ∀ a, x = .ok a → RecordsKept s (state a))
    (herr : RecordsGrounded s → Avoids CoreError.OnRecord x) : Spares s state x := by
  cases x with
  | ok a => exact hok a rfl
  | error err => exact fun h => herr h err rfl

theorem CoreError.OnRecord.ofRecords (err : CoreError) (h : err.OnRecord) : err.OfRecords := by
  cases err <;> first | exact h | rfl

/-- Counting a record that makes sense. -/
theorem countRecord_avoids_record (h : Grounded st.1.posts r.1 r.2) :
    Avoids CoreError.OnRecord (countRecord st r) := by
  refine countRecord_avoids CoreError.OnRecord.ofRecords fun s₁ hposts epoch => ?_
  obtain ⟨valid, hvalid⟩ := (hposts ▸ h : Grounded s₁.posts r.1 r.2).engagementValid_ok epoch
  rw [hvalid]
  exact .ok _

theorem allocateRecord_avoids_record (h : Grounded st.1.posts r.1 r.2) :
    Avoids CoreError.OnRecord (allocateRecord st r) := by
  obtain ⟨post, hpost, -⟩ := h.target
  refine allocateRecord_avoids CoreError.OnRecord.ofRecords (fun _ _ => nofun) fun hnone => ?_
  rw [hpost] at hnone
  cases hnone

theorem get_of_mem_engagementsFrom {cursor : Option EngagementKey}
    (h : r ∈ engagementsFrom s epoch cursor) : s.engagements.get r.1 = some r.2 := by
  unfold engagementsFrom at h
  split at h
  · exact (mem_scan.mp h).1
  · exact (mem_scan.mp (List.mem_of_mem_drop h)).1

/-- The records a pass reads are stored ones. -/
theorem RecordsGrounded.read {s₁ : CreatorState} {cursor : Option EngagementKey}
    (h : RecordsGrounded s) (hs : RecordsKept s s₁) (hst : RecordsKept s st.1)
    (hr : r ∈ engagementsFrom s₁ epoch cursor) : Grounded st.1.posts r.1 r.2 :=
  hst.posts ▸ h r.1 r.2 (hs.engagements _ _ (get_of_mem_engagementsFrom hr))

theorem allocateEpoch_spares {s₁ : CreatorState} (hs : RecordsKept s s₁) (ce : CreatorEpoch)
    (budget : ℕ) : Spares s Prod.fst (allocateEpoch p now s₁ ce budget) := by
  rw [allocateEpoch_eq_pass]
  refine Ensures.pass (I := fun st => RecordsKept s st.1) (fun r hr st hst => ?_)
    (fun s' ce' left hs' => ?_) (fun _ _ hs' => hs'.trans (.frame rfl rfl)) hs
  · exact spares_of (fun _ h => hst.trans (allocateRecord_records h)) fun hg =>
      allocateRecord_avoids_record (hg.read hs hst hr)
  · have hfinish : Spares s id (finishAllocate p now s' ce') :=
      spares_of (fun _ h => hs'.trans (finishAllocate_records h)) fun _ =>
        finishAllocate_avoids CoreError.OnRecord.ofRecords fun _ => nofun
    exact hfinish.bind fun _ h => h

theorem countEpoch_spares {s₁ : CreatorState} (hs : RecordsKept s s₁) (ce : CreatorEpoch)
    (budget : ℕ) : Spares s Prod.fst (countEpoch p now s₁ ce budget) := by
  rw [countEpoch_eq_pass]
  refine Ensures.pass (I := fun st => RecordsKept s st.1) (fun r hr st hst => ?_)
    (fun s' ce' left hs' => ?_) (fun _ _ hs' => hs'.trans (.frame rfl rfl)) hs
  · exact spares_of (fun _ h => hst.trans (countRecord_records h)) fun hg =>
      countRecord_avoids_record (hg.read hs hst hr)
  · have hflush : Spares s Prod.fst (flushCountActor s' ce') := by
      refine spares_of (fun st h => ?_) fun _ =>
        flushCountActor_avoids CoreError.OnRecord.ofRecords _ _
      obtain ⟨⟨_, heq⟩, -⟩ := flushCountActor_keeps h
      rw [heq]
      exact hs'.trans (.frame rfl rfl)
    refine hflush.bind fun ⟨s₂, ce₂⟩ hs₂ => ?_
    dsimp only
    unfold finishCount
    split
    · have hexp : Spares s id (expireEpochUnallocated s₂ ce₂ ce₂.pool) :=
        spares_of (fun _ h => hs₂.trans (expireEpochUnallocated_records h)) fun _ =>
          expireEpochUnallocated_avoids CoreError.OnRecord.ofRecords _ _ _
      exact hexp.bind fun _ h => h
    · simp only
      split
      · exact hs₂.trans (.frame rfl rfl)
      · refine allocateEpoch_spares ?_ _ _
        exact hs₂.trans (.frame rfl rfl)

theorem settleNext_spares {st : CreatorState × ℕ} (hs : RecordsKept s st.1) (epoch : ℤ) :
    Spares s Prod.fst (settleNext p now st epoch) := by
  unfold settleNext
  split
  · exact hs
  unfold settleOneEpoch
  split
  · exact fun _ => nofun
  split
  · split
    · exact fun _ => nofun
    · exact countEpoch_spares hs _ _
  · split
    · exact fun _ => nofun
    · exact allocateEpoch_spares hs _ _
  · exact hs.trans (.frame rfl rfl)

theorem settlement_spares (p : Params) (now : ℤ) (s : CreatorState) :
    Spares s id (processCreatorSettlement p now s) := by
  refine Ensures.failIf_bind (fun _ _ => nofun) fun _ => Ensures.bind ?_ fun _ h => h
  exact Ensures.foldlM (I := fun _ (st : CreatorState × ℕ) => RecordsKept s st.1)
    (fun epoch _ _ hst => settleNext_spares hst epoch) (.refl s)

/-- The operations of `Post`, `Vote` and `Delete`. -/
def CreatorOp.isMessage : CreatorOp → Bool
  | upvote .. | reply .. | post .. | delete .. => true
  | _ => false

/-- All other operations leave posts alone and add no record. -/
theorem CreatorOp.exec_records {ctx : BlockCtx} {op : CreatorOp}
    (hop : op.isMessage = false) (h : op.exec ctx s = .ok s') : RecordsKept s s' := by
  cases op with
  | transfer bank =>
    cases h
    exact .frame rfl rfl
  | fund tr =>
    obtain ⟨_, _, _, rfl⟩ := fundTranche_frame h
    exact .frame rfl rfl
  | advance p =>
    simp only [exec, advanceCreatorClock, bind_eq_ok, failIf_eq_ok, exists_const] at h
    obtain ⟨target, -, -, hloop⟩ := h
    exact clockLoop_induction (P := RecordsKept s)
      (fun _ _ _ _ hmove hs => hs.trans hmove.records) hloop (.refl s)
  | settle p => exact (settlement_spares p ctx.time s).of_eq_ok h
  | expire p => exact processCreatorExpiries_records h
  | prune p =>
    exact prune_induction (P := RecordsKept s)
      (fun _ _ _ _ _ hs => hs.trans (pruneEpochDetails_records _ _ _)) h (.refl s)
  | regrid p newSeconds => exact (applyCreatorEpochSeconds_regrid h).records
  | claim p creator epochs => exact claimCreatorRewards_records h
  | upvote | reply | post | delete => cases hop

/-! ### Posts and records in a run -/

structure Founded (content : Hash → Addr × Option Hash) (s : CreatorState) : Prop where
  posts : Agrees content s.posts
  records : RecordsGrounded s

namespace Founded

variable {content : Hash → Addr × Option Hash} {s s' : CreatorState}

variable (h : Founded content s)

include h

theorem kept (hkept : RecordsKept s s') : Founded content s' where
  posts := hkept.posts ▸ h.posts
  records := h.records.kept hkept

/-- A post written under its hash. -/
theorem publish {hash : Hash} {new : PostMetadata}
    (hnew : content hash = (new.author, new.parentHash)) :
    Founded content { s with posts := s.posts.set hash new } where
  posts := by
    intro hash' post hget
    rcases get_set_cases hget with ⟨rfl, rfl⟩ | ⟨-, hget⟩
    · exact hnew
    · exact h.posts hash' post hget
  records := fun k v hv => (h.records k v hv).mono (.set fun old hold => by
    have hsame := hnew.symm.trans (h.posts hash old hold)
    exact ⟨congrArg Prod.fst hsame, congrArg Prod.snd hsame⟩)

theorem engage {key : EngagementKey}
    (hposts : s'.posts = s.posts) (heng : s'.engagements = s.engagements.set key value)
    (hkey : Grounded s.posts key value) : Founded content s' where
  posts := hposts ▸ h.posts
  records := by
    intro k v hv
    rw [heng] at hv
    rw [hposts]
    rcases get_set_cases hv with ⟨rfl, rfl⟩ | ⟨-, hv⟩
    · exact hkey
    · exact h.records k v hv

end Founded

/-- What recording does to posts and records. -/
theorem recordEngagement_records {paid : Bool} {actor : Addr}
    {kind : ℕ} {reserve : CreatorState → CreatorState}
    (hreserve : ∀ s, ∃ ur rr, reserve s = { s with upvoteReserved := ur, replyReserved := rr })
    (h : recordEngagement p paid s actor kind target value reserve = .ok s') :
    RecordsKept s s' ∨ s'.posts = s.posts ∧
      s'.engagements = s.engagements.set (keyEngagement s.clock actor kind target) value ∧
      ∃ post, s.posts.get target = some post ∧ post.author ≠ actor := by
  rcases recordEngagement_cases h with rfl | ⟨post, ce, s₁, hpost, hself, -, rfl, hdone⟩
  · exact .inl (.refl _)
  rcases hdone with ⟨-, rfl⟩ | ⟨-, rfl⟩
  · exact .inl (.frame rfl rfl)
  · obtain ⟨ur, rr, hres⟩ := hreserve { s with openIdx := s.openIdx.set s.clock () }
    rw [hres]
    exact .inr ⟨rfl, rfl, post, hpost, hself⟩

section Steps

variable {content : Hash → Addr × Option Hash} {p : Params} {paid : Bool} {s s' : CreatorState}

variable (h : Founded content s)

include h

theorem Founded.upvote {voter : Addr} {direction : ℤ}
    (hexec : recordUpvoteEngagement p paid s voter target direction = .ok s') :
    Founded content s' := by
  have hvoted : Founded content
      { s with voteDirs := s.voteDirs.set (toLex (voter, target)) direction } :=
    h.kept (.frame rfl rfl)
  unfold recordUpvoteEngagement at hexec
  simp only at hexec
  split at hexec
  · exact hvoted.kept (clearOpenUpvote_records hexec)
  split at hexec
  · cases hexec
    exact hvoted
  · rcases recordEngagement_records (fun s => ⟨_, s.replyReserved, rfl⟩) hexec with
      hkept | ⟨hposts, heng, htarget⟩
    · exact hvoted.kept hkept
    · exact hvoted.engage hposts heng ⟨htarget, .inl rfl⟩

theorem Founded.post {owner : Addr} {hash : Hash} {target : Option Hash} {community : Slug}
    (htx : content hash = (owner, target))
    (hexec : MirageNode.post p paid s owner hash target community = .ok s') :
    Founded content s' := by
  unfold MirageNode.post at hexec
  split at hexec
  · cases hexec
    exact h.publish htx
  next parent =>
  split at hexec
  · cases hexec
  next above habove =>
  split at hexec
  · cases hexec
  -- The reply is stored before it is recorded, so the record finds its source.
  have hposted : Founded content
      { s with posts := s.posts.set hash ⟨owner, above.community, some parent, 0, 0⟩ } :=
    h.publish htx
  unfold recordDirectReplyEngagement at hexec
  split at hexec
  · cases hexec
    exact hposted
  · rcases recordEngagement_records (fun s => ⟨s.upvoteReserved, _, rfl⟩) hexec with
      hkept | ⟨hposts, heng, htarget⟩
    · exact hposted.kept hkept
    · exact hposted.engage hposts heng
        ⟨htarget, .inr ⟨rfl, hash, _, rfl, get_set_self .., rfl, rfl⟩⟩

theorem Founded.delete {height : ℤ} {owner : Addr} {byGovernance : Bool}
    (hexec : deletePost height s owner byGovernance target = .ok s') : Founded content s' := by
  unfold deletePost at hexec
  split at hexec
  · cases hexec
    exact h
  next post hpost =>
  simp only [bind_eq_ok, failIf_eq_ok, exists_const] at hexec
  obtain ⟨-, hexec⟩ := hexec
  have hdeleted : Founded content { s with
      posts := s.posts.set target
        { post with deletedHeight := height, deletedEpoch := s.clock } } :=
    h.publish (h.posts target post hpost)
  split at hexec
  · cases hexec
    exact hdeleted
  · exact hdeleted.kept (clearOpenDirectReply_records hexec)

theorem Founded.step {ctx : BlockCtx} {op : CreatorOp} (htx : op.FromTx content)
    (hexec : op.exec ctx s = .ok s') : Founded content s' := by
  cases hop : op.isMessage with
  | false => exact h.kept (op.exec_records hop hexec)
  | true =>
    cases op with
    | upvote => exact h.upvote hexec
    | reply => exact htx.elim
    | post => exact h.post htx hexec
    | delete => exact h.delete hexec
    | _ => cases hop

end Steps

/-! ## 4. Keys as bytes -/

/-- `parseEngagementKey`; a key of another length is an error. -/
def parseEngagementKey (key : List UInt8) : Option (List UInt8 × UInt8 × List UInt8) :=
  if key.length ≠ (textBytes KeyKind.engagement.text).length + 8 + (20 + 1 + 32) then none
  else
    let rest := key.drop ((textBytes KeyKind.engagement.text).length + 8)
    some (rest.take 20, rest.getD 20 0, rest.drop 21)

/-- `KeyEngagement`, with addresses of 20 bytes and hashes of 32. -/
def engagementStoreKey (epoch : Int64) (actor : {b : List UInt8 // b.length = 20}) (kind : UInt8)
    (target : {b : List UInt8 // b.length = 32}) : StoreKey 20 32 :=
  ⟨.engagement, .cons epoch (.cons actor (.cons kind (.cons target .nil)))⟩

theorem parseEngagementKey_bytes (epoch : Int64) (actor : {b : List UInt8 // b.length = 20})
    (kind : UInt8) (target : {b : List UInt8 // b.length = 32}) :
    parseEngagementKey (engagementStoreKey epoch actor kind target).bytes =
      some (actor.1, kind, target.1) := by
  obtain ⟨text, htext⟩ : ∃ text, text = textBytes KeyKind.engagement.text := ⟨_, rfl⟩
  have hbytes : (engagementStoreKey epoch actor kind target).bytes =
      text ++ (i64 epoch ++ (actor.1 ++ (kind :: (target.1 ++ [])))) := by
    rw [htext]
    rfl
  have hactor : actor.1.length = 20 := actor.2
  have htarget : target.1.length = 32 := target.2
  have hepoch : (i64 epoch).length = 8 := rfl
  have hdrop : (text ++ (i64 epoch ++ (actor.1 ++ (kind :: (target.1 ++ []))))).drop
      (text.length + 8) = actor.1 ++ (kind :: (target.1 ++ [])) := by
    rw [← List.append_assoc]
    exact List.drop_left' (by rw [List.length_append, hepoch])
  have hlast : (actor.1 ++ (kind :: (target.1 ++ []))).drop 21 = target.1 := by
    rw [List.append_nil, List.append_cons]
    exact List.drop_left' (by simp [hactor])
  rw [hbytes, parseEngagementKey, ← htext, hdrop, if_neg (by simp [hactor, htarget, hepoch])]
  dsimp only
  rw [hlast]
  simp [← hactor]

/-! ## 5. Runs -/

/-- The states that operations lead to when each of them meets a condition. -/
inductive OpRun (meets : CreatorState → CreatorOp → Prop) (s₀ : CreatorState) (t₀ : ℤ) :
    CreatorState → ℤ → Prop
  | start : OpRun meets s₀ t₀ s₀ t₀
  | step {s s' : CreatorState} {t : ℤ} (ctx : BlockCtx) (op : CreatorOp) :
      OpRun meets s₀ t₀ s t → t ≤ ctx.time → meets s op → op.exec ctx s = .ok s' →
      OpRun meets s₀ t₀ s' ctx.time

theorem OpRun.founded {content : Hash → Addr × Option Hash} {s₀ : CreatorState} {t₀ t : ℤ}
    (h₀ : Founded content s₀) (hrun : OpRun (fun _ op => op.FromTx content) s₀ t₀ s t) :
    Founded content s := by
  induction hrun with
  | start => exact h₀
  | step ctx op _ _ htx hexec ih => exact ih.step htx hexec

/-- In every run in which a hash stands for one post, from a store without engagements:
every engagement record has the metadata that `engagementValid` asks for, the key of a
record parses, `engagementValid` returns for it in any epoch, and a block's settlement
does not fail at a record. -/
theorem settlement_guards_hold {content : Hash → Addr × Option Hash} {s₀ s : CreatorState}
    {t₀ t : ℤ} (hposts : Agrees content s₀.posts) (hnone : s₀.engagements = .empty)
    (hrun : OpRun (fun _ op => op.FromTx content) s₀ t₀ s t) :
    (∀ k v, s.engagements.get k = some v →
      Grounded s.posts k v ∧
      ∀ epoch, ∃ valid, engagementValid s epoch k.actor k.kind k.target v = .ok valid) ∧
    (∀ epoch actor kind target,
      parseEngagementKey (engagementStoreKey epoch actor kind target).bytes =
        some (actor.1, kind, target.1)) ∧
    ∀ p now err, processCreatorSettlement p now s = .error err → ¬ err.OnRecord := by
  have h₀ : Founded content s₀ := ⟨hposts, fun k v hv => by rw [hnone] at hv; cases hv⟩
  have hs := hrun.founded h₀
  refine ⟨fun k v hv => ⟨hs.records k v hv, fun epoch => ?_⟩, parseEngagementKey_bytes,
    fun p now err herr => ?_⟩
  · exact (hs.records k v hv).engagementValid_ok epoch
  · have hspares := settlement_spares p now s
    rw [herr] at hspares
    exact hspares hs.records

/-- Post 7 is a root post of account 9, and account 2 replied to it in post 8. -/
def rootAndReply (hash : Hash) : Addr × Option Hash := if hash = 7 then (9, none) else (2, some 7)

/-- The record of the reply passes the guards. -/
theorem settlement_guards_hold_reply :
    ∃ s, OpRun (fun _ op => op.FromTx rootAndReply) onePost 1500 s 1510 ∧
      s.engagements.get (keyEngagement 5 2 engagementKindDirectReply 7) = some (some 8) ∧
      ∀ epoch, ∃ valid,
        engagementValid s epoch 2 engagementKindDirectReply 7 (some 8) = .ok valid := by
  have hpost : (post defaultParams true onePost 2 8 (some 7) 3).map (fun s =>
      s.engagements.get (keyEngagement 5 2 engagementKindDirectReply 7)) = .ok (some (some 8)) := by
    decide +kernel
  have hagrees : Agrees rootAndReply onePost.posts := by
    intro hash post hget
    have hget : (OrderedMap.empty.set 7 ⟨9, some 3, none, 0, 0⟩).get hash = some post := hget
    rw [get_set] at hget
    split at hget
    next heq =>
      cases hget
      exact if_pos heq
    next => cases hget
  cases hs : post defaultParams true onePost 2 8 (some 7) 3 with
  | error err =>
    rw [hs] at hpost
    cases hpost
  | ok s =>
    rw [hs] at hpost
    have hget := Except.ok.inj hpost
    have hrun : OpRun (fun _ op => op.FromTx rootAndReply) onePost 1500 s 1510 :=
      .step ⟨1510, 1, 0⟩ (.post defaultParams true 2 8 (some 7) 3) .start (by decide) rfl hs
    exact ⟨s, hrun, hget, ((settlement_guards_hold hagrees rfl hrun).1 _ _ hget).2⟩

end MirageNode
