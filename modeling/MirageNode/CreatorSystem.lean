import MirageNode.CreatorClock
import MirageNode.SettlementTick
import MirageNode.Rewards

/-!
# The creator system as a state machine

Every operation that writes the creator store, as one type (`CreatorOp`), and its
runs with a block time that never goes back (`CreatorRun`). Each operation is a
sequence of small steps (`CreatorStep`), so that an invariant of all runs is
proved by one case analysis over the steps (`CreatorRun.induction`).
-/

namespace MirageNode

open OrderedStore OrderedMap Fallible

/-! ## 1. Operations -/

/-- The payment in `CreateTranche`: burns one part of the fee and moves the other
into the creator pool. -/
def takeTrancheFee (s : CreatorState) (payer : Addr) (burnAmt creatorAmt : ℕ) :
    Except CoreError CreatorState := do
  let bank ← s.bank.burnFromAccount payer burnAmt
  if creatorAmt > 0 then do
    let bank ← bank.sendToCreatorPool payer creatorAmt
    addCreatorLiability { s with bank := bank } creatorAmt
  else .ok { s with bank := bank }

/-- The tranche record written by `CreateTranche`, and its stream. -/
def recordTranche (now : ℤ) (s : CreatorState) (tr : SubscriptionTranche) :
    Except CoreError CreatorState := do
  let stream ← scheduleCreatorStreamTranche now s.stream tr.id tr.creatorAmount tr.startTime
    tr.endTime
  return { s with
    trancheSeq := tr.id
    tranches := s.tranches.set tr.id tr
    stream := stream }

/-- The creator-store part of `CreateTranche`. -/
def fundTranche (now : ℤ) (s : CreatorState) (tr : SubscriptionTranche) :
    Except CoreError CreatorState := do
  let s ← takeTrancheFee s tr.payer tr.burnAmount tr.creatorAmount
  recordTranche now s tr

/-- The operations on the creator store. `transfer` stands for all other coin
movements of the chain. -/
inductive CreatorOp where
  | transfer (bank : Bank)
  | fund (tr : SubscriptionTranche)
  | advance (p : Params)
  | settle (p : Params)
  | expire (p : Params)
  | prune (p : Params)
  | regrid (p : Params) (newSeconds : ℕ)
  | upvote (p : Params) (paid : Bool) (voter : Addr) (target : Hash) (direction : ℤ)
  | reply (p : Params) (paid : Bool) (commenter : Addr) (parent source : Hash)
  | post (p : Params) (paid : Bool) (owner : Addr) (hash : Hash) (target : Option Hash)
      (community : Slug)
  | delete (owner : Addr) (byGovernance : Bool) (target : Hash)
  | claim (p : Params) (creator : Addr) (epochs : List ℤ)

/-- Runs an operation in a block. -/
def CreatorOp.exec (ctx : BlockCtx) (s : CreatorState) : CreatorOp → Except CoreError CreatorState
  | transfer bank => .ok { s with bank := bank }
  | fund tr => fundTranche ctx.time s tr
  | advance p => advanceCreatorClock p ctx.time s
  | settle p => processCreatorSettlement p ctx.time s
  | expire p => processCreatorExpiries p ctx.time s
  | prune p => processCreatorPruning p s
  | regrid p newSeconds => applyCreatorEpochSeconds p ctx.time s newSeconds
  | upvote p paid voter target direction => recordUpvoteEngagement p paid s voter target direction
  | reply p paid commenter parent source =>
    recordDirectReplyEngagement p paid s commenter parent source
  | post p paid owner hash target community => MirageNode.post p paid s owner hash target community
  | delete owner byGovernance target => deletePost ctx.height s owner byGovernance target
  | claim p creator epochs => claimCreatorRewards p ctx s creator epochs

/-- What the callers guarantee about an operation: other coin movements do not
take from the creator pool, `CreateTranche` numbers tranches in sequence and
starts them no earlier than now, stored parameters have positive budgets, and
nobody engaged with a post before its transaction ran, as its hash was not known. -/
def CreatorOp.Admissible (now : ℤ) (s : CreatorState) : CreatorOp → Prop
  | transfer bank => s.bank.creatorPool ≤ bank.creatorPool
  | fund tr => tr.id = s.trancheSeq + 1 ∧ now ≤ tr.startTime
  | advance p | regrid p _ | upvote p _ _ _ _ | reply p _ _ _ _ => p.Budgeted
  | post p _ _ hash _ _ => p.Budgeted ∧ ∀ k v, s.engagements.get k = some v → k.target ≠ hash
  | _ => True

/-- The states that operations lead to, and the block time of the last one. -/
inductive CreatorRun (s₀ : CreatorState) (t₀ : ℤ) : CreatorState → ℤ → Prop
  | start : CreatorRun s₀ t₀ s₀ t₀
  | step {s s' : CreatorState} {t : ℤ} (ctx : BlockCtx) (op : CreatorOp) :
      CreatorRun s₀ t₀ s t → t ≤ ctx.time → op.Admissible ctx.time s → op.exec ctx s = .ok s' →
      CreatorRun s₀ t₀ s' ctx.time

/-! ## 2. Small steps -/

/-- What an operation other than a claim can do to the store at a time. -/
inductive WorkStep (now : ℤ) (s : CreatorState) : CreatorState → Prop
  | transfer {bank : Bank} : s.bank.creatorPool ≤ bank.creatorPool →
      WorkStep now s { s with bank := bank }
  | fund {tr : SubscriptionTranche} {s' : CreatorState} : tr.id = s.trancheSeq + 1 →
      now ≤ tr.startTime → fundTranche now s tr = .ok s' → WorkStep now s s'
  | clock {p : Params} {target : ℤ} {s' : CreatorState} {again : Bool} : p.Budgeted →
      (getCreatorSchedule p s).epochAt now = .ok target → s.clock < target →
      ClockMove p (getCreatorSchedule p s) target s s' again → WorkStep now s s'
  | tick {p : Params} {s' : CreatorState} : TickCase p now s s' → WorkStep now s s'
  | expire {epoch : ℤ} {s' : CreatorState} :
      expireClaimableEpoch s epoch = .ok s' → WorkStep now s s'
  | prune {epoch : ℤ} {budget : ℕ} : s.pruneIdx.has epoch = true → budget ≠ 0 →
      WorkStep now s (pruneEpochDetails s epoch budget).1
  | regrid {p : Params} {newSeconds : ℕ} {s' : CreatorState} : p.Budgeted →
      applyCreatorEpochSeconds p now s newSeconds = .ok s' → WorkStep now s s'
  | vote {voter : Addr} {target : Hash} {direction : ℤ} :
      WorkStep now s { s with voteDirs := s.voteDirs.set (toLex (voter, target)) direction }
  | full {p : Params} {ce : CreatorEpoch} : p.Budgeted → getOrNewEpoch p s s.clock = .ok ce →
      p.maxCreatorEngagementsPerEpoch ≤ ce.grossRecords →
      WorkStep now s { s with openIdx := s.openIdx.set s.clock () }
  | engage {p : Params} {ce : CreatorEpoch} {post : PostMetadata} {actor : Addr} {kind : ℕ}
      {target : Hash} {value : Option Hash} {ur : OrderedMap (Addr ×ₗ Hash) ℤ}
      {rr : OrderedMap (Addr ×ₗ Hash) (ℤ × Hash)} : getOrNewEpoch p s s.clock = .ok ce →
      ce.grossRecords < p.maxCreatorEngagementsPerEpoch → s.posts.get target = some post →
      post.author ≠ actor →
      WorkStep now s { s with
        openIdx := s.openIdx.set s.clock ()
        upvoteReserved := ur
        replyReserved := rr
        engagements := s.engagements.set (keyEngagement s.clock actor kind target) value
        epochs := s.epochs.set s.clock { ce with grossRecords := ce.grossRecords + 1 } }
  | withdraw {actor : Addr} {kind : ℕ} {target : Hash} {ur : OrderedMap (Addr ×ₗ Hash) ℤ}
      {rr : OrderedMap (Addr ×ₗ Hash) (ℤ × Hash)} {s' : CreatorState} :
      removeEngagement { s with upvoteReserved := ur, replyReserved := rr } actor kind target =
        .ok s' → WorkStep now s s'
  | publish {hash : Hash} {post : PostMetadata} :
      (∀ k v, s.engagements.get k = some v → k.target ≠ hash) →
      WorkStep now s { s with posts := s.posts.set hash post }
  | retract {target : Hash} {post : PostMetadata} {height : ℤ} : s.posts.get target = some post →
      WorkStep now s { s with
        posts := s.posts.set target { post with deletedHeight := height, deletedEpoch := s.clock } }

/-- What an operation can do to the store at a time. -/
inductive CreatorStep (now : ℤ) (s : CreatorState) : CreatorState → Prop
  | work {s' : CreatorState} : WorkStep now s s' → CreatorStep now s s'
  | claim {p : Params} {ctx : BlockCtx} {creator : Addr} {epochs : List ℤ} {s' : CreatorState} :
      ctx.time = now → claimCreatorRewards p ctx s creator epochs = .ok s' → CreatorStep now s s'

/-- Any number of steps without a claim at a time. -/
def WorkSteps (now : ℤ) : CreatorState → CreatorState → Prop :=
  Relation.ReflTransGen (WorkStep now)

/-- Any number of steps at a time. -/
def CreatorSteps (now : ℤ) : CreatorState → CreatorState → Prop :=
  Relation.ReflTransGen (CreatorStep now)

variable {now : ℤ} {s s' : CreatorState} {p : Params} {target : Hash} {paid : Bool}

theorem WorkStep.one (h : WorkStep now s s') : WorkSteps now s s' :=
  .single h

theorem ClockMove.keeps_schedule {sched : CreatorSchedule} {target : ℤ} {again : Bool}
    (h : ClockMove p sched target s s' again) : s'.schedule = s.schedule := by
  cases h with
  | jump => rfl
  | wait => rfl
  | close _ _ _ _ hcredit hclose =>
    obtain ⟨_, _, _, rfl⟩ := closeCreatorEpoch_frame hclose
    obtain ⟨_, _, rfl⟩ := creditEpoch_frame hcredit
    rfl

theorem advance_steps (hp : p.Budgeted)
    (h : advanceCreatorClock p now s = .ok s') : WorkSteps now s s' := by
  simp only [advanceCreatorClock, bind_eq_ok, failIf_eq_ok, exists_const] at h
  obtain ⟨target, htarget, -, hloop⟩ := h
  -- the grid is read once, and no pass of the loop changes it
  have hrun := clockLoop_induction
    (P := fun s₁ => s₁.schedule = s.schedule ∧ WorkSteps now s s₁)
    (fun s₁ s₂ again hlt hmove hs₁ => ?_) hloop ⟨rfl, .refl⟩
  · exact hrun.2
  · obtain ⟨hsched, hsteps⟩ := hs₁
    have hgrid : getCreatorSchedule p s₁ = getCreatorSchedule p s := by
      rw [getCreatorSchedule, hsched]
      rfl
    exact ⟨hmove.keeps_schedule.trans hsched,
      hsteps.tail (.clock hp (hgrid ▸ htarget) hlt (hgrid ▸ hmove))⟩

theorem settle_steps (hkeyed : WellKeyed s)
    (h : processCreatorSettlement p now s = .ok s') : WorkSteps now s s' :=
  ((settlement_ticks hkeyed).of_eq_ok h).lift id fun _ _ htick => .tick (settleTick_cases htick)

theorem expire_steps (h : processCreatorExpiries p now s = .ok s') : WorkSteps now s s' :=
  foldlM_ok_induction (P := WorkSteps now s) (fun _ _ _ _ hexp hsteps => hsteps.tail (.expire hexp))
    h .refl

theorem pruneEpochDetails_keeps_pruneIdx (s : CreatorState) (epoch : ℤ) (budget : ℕ) {e : ℤ}
    (hne : e ≠ epoch) : (pruneEpochDetails s epoch budget).1.pruneIdx.get e = s.pruneIdx.get e := by
  unfold pruneEpochDetails
  simp only
  split
  · rfl
  split
  · rfl
  split
  · rfl
  split
  · rfl
  · exact get_erase_of_ne hne

/-- What pruning an epoch of the index keeps, a block's pruning keeps. -/
theorem prune_induction {P : CreatorState → Prop}
    (hstep : ∀ s epoch budget, s.pruneIdx.has epoch = true → budget ≠ 0 → P s →
      P (pruneEpochDetails s epoch budget).1) (h : processCreatorPruning p s = .ok s') (hs : P s) :
    P s' := by
  simp only [processCreatorPruning, bind_eq_ok, failIf_eq_ok, exists_const, pure_eq_ok] at h
  obtain ⟨-, rfl⟩ := h
  -- the epochs still to come stay in the index, as they differ from those before them
  have hloop : ∀ (epochs : List ℤ) (s₁ : CreatorState) (budget : ℕ), epochs.Nodup →
      (∀ e ∈ epochs, s₁.pruneIdx.has e = true) → P s₁ →
      P (epochs.foldl pruneNext (s₁, budget)).1 := by
    intro epochs
    induction epochs with
    | nil => exact fun _ _ _ _ hs₁ => hs₁
    | cons e es ih =>
      intro s₁ budget hnodup hin hs₁
      obtain ⟨hnot, hnodup'⟩ := List.nodup_cons.mp hnodup
      rw [List.foldl_cons]
      rcases eq_or_ne budget 0 with hzero | hpos
      · have hskip : pruneNext (s₁, budget) e = (s₁, budget) := if_pos hzero
        rw [hskip]
        exact ih s₁ budget hnodup' (fun e' he' => hin e' (List.mem_cons_of_mem e he')) hs₁
      · have hone : pruneNext (s₁, budget) e = pruneEpochDetails s₁ e budget := if_neg hpos
        have hin' : ∀ e' ∈ es, (pruneEpochDetails s₁ e budget).1.pruneIdx.has e' = true := by
          intro e' he'
          have hne : e' ≠ e := fun heq => hnot (heq ▸ he')
          rw [OrderedMap.has, pruneEpochDetails_keeps_pruneIdx s₁ e budget hne]
          exact hin e' (List.mem_cons_of_mem e he')
        rw [hone]
        exact ih _ _ hnodup' hin' (hstep s₁ e budget (hin e List.mem_cons_self) hpos hs₁)
  have hsub : ((s.pruneIdx.entries.take pruneEpochsPerBlock).map Prod.fst).Sublist
      (s.pruneIdx.entries.map Prod.fst) := (List.take_sublist _ _).map Prod.fst
  refine hloop _ s _ (hsub.nodup s.pruneIdx.nodup_keys) (fun e he => ?_) hs
  obtain ⟨⟨e', u⟩, hmem, rfl⟩ := List.mem_map.mp (hsub.mem he)
  exact has_iff.mpr ⟨u, mem_entries_iff.mp hmem⟩

theorem prune_steps (h : processCreatorPruning p s = .ok s') : WorkSteps now s s' :=
  prune_induction (P := WorkSteps now s)
    (fun _ _ _ hin hpos hsteps => hsteps.tail (.prune hin hpos)) h .refl

/-! ## 3. Engagements as steps -/

theorem recordEngagement_steps {actor : Addr} {kind : ℕ} {value : Option Hash}
    {reserve : CreatorState → CreatorState} (hp : p.Budgeted)
    (hreserve : ∀ s, ∃ ur rr, reserve s = { s with upvoteReserved := ur, replyReserved := rr })
    (h : recordEngagement p paid s actor kind target value reserve = .ok s') :
    WorkSteps now s s' := by
  rcases recordEngagement_cases h with rfl | ⟨post, ce, s₁, hpost, hself, hce, rfl, hdone⟩
  · exact .refl
  rcases hdone with ⟨hfull, rfl⟩ | ⟨hroom, rfl⟩
  · exact (WorkStep.full hp hce hfull).one
  · obtain ⟨ur, rr, hres⟩ := hreserve { s with openIdx := s.openIdx.set s.clock () }
    rw [hres]
    exact (WorkStep.engage hce hroom hpost hself).one

theorem clearOpenUpvote_steps {voter : Addr}
    (h : clearOpenUpvote s voter target = .ok s') : WorkSteps now s s' := by
  unfold clearOpenUpvote at h
  split at h
  · cases h
    exact .refl
  · split at h
    · cases h
      exact .refl
    · exact (WorkStep.withdraw h).one

theorem clearOpenDirectReply_steps {author : Addr} {parent source : Hash}
    (h : clearOpenDirectReply s author parent source = .ok s') : WorkSteps now s s' := by
  unfold clearOpenDirectReply at h
  split at h
  · cases h
    exact .refl
  · split at h
    · cases h
      exact .refl
    · split at h
      · cases h
        exact .refl
      · exact (WorkStep.withdraw h).one

theorem upvote_steps {voter : Addr} {direction : ℤ} (hp : p.Budgeted)
    (h : recordUpvoteEngagement p paid s voter target direction = .ok s') : WorkSteps now s s' := by
  unfold recordUpvoteEngagement at h
  refine .head (.vote : WorkStep now s
    { s with voteDirs := s.voteDirs.set (toLex (voter, target)) direction }) ?_
  simp only at h
  split at h
  · exact clearOpenUpvote_steps h
  · split at h
    · cases h
      exact .refl
    · exact recordEngagement_steps hp (fun s => ⟨_, s.replyReserved, rfl⟩) h

theorem reply_steps {commenter : Addr} {parent source : Hash} (hp : p.Budgeted)
    (h : recordDirectReplyEngagement p paid s commenter parent source = .ok s') :
    WorkSteps now s s' := by
  unfold recordDirectReplyEngagement at h
  split at h
  · cases h
    exact .refl
  · exact recordEngagement_steps hp (fun s => ⟨s.upvoteReserved, _, rfl⟩) h

theorem post_steps {owner : Addr} {hash : Hash} {target : Option Hash} {community : Slug}
    (hp : p.Budgeted) (hfresh : ∀ k v, s.engagements.get k = some v → k.target ≠ hash)
    (h : post p paid s owner hash target community = .ok s') : WorkSteps now s s' := by
  unfold post at h
  split at h
  · cases h
    exact (WorkStep.publish hfresh).one
  · split at h
    · cases h
    · split at h
      · cases h
      · exact .head (.publish hfresh) (reply_steps hp h)

theorem delete_steps {height : ℤ} {owner : Addr} {byGovernance : Bool}
    (h : deletePost height s owner byGovernance target = .ok s') : WorkSteps now s s' := by
  unfold deletePost at h
  split at h
  · cases h
    exact .refl
  · next post hpost =>
    simp only [bind_eq_ok, failIf_eq_ok, exists_const] at h
    obtain ⟨-, h⟩ := h
    have hretract : WorkStep now s
        { s with
          posts := s.posts.set target
            { post with deletedHeight := height, deletedEpoch := s.clock } } :=
      .retract hpost
    refine .head hretract ?_
    split at h
    · cases h
      exact .refl
    · exact clearOpenDirectReply_steps h

/-! ## 4. Runs as steps -/

/-- A successful operation other than a claim is a sequence of steps without a
claim. -/
theorem CreatorOp.exec_work {ctx : BlockCtx} {op : CreatorOp}
    (hkeyed : WellKeyed s) (hadm : op.Admissible ctx.time s) (h : op.exec ctx s = .ok s')
    (hop : ∀ p creator epochs, op ≠ .claim p creator epochs) : WorkSteps ctx.time s s' := by
  cases op with
  | transfer bank =>
    cases h
    exact (WorkStep.transfer hadm).one
  | fund tr => exact (WorkStep.fund hadm.1 hadm.2 h).one
  | advance p => exact advance_steps hadm h
  | settle p => exact settle_steps hkeyed h
  | expire p => exact expire_steps h
  | prune p => exact prune_steps h
  | regrid p newSeconds => exact (WorkStep.regrid hadm h).one
  | upvote p paid voter target direction => exact upvote_steps hadm h
  | reply p paid commenter parent source => exact reply_steps hadm h
  | post p paid owner hash target community => exact post_steps hadm.1 hadm.2 h
  | delete owner byGovernance target => exact delete_steps h
  | claim p creator epochs => exact absurd rfl (hop p creator epochs)

/-- A successful operation is a sequence of steps. -/
theorem CreatorOp.exec_steps {ctx : BlockCtx} {op : CreatorOp}
    (hkeyed : WellKeyed s) (hadm : op.Admissible ctx.time s) (h : op.exec ctx s = .ok s') :
    CreatorSteps ctx.time s s' := by
  by_cases hop : ∀ p creator epochs, op ≠ .claim p creator epochs
  · exact (op.exec_work hkeyed hadm h hop).lift id fun _ _ => .work
  · simp only [ne_eq, not_forall, not_not] at hop
    obtain ⟨p, creator, epochs, rfl⟩ := hop
    exact .single (.claim rfl h)

end MirageNode
