import MirageNode.EpochView

/-!
# The life of one epoch

Whatever the chain does, each single epoch goes through the moves of `EpochMove`
(`CreatorStep.lives`). So what holds for an epoch over all runs is proved about
its moves alone, whatever happens to the other epochs in between.
-/

namespace MirageNode

open OrderedStore OrderedMap Fallible

/-! ## 1. The other operations seen from one epoch -/

/-- Where an epoch stands in the store: once closed it lies before the clock, and
it is pruned only after it expired. -/
structure Placed (s : CreatorState) (e : ℤ) : Prop where
  closed_lt : ∀ ce, s.epochs.get e = some ce → ce.status ≠ .opened → e < s.clock
  pruned : s.pruneIdx.has e = true → ∃ ce, s.epochs.get e = some ce ∧ ce.status = .expired

variable {p : Params} {s s' : CreatorState} {ce : CreatorEpoch} {e now epoch : ℤ} {creator : Addr}
  {ctx : BlockCtx} {v v' : EpochView}

/-- The current epoch can be written to. -/
theorem Placed.writable (h : Placed s s.clock) (hce : getOrNewEpoch p s s.clock = .ok ce) :
    (s.view s.clock).Writable s.clock ce := by
  rcases getOrNewEpoch_cases hce with hget | ⟨hnone, start, stop, -, -, rfl⟩
  · refine .inl ⟨hget, ?_⟩
    by_contra hclosed
    exact lt_irrefl _ (h.closed_lt ce hget hclosed)
  · exact .inr ⟨hnone, start, stop, rfl⟩

theorem Placed.opened (h : Placed s s.clock)
    (hget : s.epochs.get s.clock = some ce) : ce.status = .opened := by
  by_contra hclosed
  exact lt_irrefl _ (h.closed_lt ce hget hclosed)

theorem Placed.not_pruned (h : Placed s s.clock) : s.pruneIdx.has s.clock = false := by
  by_contra hprune
  obtain ⟨ce, hget, hst⟩ := h.pruned (Bool.eq_true_of_not_eq_false hprune)
  rw [h.opened hget] at hst
  cases hst

/-- An epoch whose record and index entry stay keeps its place as the clock moves
on. -/
theorem Placed.frame (h : Placed s e)
    (hrecord : s'.epochs.get e = s.epochs.get e) (hclock : s.clock ≤ s'.clock)
    (hprune : s'.pruneIdx.has e = s.pruneIdx.has e) : Placed s' e where
  closed_lt := fun ce hget hclosed => (h.closed_lt ce (hrecord ▸ hget) hclosed).trans_le hclock
  pruned := fun hp => hrecord.symm ▸ h.pruned (hprune ▸ hp)

/-- An epoch stays in place while it is open. -/
theorem Placed.of_opened (hopen : ∀ ce, s.epochs.get e = some ce → ce.status = .opened)
    (hprune : s.pruneIdx.has e = false) : Placed s e where
  closed_lt := fun ce hget hclosed => absurd (hopen ce hget) hclosed
  pruned := fun hp => absurd hp (by rw [hprune]; decide)

/-- What an operation does to one epoch: moves that leave it in place. -/
structure Lives (s s' : CreatorState) (e : ℤ) : Prop where
  moves : EpochMoves s.posts e (s.view e) (s'.view e)
  placed : Placed s' e

theorem Lives.trans {s₁ s₂ s₃ : CreatorState} (h : Lives s₁ s₂ e)
    (hposts : s₂.posts = s₁.posts) (h' : Placed s₂ e → Lives s₂ s₃ e) : Lives s₁ s₃ e where
  moves := h.moves.trans (hposts ▸ (h' h.placed).moves)
  placed := (h' h.placed).placed

/-- An operation on other parts of the store. -/
theorem Lives.frame (hplaced : Placed s e) (hview : s'.view e = s.view e)
    (hclock : s.clock ≤ s'.clock) (hprune : s'.pruneIdx.has e = s.pruneIdx.has e) : Lives s s' e :=
  ⟨.of_eq hview, hplaced.frame (congrArg EpochView.record hview) hclock hprune⟩

theorem creditEpoch_lives {amount : ℤ}
    (hplaced : Placed s e) (h : creditEpoch p s s.clock amount = .ok s') : Lives s s' e := by
  unfold creditEpoch at h
  split at h
  · next hpos =>
    obtain ⟨ce, hce, rfl⟩ := addEpochPool_eq_ok.mp h
    rcases eq_or_ne e s.clock with rfl | hne
    · have hopen := hplaced.writable hce
      have hview := view_setEpoch s s.clock { ce with pool := ce.pool + amount }
      refine ⟨.single (hview ▸ .write hopen (by omega)), .of_opened ?_ hplaced.not_pruned⟩
      intro ce' hget
      rw [get_set_self] at hget
      cases hget
      exact hopen.status
    · exact .frame hplaced (view_setEpoch_of_ne s _ hne) le_rfl rfl
  · cases h
    exact .frame hplaced rfl le_rfl rfl

theorem truncateCreatorEpochEnd_lives {at_ : ℤ} (hplaced : Placed s e) :
    Lives s (truncateCreatorEpochEnd s s.clock at_) e := by
  unfold truncateCreatorEpochEnd
  split
  · exact .frame hplaced rfl le_rfl rfl
  · next ce hget =>
    split
    · exact .frame hplaced rfl le_rfl rfl
    · rcases eq_or_ne e s.clock with rfl | hne
      · have hst := hplaced.opened hget
        have hview := view_setEpoch s s.clock { ce with endUnix := at_ }
        refine ⟨.single (hview ▸ .write (.inl ⟨hget, hst⟩) le_rfl),
          .of_opened ?_ hplaced.not_pruned⟩
        intro ce' hget'
        rw [get_set_self] at hget'
        cases hget'
        exact hst
      · exact .frame hplaced (view_setEpoch_of_ne s _ hne) le_rfl rfl

theorem truncate_frame (s : CreatorState) (epoch at_ : ℤ) :
    ∃ epochs, truncateCreatorEpochEnd s epoch at_ = { s with epochs := epochs } := by
  unfold truncateCreatorEpochEnd
  split
  · exact ⟨_, rfl⟩
  · split <;> exact ⟨_, rfl⟩

/-- Closing the current epoch and moving on. -/
theorem closeCreatorEpoch_lives {s₁ : CreatorState} {clock : ℤ} (hplaced : Placed s e)
    (h : closeCreatorEpoch s s.clock = .ok s₁) (hclock : s.clock < clock)
    (hview : s'.view e = s₁.view e) (hclock' : s'.clock = clock)
    (hprune : s'.pruneIdx = s₁.pruneIdx) : Lives s s' e := by
  rcases closeCreatorEpoch_cases h with ⟨-, rfl⟩ | ⟨-, ce, hget, rfl⟩
  · exact .frame hplaced hview (by omega) (by rw [hprune])
  · rcases eq_or_ne e s.clock with rfl | hne
    · have hclose := view_setEpoch s s.clock ce.closed
      refine ⟨.single ?_, ⟨fun _ _ _ => by omega, fun hp => ?_⟩⟩
      · rw [hview]
        exact hclose ▸ .close hget (hplaced.opened hget)
      · have hnot := hplaced.not_pruned
        rw [hprune] at hp
        exact absurd hp (by rw [hnot]; decide)
    · exact .frame hplaced (hview.trans (view_setEpoch_of_ne s _ hne)) (by omega) (by rw [hprune])

theorem ClockMove.lives {sched : CreatorSchedule} {target : ℤ} {again : Bool} (hplaced : Placed s e)
    (h : ClockMove p sched target s s' again) : Lives s s' e := by
  cases h with
  | jump _ hlt => exact .frame hplaced rfl hlt.le rfl
  | wait => exact .frame hplaced rfl le_rfl rfl
  | @close skipTo boundary amount stream s₁ s₂ _ _ _ _ hcredit hclose =>
    have hplaced' : Placed { s with stream := stream } e := hplaced.frame rfl le_rfl rfl
    have hlives := creditEpoch_lives hplaced' hcredit
    obtain ⟨epochs, openIdx, rfl⟩ := creditEpoch_frame hcredit
    have hfirst : Lives s _ e := ⟨hlives.moves, hlives.placed⟩
    exact hfirst.trans rfl fun hplaced₁ =>
      closeCreatorEpoch_lives hplaced₁ hclose (lt_add_one _) rfl rfl rfl

theorem Regrid.lives {newSeconds : ℕ}
    (hplaced : Placed s e) (h : Regrid p now newSeconds s s') : Lives s s' e := by
  cases h with
  | keep => exact .frame hplaced rfl le_rfl rfl
  | first _ hnext => exact .frame hplaced rfl (nextCreatorSchedule_lt hnext).1 rfl
  | @restart sched amount clock stream stream' s₁ s₂ hpos _ hcredit hclose hnext _ =>
    have hplaced' : Placed { s with stream := stream } e := hplaced.frame rfl le_rfl rfl
    have hlives := creditEpoch_lives hplaced' hcredit
    have hfirst : Lives s s₁ e := ⟨hlives.moves, hlives.placed⟩
    obtain ⟨hposts₁, hclock₁⟩ : s₁.posts = s.posts ∧ s₁.clock = s.clock := by
      obtain ⟨_, _, rfl⟩ := creditEpoch_frame hcredit
      exact ⟨rfl, rfl⟩
    rw [← hclock₁] at hclose hnext hpos
    obtain ⟨hposts₂, hclock₂⟩ : (truncateCreatorEpochEnd s₁ s₁.clock now).posts = s₁.posts ∧
        (truncateCreatorEpochEnd s₁ s₁.clock now).clock = s₁.clock := by
      obtain ⟨_, heq⟩ := truncate_frame s₁ s₁.clock now
      rw [heq]
      exact ⟨rfl, rfl⟩
    refine hfirst.trans hposts₁ fun hplaced₁ => ?_
    refine (truncateCreatorEpochEnd_lives hplaced₁).trans hposts₂ fun hplaced₂ => ?_
    have hclose₂ : closeCreatorEpoch (truncateCreatorEpochEnd s₁ s₁.clock now)
        (truncateCreatorEpochEnd s₁ s₁.clock now).clock = .ok s₂ := hclock₂.symm ▸ hclose
    refine closeCreatorEpoch_lives hplaced₂ hclose₂ ?_ rfl rfl rfl
    rw [hclock₂]
    exact (nextCreatorSchedule_lt hnext).2 hpos

theorem fundTranche_frame {tr : SubscriptionTranche} (h : fundTranche now s tr = .ok s') :
    ∃ bank liability stream, s' = { s with
      bank := bank
      liability := liability
      trancheSeq := tr.id
      tranches := s.tranches.set tr.id tr
      stream := stream } := by
  simp only [fundTranche, takeTrancheFee, recordTranche, bind_eq_ok, pure_eq_ok] at h
  obtain ⟨s₁, ⟨bank, -, hpay⟩, stream, -, rfl⟩ := h
  split at hpay
  · simp only [bind_eq_ok, addCreatorLiability, failIf_eq_ok, exists_const, pure_eq_ok] at hpay
    obtain ⟨bank', -, -, rfl⟩ := hpay
    exact ⟨_, _, _, rfl⟩
  · cases hpay
    exact ⟨_, _, _, rfl⟩

theorem expireClaimableEpoch_cases (h : expireClaimableEpoch s epoch = .ok s') :
    ∃ ce, s.epochs.get epoch = some ce ∧
      (ce.status ≠ .claimable ∧ s' = { s with
          deadlineIdx := s.deadlineIdx.erase (toLex (ce.claimDeadlineUnix, epoch)) } ∨
        ce.status = .claimable ∧ ce.claimedTotal ≤ ce.pool ∧ ∃ s₁,
          burnCreatorPool s (ce.pool - ce.claimedTotal) = .ok s₁ ∧
          s' = { s₁ with
            epochs := s₁.epochs.set epoch ce.expire
            deadlineIdx := s.deadlineIdx.erase (toLex (ce.claimDeadlineUnix, epoch))
            pruneIdx := s₁.pruneIdx.set epoch () }) := by
  unfold expireClaimableEpoch at h
  split at h
  · cases h
  · next ce hget =>
    refine ⟨ce, hget, ?_⟩
    simp only at h
    split at h
    · next hst =>
      cases h
      exact .inl ⟨hst, rfl⟩
    · next hst =>
      simp only [bind_eq_ok, failIf_eq_ok, exists_const, pure_eq_ok, not_lt] at h
      obtain ⟨hle, s₁, hburn, rfl⟩ := h
      exact .inr ⟨not_not.mp hst, by omega, s₁, hburn, rfl⟩

theorem expireClaimableEpoch_lives (hplaced : Placed s e)
    (h : expireClaimableEpoch s epoch = .ok s') : Lives s s' e := by
  obtain ⟨ce, hget, ⟨-, rfl⟩ | ⟨hst, hle, s₁, hburn, rfl⟩⟩ := expireClaimableEpoch_cases h
  · exact .frame hplaced rfl le_rfl rfl
  · obtain ⟨bank, liability, rfl⟩ := burnCreatorPool_keeps hburn
    rcases eq_or_ne e epoch with rfl | hne
    · have hview := view_setEpoch s e ce.expire
      refine ⟨.single (hview ▸ .expire hget hst hle), fun ce' _ _ => ?_, fun _ => ?_⟩
      · exact hplaced.closed_lt ce hget (by rw [hst]; decide)
      · exact ⟨ce.expire, get_set_self _ _ _, rfl⟩
    · refine .frame hplaced (view_setEpoch_of_ne s _ hne) le_rfl ?_
      rw [OrderedMap.has, get_set_of_ne _ hne]
      rfl

/-- Deleting keys of one epoch does not show in the others. -/
theorem slice_deletePrefix {κ α : Type} [LinearOrder κ] {m : OrderedMap (ℤ ×ₗ κ) α} (budget : ℕ)
    (h : e ≠ epoch) :
    (deleteCreatorPrefixBudget m (fun k => (ofLex k).1 = epoch) budget).1.slice e = m.slice e := by
  have hfold : ∀ (rs : List ((ℤ ×ₗ κ) × α)) (m' : OrderedMap (ℤ ×ₗ κ) α),
      (∀ r ∈ rs, (ofLex r.1).1 = epoch) →
      (rs.foldl (fun m r => m.erase r.1) m').slice e = m'.slice e := by
    intro rs
    induction rs with
    | nil => exact fun _ _ => rfl
    | cons r rs ih =>
      intro m' hrs
      rw [List.foldl_cons, ih _ fun r' hr' => hrs r' (List.mem_cons_of_mem r hr')]
      have hr := hrs r List.mem_cons_self
      exact slice_erase_of_ne fun heq => h (heq.symm.trans hr)
  refine hfold _ _ fun r hr => ?_
  simpa using (mem_scan.mp (List.mem_of_mem_take hr)).2

/-- Pruning deletes details of its epoch only, and may end with the epoch marked
as done. -/
theorem pruneEpochDetails_cases (s : CreatorState) (epoch : ℤ) (budget : ℕ) :
    ∃ engagements counts marks,
      (∀ e ≠ epoch, engagements.slice e = s.engagements.slice e ∧
        counts.slice e = s.counts.slice e ∧ marks.slice e = s.validMarks.slice e) ∧
      ((pruneEpochDetails s epoch budget).1 =
          { s with engagements := engagements, counts := counts, validMarks := marks } ∨
        ∃ ce, s.epochs.get epoch = some ce ∧ (pruneEpochDetails s epoch budget).1 =
          { s with
            engagements := engagements
            counts := counts
            validMarks := marks
            epochs := s.epochs.set epoch ce.pruned
            pruneIdx := s.pruneIdx.erase epoch }) := by
  unfold pruneEpochDetails
  generalize hE : deleteCreatorPrefixBudget s.engagements _ budget = E
  have heng : ∀ e ≠ epoch, E.1.slice e = s.engagements.slice e :=
    fun e he => hE ▸ slice_deletePrefix budget he
  simp only
  split
  · exact ⟨_, s.counts, s.validMarks, fun e he => ⟨heng e he, rfl, rfl⟩, .inl rfl⟩
  generalize hC : deleteCreatorPrefixBudget s.counts _ E.2 = C
  have hcounts : ∀ e ≠ epoch, C.1.slice e = s.counts.slice e :=
    fun e he => hC ▸ slice_deletePrefix E.2 he
  split
  · exact ⟨_, _, s.validMarks, fun e he => ⟨heng e he, hcounts e he, rfl⟩, .inl rfl⟩
  generalize hM : deleteCreatorPrefixBudget s.validMarks _ C.2 = M
  have hmarks : ∀ e ≠ epoch, M.1.slice e = s.validMarks.slice e :=
    fun e he => hM ▸ slice_deletePrefix C.2 he
  refine ⟨E.1, C.1, M.1, fun e he => ⟨heng e he, hcounts e he, hmarks e he⟩, ?_⟩
  split
  · exact .inl rfl
  split
  · exact .inl rfl
  · next ce hget => exact .inr ⟨ce, hget, rfl⟩

theorem pruneEpochDetails_lives {budget : ℕ} (hplaced : Placed s e)
    (hprune : s.pruneIdx.has epoch = true) : Lives s (pruneEpochDetails s epoch budget).1 e := by
  obtain ⟨engagements, counts, marks, hothers, hcase⟩ := pruneEpochDetails_cases s epoch budget
  rcases eq_or_ne e epoch with rfl | hne
  · obtain ⟨ce, hget, hst⟩ := hplaced.pruned hprune
    have hmove : ∀ ce', ce' = ce ∨ ce' = ce.pruned → EpochMove s.posts e (s.view e)
        { s.view e with
          record := some ce', engagements := engagements.slice e, counts := counts.slice e,
          marks := marks.slice e } := fun ce' hce' => .prune hget hst hce'
    rcases hcase with heq | ⟨ce', hget', heq⟩
    · rw [heq]
      refine ⟨.single ?_, hplaced.frame rfl le_rfl rfl⟩
      have hsame := hmove ce (.inl rfl)
      rwa [← hget] at hsame
    · obtain rfl : ce = ce' := Option.some.inj (hget.symm.trans hget')
      rw [heq]
      refine ⟨.single ?_, fun _ _ _ => ?_, fun hp => ?_⟩
      · simp only [CreatorState.view, get_set_self]
        exact hmove ce.pruned (.inr rfl)
      · exact hplaced.closed_lt ce hget (by rw [hst]; decide)
      · obtain ⟨u, hu⟩ := has_iff.mp hp
        rw [get_erase_self] at hu
        cases hu
  · obtain ⟨heng, hcounts, hmarks⟩ := hothers e hne
    rcases hcase with heq | ⟨ce, -, heq⟩
    · rw [heq]
      refine .frame hplaced ?_ le_rfl rfl
      simp only [CreatorState.view, heng, hcounts, hmarks]
    · rw [heq]
      refine .frame hplaced ?_ le_rfl ?_
      · simp only [CreatorState.view, heng, hcounts, hmarks, get_set_of_ne _ hne]
      · simp only [OrderedMap.has, get_erase_of_ne hne]

variable {actor : Addr} {kind : ℕ} {target : Hash}

theorem removeEngagement_cases (h : removeEngagement s actor kind target = .ok s') :
    s.epochs.get s.clock = none ∧ s' = { s with
        engagements := s.engagements.erase (keyEngagement s.clock actor kind target) } ∨
      ∃ ce, s.epochs.get s.clock = some ce ∧ ce.grossRecords ≠ 0 ∧ s' = { s with
        engagements := s.engagements.erase (keyEngagement s.clock actor kind target)
        epochs := s.epochs.set s.clock { ce with grossRecords := ce.grossRecords - 1 } } := by
  simp only [removeEngagement] at h
  split at h
  · next hnone =>
    cases h
    exact .inl ⟨hnone, rfl⟩
  · next ce hget =>
    simp only [bind_eq_ok, failIf_eq_ok, exists_const, pure_eq_ok] at h
    obtain ⟨hgross, rfl⟩ := h
    exact .inr ⟨ce, hget, hgross, rfl⟩

theorem removeEngagement_lives (hplaced : Placed s e)
    (h : removeEngagement s actor kind target = .ok s') : Lives s s' e := by
  rcases removeEngagement_cases h with ⟨hnone, rfl⟩ | ⟨ce, hget, -, rfl⟩
  · rcases eq_or_ne e s.clock with rfl | hne
    · exact ⟨.single (.unengage hnone), hplaced.frame rfl le_rfl rfl⟩
    · refine .frame hplaced ?_ le_rfl rfl
      simp only [CreatorState.view]
      rw [slice_erase_of_ne (Ne.symm hne)]
  · rcases eq_or_ne e s.clock with rfl | hne
    · have hst := hplaced.opened hget
      refine ⟨.single ?_, .of_opened ?_ hplaced.not_pruned⟩
      · have hview := view_setEpoch
          { s with engagements := s.engagements.erase (keyEngagement s.clock actor kind target) }
          s.clock { ce with grossRecords := ce.grossRecords - 1 }
        exact hview ▸ .write (.inl ⟨hget, hst⟩) le_rfl
      · intro ce' hget'
        rw [get_set_self] at hget'
        cases hget'
        exact hst
    · refine .frame hplaced ?_ le_rfl rfl
      simp only [CreatorState.view]
      rw [slice_erase_of_ne (Ne.symm hne), get_set_of_ne _ hne]

theorem engage_lives {value : Option Hash} {ur : OrderedMap (Addr ×ₗ Hash) ℤ}
    {rr : OrderedMap (Addr ×ₗ Hash) (ℤ × Hash)} (hplaced : Placed s e)
    (hce : getOrNewEpoch p s s.clock = .ok ce) :
    Lives s { s with
      openIdx := s.openIdx.set s.clock ()
      upvoteReserved := ur
      replyReserved := rr
      engagements := s.engagements.set (keyEngagement s.clock actor kind target) value
      epochs := s.epochs.set s.clock { ce with grossRecords := ce.grossRecords + 1 } } e := by
  rcases eq_or_ne e s.clock with rfl | hne
  · have hopen := hplaced.writable hce
    refine ⟨.single ?_, .of_opened ?_ hplaced.not_pruned⟩
    · have hview := view_setEpoch
        { s with engagements := s.engagements.set (keyEngagement s.clock actor kind target) value }
        s.clock { ce with grossRecords := ce.grossRecords + 1 }
      exact hview ▸ .write hopen le_rfl
    · intro ce' hget'
      rw [get_set_self] at hget'
      cases hget'
      exact hopen.status
  · refine .frame hplaced ?_ le_rfl rfl
    simp only [CreatorState.view]
    rw [slice_set_of_ne _ (Ne.symm hne), get_set_of_ne _ hne]

theorem claimableAccrual_eq_ok
    {item : ℤ × CreatorAccrual} (h : claimableAccrual now s creator e = .ok item) :
    item.1 = e ∧ ∃ ce, (s.view e).Claimable now creator item.2 ce := by
  unfold claimableAccrual at h
  split at h
  · cases h
  next acc hacc =>
  split at h
  · cases h
  next ce hget =>
  simp only [bind_eq_ok, failIf_eq_ok, exists_const, pure_eq_ok, not_not, not_le, ge_iff_le,
    Bool.not_eq_true, gt_iff_lt, ne_eq] at h
  obtain ⟨hst, htime, hclaims, hunclaimed, hpos, rfl⟩ := h
  refine ⟨rfl, ce, ⟨hget, hst, htime, ?_, ?_, hunclaimed, hpos⟩⟩
  · show (s.accruals.slice e).get creator = _
    rw [get_slice, hacc]
  · show (s.claims.slice e).has creator = _
    rw [OrderedMap.has, get_slice]
    exact hclaims

theorem applyClaim_view {item : ℤ × CreatorAccrual} (hget : s.epochs.get item.1 = some ce) :
    (applyClaim ctx creator s item).view item.1 =
        (s.view item.1).claimed ctx creator item.2 ce ∧
      ∀ e ≠ item.1, (applyClaim ctx creator s item).view e = s.view e := by
  simp only [applyClaim, addClaimedTotal, hget]
  refine ⟨?_, fun e he => ?_⟩
  · simp only [CreatorState.view, EpochView.claimed, get_set_self,
      slice_set_self]
  · have hkey : (ofLex (toLex (item.1, creator))).1 ≠ e := Ne.symm he
    simp only [CreatorState.view, get_set_of_ne _ he, slice_set_of_ne _ hkey]

variable {epochs : List ℤ}

/-- What a successful claim paid, and how the state came about. -/
theorem claimCreatorRewards_items (h : claimCreatorRewards p ctx s creator epochs = .ok s') :
    ∃ (items : List (ℤ × CreatorAccrual)) (bank : Bank),
      claimItems p ctx.time s creator epochs = .ok items ∧
      items.map Prod.fst = epochs ∧ epochs.Pairwise (· < ·) ∧
      (∀ item ∈ items, ∃ ce, (s.view item.1).Claimable ctx.time creator item.2 ce) ∧
      0 ≤ (items.foldl (applyClaim ctx creator) s).liability - claimSum items ∧
      (items.foldl (applyClaim ctx creator) s).bank.payFromCreatorPool creator
        (claimSum items).toNat = .ok bank ∧
      s' = { items.foldl (applyClaim ctx creator) s with
        liability := (items.foldl (applyClaim ctx creator) s).liability - claimSum items
        bank := bank } := by
  simp only [claimCreatorRewards, addCreatorLiability, bind_eq_ok, failIf_eq_ok, exists_const,
    pure_eq_ok, not_lt, ← sub_eq_add_neg] at h
  obtain ⟨items, hok, s₁, ⟨hliab, rfl⟩, bank, hpay, rfl⟩ := h
  have hchecks := hok
  simp only [claimItems, bind_eq_ok, failIf_eq_ok, exists_const, not_not] at hchecks
  obtain ⟨-, hchain, hitems⟩ := hchecks
  have hall := mapM_eq_ok hitems
  refine ⟨items, bank, hok, ?_, hchain.pairwise, ?_, hliab, hpay, rfl⟩
  · clear hpay hliab hitems hchain hok
    induction hall with
    | nil => rfl
    | cons hone _ ih => rw [List.map_cons, ih, (claimableAccrual_eq_ok hone).1]
  · clear hpay hliab hitems hchain hok
    induction hall with
    | nil => simp
    | cons hone _ ih =>
      rintro item (_ | ⟨_, hmem⟩)
      · obtain ⟨hfst, hclaim⟩ := claimableAccrual_eq_ok hone
        exact hfst.symm ▸ hclaim
      · exact ih item hmem

theorem foldl_applyClaim_frame (ctx : BlockCtx) (creator : Addr) (items : List (ℤ × CreatorAccrual))
    (s : CreatorState) :
    ∃ accruals claims epochs, items.foldl (applyClaim ctx creator) s =
      { s with accruals := accruals, claims := claims, epochs := epochs } := by
  induction items generalizing s with
  | nil => exact ⟨_, _, _, rfl⟩
  | cons item items ih =>
    obtain ⟨accruals, claims, epochs, hrest⟩ := ih (applyClaim ctx creator s item)
    rw [List.foldl_cons, hrest]
    unfold applyClaim addClaimedTotal
    simp only
    split <;> exact ⟨_, _, _, rfl⟩

/-- A claim pays each epoch of its list once and leaves the others alone. -/
theorem foldl_applyClaim_view {items : List (ℤ × CreatorAccrual)}
    (hsorted : (items.map Prod.fst).Pairwise (· < ·))
    (hclaim : ∀ item ∈ items, ∃ ce, (s.view item.1).Claimable ctx.time creator item.2 ce) (e : ℤ) :
    (e ∉ items.map Prod.fst ∧ (items.foldl (applyClaim ctx creator) s).view e = s.view e) ∨
      ∃ acc ce, (e, acc) ∈ items ∧ (s.view e).Claimable ctx.time creator acc ce ∧
        (items.foldl (applyClaim ctx creator) s).view e =
          (s.view e).claimed ctx creator acc ce := by
  induction items generalizing s with
  | nil => exact .inl ⟨List.not_mem_nil, rfl⟩
  | cons item items ih =>
    obtain ⟨epoch, acc⟩ := item
    obtain ⟨hfirst, hsorted'⟩ := List.pairwise_cons.mp hsorted
    obtain ⟨ce, hce⟩ := hclaim (epoch, acc) List.mem_cons_self
    obtain ⟨hview, hothers⟩ :
        (applyClaim ctx creator s (epoch, acc)).view epoch =
            (s.view epoch).claimed ctx creator acc ce ∧
          ∀ e ≠ epoch, (applyClaim ctx creator s (epoch, acc)).view e = s.view e :=
      applyClaim_view hce.record
    -- the later epochs of the list differ from this one
    have hlater : ∀ item ∈ items, item.1 ≠ epoch := fun item hmem =>
      (hfirst item.1 (List.mem_map_of_mem hmem)).ne'
    have hrest := ih (s := applyClaim ctx creator s (epoch, acc)) hsorted' fun item hmem => by
      obtain ⟨ce', hce'⟩ := hclaim item (List.mem_cons_of_mem _ hmem)
      exact ⟨ce', (hothers item.1 (hlater item hmem)).symm ▸ hce'⟩
    rw [List.foldl_cons]
    rcases eq_or_ne e epoch with rfl | hne
    · refine .inr ⟨acc, ce, List.mem_cons_self, hce, ?_⟩
      rcases hrest with ⟨-, hsame⟩ | ⟨acc', ce', hmem, -, -⟩
      · exact hsame.trans hview
      · exact absurd rfl (hlater (e, acc') hmem)
    · rcases hrest with ⟨hnot, hsame⟩ | ⟨acc', ce', hmem, hce', hpaid⟩
      · refine .inl ⟨fun hmem => ?_, hsame.trans (hothers e hne)⟩
        rcases List.mem_cons.mp hmem with heq | htail
        · exact hne heq
        · exact hnot htail
      · rw [hothers e hne] at hce' hpaid
        exact .inr ⟨acc', ce', List.mem_cons_of_mem _ hmem, hce', hpaid⟩

theorem claimCreatorRewards_views (h : claimCreatorRewards p ctx s creator epochs = .ok s') :
    ∃ items, claimItems p ctx.time s creator epochs = .ok items ∧
      (items.map Prod.fst).Pairwise (· < ·) ∧
      (∀ item ∈ items, ∃ ce, (s.view item.1).Claimable ctx.time creator item.2 ce) ∧
      ∀ e, (e ∉ items.map Prod.fst ∧ s'.view e = s.view e) ∨
        ∃ acc ce, (e, acc) ∈ items ∧ (s.view e).Claimable ctx.time creator acc ce ∧
          s'.view e = (s.view e).claimed ctx creator acc ce := by
  obtain ⟨items, bank, hitems, rfl, hsorted, hclaim, -, -, rfl⟩ := claimCreatorRewards_items h
  exact ⟨items, hitems, hsorted, hclaim, foldl_applyClaim_view hsorted hclaim⟩

theorem claim_lives (hplaced : Placed s e)
    (h : claimCreatorRewards p ctx s creator epochs = .ok s') : Lives s s' e := by
  obtain ⟨items, bank, -, rfl, hsorted, hclaim, -, -, rfl⟩ := claimCreatorRewards_items h
  obtain ⟨accruals, claims, epochs, hframe⟩ := foldl_applyClaim_frame ctx creator items s
  rcases foldl_applyClaim_view hsorted hclaim e with ⟨-, hsame⟩ | ⟨acc, ce, -, hce, hpaid⟩
  · refine .frame hplaced hsame ?_ ?_ <;> rw [hframe]
  · refine ⟨.single (hpaid.symm ▸ .claim hce), fun _ _ _ => ?_, fun hp => ?_⟩
    · have hlt := hplaced.closed_lt ce hce.record (by rw [hce.status]; decide)
      rw [hframe]
      exact hlt
    · have hprune : s.pruneIdx.has e = true := by
        rw [hframe] at hp
        exact hp
      obtain ⟨ce', hget', hst'⟩ := hplaced.pruned hprune
      obtain rfl : ce' = ce := Option.some.inj (hget'.symm.trans hce.record)
      rw [hce.status] at hst'
      cases hst'

/-- A closed epoch stays in place while it is settled. -/
theorem Placed.settled {ce' : CreatorEpoch} (h : Placed s e) (hget : s.epochs.get epoch = some ce)
    (hclosed : ce.status ≠ .opened) (hlive : ce.status ≠ .expired)
    (hepochs : s'.epochs = s.epochs.set epoch ce') (hclock : s'.clock = s.clock)
    (hprune : s'.pruneIdx = s.pruneIdx ∨
      s'.pruneIdx = s.pruneIdx.set epoch () ∧ ce'.status = .expired) : Placed s' e := by
  rcases eq_or_ne e epoch with rfl | hne
  · refine ⟨fun _ _ _ => hclock ▸ h.closed_lt ce hget hclosed, fun hp => ?_⟩
    rcases hprune with hsame | ⟨-, hst⟩
    · obtain ⟨ce₀, hget₀, hst₀⟩ := h.pruned (hsame ▸ hp)
      obtain rfl : ce₀ = ce := Option.some.inj (hget₀.symm.trans hget)
      exact absurd hst₀ hlive
    · exact ⟨ce', hepochs ▸ get_set_self _ _ _, hst⟩
  · refine h.frame (hepochs ▸ get_set_of_ne _ hne) hclock.ge ?_
    rcases hprune with hsame | ⟨hset, -⟩
    · rw [hsame]
    · rw [hset, OrderedMap.has, get_set_of_ne _ hne]
      rfl

theorem TickCase.placed (hkeyed : WellKeyed s)
    (hplaced : Placed s e) (h : TickCase p now s s') : Placed s' e := by
  cases h.writes with
  | index heq => exact heq ▸ hplaced.frame rfl le_rfl rfl
  | @record epoch ce ce' hget hepochs hst _ _ hprune heq =>
    obtain rfl := hkeyed epoch ce hget
    have hclosed : ce.status ≠ .opened ∧ ce.status ≠ .expired := by
      rcases hst with hst | hst <;> rw [hst] <;> decide
    exact hplaced.settled hget hclosed.1 hclosed.2 hepochs (by rw [heq]) hprune

/-! ## 2. Every step moves every epoch -/

/-- Every record is filed under its epoch and every epoch is in place. -/
structure WellPlaced (s : CreatorState) : Prop where
  keyed : WellKeyed s
  placed : ∀ e, Placed s e

theorem WorkStep.lives (hs : WellPlaced s) (h : WorkStep now s s') (e : ℤ) : Lives s s' e := by
  have hplaced := hs.placed e
  cases h with
  | transfer => exact .frame hplaced rfl le_rfl rfl
  | fund _ _ hfund =>
    obtain ⟨_, _, _, rfl⟩ := fundTranche_frame hfund
    exact .frame hplaced rfl le_rfl rfl
  | clock _ _ _ hmove => exact hmove.lives hplaced
  | tick htick => exact ⟨htick.moves hs.keyed e, htick.placed hs.keyed hplaced⟩
  | expire hexp => exact expireClaimableEpoch_lives hplaced hexp
  | prune hprune => exact pruneEpochDetails_lives hplaced hprune
  | regrid _ hregrid => exact (applyCreatorEpochSeconds_regrid hregrid).lives hplaced
  | vote => exact .frame hplaced rfl le_rfl rfl
  | full => exact .frame hplaced rfl le_rfl rfl
  | engage hce => exact engage_lives hplaced hce
  | @withdraw actor kind target ur rr s' hremove =>
    have hplaced' : Placed { s with upvoteReserved := ur, replyReserved := rr } e :=
      hplaced.frame rfl le_rfl rfl
    have hlives := removeEngagement_lives hplaced' hremove
    exact ⟨hlives.moves, hlives.placed⟩
  | publish => exact .frame hplaced rfl le_rfl rfl
  | retract => exact .frame hplaced rfl le_rfl rfl

theorem CreatorStep.lives (hs : WellPlaced s)
    (h : CreatorStep now s s') (e : ℤ) : Lives s s' e := by
  cases h with
  | work hwork => exact hwork.lives hs e
  | claim _ hclaim => exact claim_lives (hs.placed e) hclaim

/-- The posts are kept, or one is published or retracted. -/
def PostsMove (s s' : CreatorState) : Prop :=
  s'.posts = s.posts ∨
    (∃ hash post, s' = { s with posts := s.posts.set hash post } ∧
      ∀ k v, s.engagements.get k = some v → k.target ≠ hash) ∨
    ∃ target post height epoch, s.posts.get target = some post ∧ s' = { s with
      posts := s.posts.set target { post with deletedHeight := height, deletedEpoch := epoch } }

/-- An epoch that comes to wait for settlement has a record. -/
def WaitsRecorded (s s' : CreatorState) : Prop :=
  ∀ e, s'.settleIdx.has e = true →
    s.settleIdx.has e = true ∨ ∃ ce, s'.epochs.get e = some ce

theorem closeCreatorEpoch_waits (h : closeCreatorEpoch s epoch = .ok s') : WaitsRecorded s s' := by
  intro e hwait
  rcases closeCreatorEpoch_cases h with ⟨-, rfl⟩ | ⟨-, ce, -, rfl⟩
  · exact .inl hwait
  · obtain ⟨u, hu⟩ := has_iff.mp hwait
    rcases get_set_cases hu with ⟨rfl, -⟩ | ⟨-, hu⟩
    · exact .inr ⟨_, get_set_self _ _ _⟩
    · exact .inl (has_iff.mpr ⟨u, hu⟩)

/-- Only a claim writes claims, posts change only by being published or retracted, the stream only
by a purchase, the clock and a new grid, and only a recorded epoch comes to wait for settlement. -/
theorem WorkStep.keeps (h : WorkStep now s s') :
    s'.claims = s.claims ∧
      (s'.trancheSeq = s.trancheSeq ∧ s'.stream = s.stream ∨
        (∃ tr, tr.id = s.trancheSeq + 1 ∧ fundTranche now s tr = .ok s') ∨
        (∃ p sched target again, ClockMove p sched target s s' again) ∨
        ∃ p seconds, Regrid p now seconds s s') ∧
      PostsMove s s' ∧ WaitsRecorded s s' := by
  cases h with
  | transfer => exact ⟨rfl, .inl ⟨rfl, rfl⟩, .inl rfl, fun _ => .inl⟩
  | @fund tr _ hid _ hfund =>
    have hsold : ∃ tr, tr.id = s.trancheSeq + 1 ∧ fundTranche now s tr = .ok s' := ⟨tr, hid, hfund⟩
    obtain ⟨_, _, _, rfl⟩ := fundTranche_frame hfund
    exact ⟨rfl, .inr (.inl hsold), .inl rfl, fun _ => .inl⟩
  | clock _ _ _ hmove =>
    have hmoved := hmove
    cases hmove with
    | jump => exact ⟨rfl, .inl ⟨rfl, rfl⟩, .inl rfl, fun _ => .inl⟩
    | wait => exact ⟨rfl, .inr (.inr (.inl ⟨_, _, _, _, hmoved⟩)), .inl rfl, fun _ => .inl⟩
    | close _ _ _ _ hcredit hclose =>
      have hwaits := closeCreatorEpoch_waits hclose
      obtain ⟨_, _, _, rfl⟩ := closeCreatorEpoch_frame hclose
      obtain ⟨_, _, rfl⟩ := creditEpoch_frame hcredit
      exact ⟨rfl, .inr (.inr (.inl ⟨_, _, _, _, hmoved⟩)), .inl rfl, hwaits⟩
  | tick htick =>
    cases htick.writes with
    | index heq hwait | record _ _ _ _ hwait _ heq =>
      rw [heq]
      exact ⟨rfl, .inl ⟨rfl, rfl⟩, .inl rfl, fun e he => .inl (hwait e he)⟩
  | expire hexp =>
    obtain ⟨_, -, ⟨-, rfl⟩ | ⟨-, -, _, hburn, rfl⟩⟩ := expireClaimableEpoch_cases hexp
    · exact ⟨rfl, .inl ⟨rfl, rfl⟩, .inl rfl, fun _ => .inl⟩
    · obtain ⟨_, _, rfl⟩ := burnCreatorPool_keeps hburn
      exact ⟨rfl, .inl ⟨rfl, rfl⟩, .inl rfl, fun _ => .inl⟩
  | @prune epoch budget =>
    obtain ⟨_, _, _, -, heq | ⟨_, -, heq⟩⟩ := pruneEpochDetails_cases s epoch budget <;>
    · rw [heq]
      exact ⟨rfl, .inl ⟨rfl, rfl⟩, .inl rfl, fun _ => .inl⟩
  | regrid _ hregrid =>
    have hlaid := applyCreatorEpochSeconds_regrid hregrid
    cases applyCreatorEpochSeconds_regrid hregrid with
    | keep => exact ⟨rfl, .inl ⟨rfl, rfl⟩, .inl rfl, fun _ => .inl⟩
    | first => exact ⟨rfl, .inr (.inr (.inr ⟨_, _, hlaid⟩)), .inl rfl, fun _ => .inl⟩
    | restart _ _ hcredit hclose =>
      have hwaits := closeCreatorEpoch_waits hclose
      obtain ⟨_, _, _, rfl⟩ := closeCreatorEpoch_frame hclose
      obtain ⟨_, _, rfl⟩ := creditEpoch_frame hcredit
      obtain ⟨_, heq⟩ := truncate_frame _ s.clock now
      rw [heq] at hwaits ⊢
      exact ⟨rfl, .inr (.inr (.inr ⟨_, _, heq ▸ hlaid⟩)), .inl rfl, hwaits⟩
  | vote => exact ⟨rfl, .inl ⟨rfl, rfl⟩, .inl rfl, fun _ => .inl⟩
  | full => exact ⟨rfl, .inl ⟨rfl, rfl⟩, .inl rfl, fun _ => .inl⟩
  | engage => exact ⟨rfl, .inl ⟨rfl, rfl⟩, .inl rfl, fun _ => .inl⟩
  | withdraw hremove =>
    rcases removeEngagement_cases hremove with ⟨-, rfl⟩ | ⟨_, -, -, rfl⟩ <;>
      exact ⟨rfl, .inl ⟨rfl, rfl⟩, .inl rfl, fun _ => .inl⟩
  | publish hfresh => exact ⟨rfl, .inl ⟨rfl, rfl⟩, .inr (.inl ⟨_, _, rfl, hfresh⟩), fun _ => .inl⟩
  | retract hget => exact ⟨rfl, .inl ⟨rfl, rfl⟩, .inr (.inr ⟨_, _, _, _, hget, rfl⟩), fun _ => .inl⟩

theorem CreatorStep.posts (h : CreatorStep now s s') : PostsMove s s' := by
  cases h with
  | work hwork => exact hwork.keeps.2.2.1
  | @claim p ctx creator epochs s' _ hclaim =>
    obtain ⟨items, bank, -, -, -, -, -, -, rfl⟩ := claimCreatorRewards_items hclaim
    obtain ⟨_, _, _, hframe⟩ := foldl_applyClaim_frame ctx creator items s
    refine .inl ?_
    rw [hframe]

theorem CreatorStep.waits (h : CreatorStep now s s') : WaitsRecorded s s' := by
  cases h with
  | work hwork => exact hwork.keeps.2.2.2
  | @claim p ctx creator epochs s' _ hclaim =>
    obtain ⟨items, bank, -, -, -, -, -, -, rfl⟩ := claimCreatorRewards_items hclaim
    obtain ⟨_, _, _, hframe⟩ := foldl_applyClaim_frame ctx creator items s
    rw [hframe]
    exact fun _ => .inl

variable {posts : OrderedMap Hash PostMetadata}

/-- Moves keep a record's epoch. -/
theorem EpochMove.epochId
    (h : EpochMove posts e v v') (hid : ∀ ce, v.record = some ce → ce.epochId = e) :
    ∀ ce, v'.record = some ce → ce.epochId = e := by
  intro ce' hce'
  cases h with
  | write hopen =>
    cases hce'
    rcases hopen with ⟨hget, -⟩ | ⟨-, start, stop, rfl⟩
    · have hkeep := hid _ hget
      exact hkeep
    · rfl
  | unengage => exact hid ce' hce'
  | count hget =>
    cases hce'
    exact (v.flushFor_epochId _ _).trans (hid _ hget)
  | countNone hget | countDone hget =>
    cases hce'
    exact (v.flush_epochId _).trans (hid _ hget)
  | close hget | pass hget | allocate hget | finishNone hget | finish hget | expire hget =>
    have hkeep := hid _ hget
    cases hce'
    exact hkeep
  | claim hclaim =>
    have hkeep := hid _ hclaim.record
    cases hce'
    exact hkeep
  | prune hget _ hpruned =>
    have hkeep := hid _ hget
    cases hce'
    rcases hpruned with rfl | rfl <;> exact hkeep

/-- How far an epoch has come. -/
def EpochStatus.rank : EpochStatus → ℕ
  | opened => 0
  | counting => 1
  | allocating => 2
  | claimable => 3
  | expired => 4

/-- The status does not go back, and a closed epoch keeps its pool and its interval. -/
structure MovesOn (ce ce' : CreatorEpoch) : Prop where
  rank_le : ce.status.rank ≤ ce'.status.rank
  kept : ce.status ≠ .opened →
    ce'.pool = ce.pool ∧ ce'.startUnix = ce.startUnix ∧ ce'.endUnix = ce.endUnix

theorem EpochMove.movesOn (h : EpochMove posts e v v')
    (hget : v.record = some ce) : ∃ ce', v'.record = some ce' ∧ MovesOn ce ce' := by
  have hsame : ∀ {ce₁ : CreatorEpoch}, v.record = some ce₁ → ce₁ = ce :=
    fun hget₁ => Option.some.inj (hget₁.symm.trans hget)
  cases h with
  | write hopen =>
    rcases hopen with ⟨hget₁, hst₁⟩ | ⟨hnone, -⟩
    · obtain rfl := hsame hget₁
      exact ⟨_, rfl, le_rfl, fun hclosed => absurd hst₁ hclosed⟩
    · cases hget.symm.trans hnone
  | unengage hnone => cases hget.symm.trans hnone
  | close hget₁ hst₁ =>
    obtain rfl := hsame hget₁
    exact ⟨_, rfl, by rw [hst₁]; exact Nat.zero_le _, fun hclosed => absurd hst₁ hclosed⟩
  | @count ce₁ key valid hget₁ =>
    obtain rfl := hsame hget₁
    obtain ⟨-, _, _, _, hce⟩ := v.flushFor_keeps ce₁ key.actor
    exact ⟨_, rfl, by rw [hce], fun _ => by rw [hce]; exact ⟨rfl, rfl, rfl⟩⟩
  | @countNone ce₁ hget₁ hst₁ | @countDone ce₁ hget₁ hst₁ =>
    obtain rfl := hsame hget₁
    obtain ⟨-, _, _, _, hce⟩ := v.flush_keeps ce₁
    rw [hce]
    exact ⟨_, rfl, by rw [hst₁]; exact Nat.le_of_ble_eq_true rfl, fun _ => ⟨rfl, rfl, rfl⟩⟩
  | pass hget₁ | allocate hget₁ =>
    obtain rfl := hsame hget₁
    exact ⟨_, rfl, le_rfl, fun _ => ⟨rfl, rfl, rfl⟩⟩
  | finishNone hget₁ hst₁ | finish hget₁ hst₁ | expire hget₁ hst₁ =>
    obtain rfl := hsame hget₁
    exact ⟨_, rfl, by rw [hst₁]; exact Nat.le_of_ble_eq_true rfl, fun _ => ⟨rfl, rfl, rfl⟩⟩
  | claim hclaim =>
    obtain rfl := hsame hclaim.record
    exact ⟨_, rfl, le_rfl, fun _ => ⟨rfl, rfl, rfl⟩⟩
  | prune hget₁ _ hpruned =>
    obtain rfl := hsame hget₁
    rcases hpruned with rfl | rfl <;> exact ⟨_, rfl, le_rfl, fun _ => ⟨rfl, rfl, rfl⟩⟩

/-- An expired epoch stays expired. -/
theorem EpochMove.expired {posts : OrderedMap Hash PostMetadata}
    (h : EpochMove posts e v v') (hget : v.record = some ce)
    (hst : ce.status = .expired) : ∃ ce', v'.record = some ce' ∧ ce'.status = .expired := by
  obtain ⟨ce', hget', hmove⟩ := h.movesOn hget
  have hrank := hmove.rank_le
  refine ⟨ce', hget', ?_⟩
  rw [hst] at hrank
  cases hst' : ce'.status <;> rw [hst'] at hrank <;> revert hrank <;> decide

theorem MovesOn.refl (ce : CreatorEpoch) : MovesOn ce ce := ⟨le_rfl, fun _ => ⟨rfl, rfl, rfl⟩⟩

/-- A closed epoch is never opened again. -/
theorem MovesOn.closed {ce' : CreatorEpoch} (h : MovesOn ce ce') (hclosed : ce.status ≠ .opened) :
    ce'.status ≠ .opened := by
  refine fun hopen => hclosed ?_
  have hrank := h.rank_le
  rw [hopen] at hrank
  cases hst : ce.status <;> rw [hst] at hrank <;> revert hrank <;> decide

theorem MovesOn.trans {ce₁ ce₂ ce₃ : CreatorEpoch} (h₁ : MovesOn ce₁ ce₂) (h₂ : MovesOn ce₂ ce₃) :
    MovesOn ce₁ ce₃ := by
  refine ⟨h₁.rank_le.trans h₂.rank_le, fun hclosed => ?_⟩
  obtain ⟨hpool₁, hstart₁, hend₁⟩ := h₁.kept hclosed
  obtain ⟨hpool₂, hstart₂, hend₂⟩ := h₂.kept (h₁.closed hclosed)
  exact ⟨hpool₂.trans hpool₁, hstart₂.trans hstart₁, hend₂.trans hend₁⟩

theorem EpochMoves.induction
    {P : EpochView → Prop} (hmove : ∀ v v', EpochMove posts e v v' → P v → P v')
    (h : EpochMoves posts e v v') (hv : P v) : P v' := by
  induction h with
  | refl => exact hv
  | tail _ hstep ih => exact hmove _ _ hstep ih

theorem WellPlaced.step {now : ℤ} {s s' : CreatorState} (hs : WellPlaced s)
    (h : CreatorStep now s s') : WellPlaced s' where
  keyed := fun e => (h.lives hs e).moves.induction
    (P := fun v => ∀ ce, v.record = some ce → ce.epochId = e)
    (fun _ _ hmove hid => hmove.epochId hid) (hs.keyed e)
  placed := fun e => (h.lives hs e).placed

theorem WellPlaced.steps (hs : WellPlaced s) (h : CreatorSteps now s s') : WellPlaced s' := by
  induction h with
  | refl => exact hs
  | tail _ hstep ih => exact ih.step hstep

theorem CreatorStep.movesOn (hs : WellPlaced s) (h : CreatorStep now s s')
    (hget : s.epochs.get e = some ce) : ∃ ce', s'.epochs.get e = some ce' ∧ MovesOn ce ce' := by
  refine (h.lives hs e).moves.induction
    (P := fun v => ∃ ce', v.record = some ce' ∧ MovesOn ce ce') (fun v v' hmove h => ?_)
    ⟨ce, hget, .refl ce⟩
  obtain ⟨ce₁, hget₁, h₁⟩ := h
  obtain ⟨ce₂, hget₂, h₂⟩ := hmove.movesOn hget₁
  exact ⟨ce₂, hget₂, h₁.trans h₂⟩

theorem CreatorSteps.movesOn (hs : WellPlaced s) (h : CreatorSteps now s s')
    (hget : s.epochs.get e = some ce) : ∃ ce', s'.epochs.get e = some ce' ∧ MovesOn ce ce' := by
  suffices WellPlaced s' ∧ ∃ ce', s'.epochs.get e = some ce' ∧ MovesOn ce ce' from this.2
  induction h with
  | refl => exact ⟨hs, ce, hget, .refl ce⟩
  | tail _ hstep ih =>
    obtain ⟨hs₁, ce₁, hget₁, h₁⟩ := ih
    obtain ⟨ce₂, hget₂, h₂⟩ := hstep.movesOn hs₁ hget₁
    exact ⟨hs₁.step hstep, ce₂, hget₂, h₁.trans h₂⟩

/-- What every step keeps, every run keeps. -/
theorem CreatorRun.induction {P : ℤ → CreatorState → Prop}
    (hlater : ∀ t t' s, t ≤ t' → P t s → P t' s)
    (hstep : ∀ t s s', WellPlaced s → CreatorStep t s s' → P t s → P t s')
    {s₀ : CreatorState} {t₀ t : ℤ} (h : CreatorRun s₀ t₀ s t) (hs₀ : WellPlaced s₀)
    (hP : P t₀ s₀) : WellPlaced s ∧ P t s := by
  induction h with
  | start => exact ⟨hs₀, hP⟩
  | @step s s' t ctx op _ hle hadm hexec ih =>
    obtain ⟨hs, hPs⟩ := ih
    have hsteps := op.exec_steps hs.keyed hadm hexec
    clear hexec hadm
    induction hsteps with
    | refl => exact ⟨hs, hlater _ _ _ hle hPs⟩
    | tail _ hone ih' => exact ⟨ih'.1.step hone, hstep _ _ _ ih'.1 hone ih'.2⟩

end MirageNode
