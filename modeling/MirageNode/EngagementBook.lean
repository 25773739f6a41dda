import MirageNode.EpochLife
import MirageNode.CreatorErrors
import MirageNode.Lib.PeriodRegister

/-!
# Engagements are recorded once

A subscriber's upvote of a post, or direct reply to it, counts once, whatever is
voted, withdrawn, posted and deleted in between. The engagement records, their
reservations and the epochs' record counts are a register with periods
(`CreatorState.register`): an operation files or withdraws a record of the current
epoch, pruning drops records of past epochs, and everything else leaves the register
alone (`BooksKept`). So in every run a record's reservation names its epoch, the record
counts are right until an epoch is pruned, and they never underflow
(`engagements_recorded_once`).
-/

namespace MirageNode

open OrderedStore OrderedMap Fallible PeriodRegister Function

/-! ## 1. The register -/

/-- The reservation of an engagement: its epoch, and the reply it came from. -/
def CreatorState.reserved (s : CreatorState) (k : RecordKey) : Option (ℤ × Option Hash) :=
  if k.kind = engagementKindUpvote then
    (s.upvoteReserved.get (toLex (k.actor, k.target))).map fun e => (e, none)
  else if k.kind = engagementKindDirectReply then
    (s.replyReserved.get (toLex (k.actor, k.target))).map fun r => (r.1, some r.2)
  else none

/-- The record count of an epoch, zero for one that nothing has touched. -/
def CreatorState.gross (s : CreatorState) (e : ℤ) : ℕ :=
  ((s.epochs.get e).map CreatorEpoch.grossRecords).getD 0

/-- How far settlement got in an epoch. -/
def CreatorState.cursor (s : CreatorState) (e : ℤ) : Option EngagementKey :=
  (s.epochs.get e).bind CreatorEpoch.settlementCursor

/-- The engagement records as a register. -/
def CreatorState.register (s : CreatorState) : Register RecordKey (Option Hash) where
  period := s.clock
  filed := s.engagements.slice
  reserved := s.reserved
  count := s.gross

/-- An operation that neither records nor removes engagements. Counting may mark
records of closed epochs, and moves cursors within their epochs. -/
structure BooksKept (s s' : CreatorState) : Prop where
  clock : s.clock ≤ s'.clock
  engagements : s'.engagements = s.engagements
  upvotes : s'.upvoteReserved = s.upvoteReserved
  replies : s'.replyReserved = s.replyReserved
  gross : ∀ e, s'.gross e = s.gross e
  cursor : ∀ e c, s'.cursor e = some c → s.cursor e = some c ∨ c.epoch = e
  marks : ∀ k, s'.validMarks.has k = true →
    s.validMarks.has k = true ∨ ∃ v, s.engagements.get k = some v ∧ k.epoch < s'.clock

variable {s s' : CreatorState} {epoch e : ℤ} {ce : CreatorEpoch} {p : Params} {target : Hash}
  {paid : Bool} {actor : Addr} {kind : ℕ}

namespace BooksKept

theorem trans {s₁ s₂ s₃ : CreatorState} (h : BooksKept s₁ s₂) (h' : BooksKept s₂ s₃) :
    BooksKept s₁ s₃ where
  clock := h.clock.trans h'.clock
  engagements := h'.engagements.trans h.engagements
  upvotes := h'.upvotes.trans h.upvotes
  replies := h'.replies.trans h.replies
  gross := fun e => (h'.gross e).trans (h.gross e)
  cursor := fun e c hc => (h'.cursor e c hc).elim (h.cursor e c) .inr
  marks := fun k hk => by
    rcases h'.marks k hk with hk | ⟨v, hv, hlt⟩
    · rcases h.marks k hk with hk | ⟨v, hv, hlt⟩
      · exact .inl hk
      · exact .inr ⟨v, hv, hlt.trans_le h'.clock⟩
    · exact .inr ⟨v, h.engagements ▸ hv, hlt⟩

/-- An operation on other parts of the store. -/
theorem frame (hclock : s.clock ≤ s'.clock) (hepochs : s'.epochs = s.epochs)
    (heng : s'.engagements = s.engagements) (hup : s'.upvoteReserved = s.upvoteReserved)
    (hreply : s'.replyReserved = s.replyReserved) (hmarks : s'.validMarks = s.validMarks) :
    BooksKept s s' where
  clock := hclock
  engagements := heng
  upvotes := hup
  replies := hreply
  gross := fun e => by rw [CreatorState.gross, hepochs]; rfl
  cursor := fun e c hc => .inl (by rw [CreatorState.cursor, hepochs] at hc; exact hc)
  marks := fun k hk => .inl (hmarks ▸ hk)

theorem refl (s : CreatorState) : BooksKept s s := .frame le_rfl rfl rfl rfl rfl rfl

/-- An operation on one epoch's record, with the epoch's record count kept. -/
theorem setEpoch
    (hepochs : s'.epochs = s.epochs.set epoch ce) (hgross : ce.grossRecords = s.gross epoch)
    (hcursor : ∀ c, ce.settlementCursor = some c → s.cursor epoch = some c ∨ c.epoch = epoch)
    (hclock : s.clock ≤ s'.clock) (heng : s'.engagements = s.engagements)
    (hup : s'.upvoteReserved = s.upvoteReserved) (hreply : s'.replyReserved = s.replyReserved)
    (hmarks : ∀ k, s'.validMarks.has k = true →
      s.validMarks.has k = true ∨ ∃ v, s.engagements.get k = some v ∧ k.epoch < s'.clock) :
    BooksKept s s' where
  clock := hclock
  engagements := heng
  upvotes := hup
  replies := hreply
  gross := fun e => by
    rcases eq_or_ne e epoch with rfl | hne
    · rw [CreatorState.gross, hepochs, get_set_self]
      exact hgross
    · rw [CreatorState.gross, hepochs, get_set_of_ne _ hne]
      rfl
  cursor := fun e c hc => by
    rcases eq_or_ne e epoch with rfl | hne
    · rw [CreatorState.cursor, hepochs, get_set_self] at hc
      exact hcursor c hc
    · rw [CreatorState.cursor, hepochs, get_set_of_ne _ hne] at hc
      exact .inl hc
  marks := hmarks

end BooksKept

theorem gross_of_get (h : s.epochs.get e = some ce) : s.gross e = ce.grossRecords := by
  rw [CreatorState.gross, h]
  rfl

theorem cursor_of_get (h : s.epochs.get e = some ce) : s.cursor e = ce.settlementCursor := by
  rw [CreatorState.cursor, h]
  rfl

theorem getOrNewEpoch_books (h : getOrNewEpoch p s e = .ok ce) :
    ce.grossRecords = s.gross e ∧ ce.settlementCursor = s.cursor e := by
  rcases getOrNewEpoch_cases h with hget | ⟨hnone, start, stop, -, -, rfl⟩
  · exact ⟨(gross_of_get hget).symm, (cursor_of_get hget).symm⟩
  · rw [CreatorState.gross, CreatorState.cursor, hnone]
    exact ⟨rfl, rfl⟩

/-! ## 2. What leaves the register alone -/

theorem creditEpoch_books {amount : ℤ}
    (h : creditEpoch p s epoch amount = .ok s') : BooksKept s s' := by
  unfold creditEpoch at h
  split at h
  · obtain ⟨ce, hce, rfl⟩ := addEpochPool_eq_ok.mp h
    obtain ⟨hgross, hcursor⟩ := getOrNewEpoch_books hce
    exact .setEpoch rfl hgross (fun c hc => .inl (hcursor ▸ hc)) le_rfl rfl rfl rfl
      fun _ hk => .inl hk
  · cases h
    exact .refl s

theorem closeCreatorEpoch_books (h : closeCreatorEpoch s epoch = .ok s') : BooksKept s s' := by
  rcases closeCreatorEpoch_cases h with ⟨-, rfl⟩ | ⟨-, ce, hget, rfl⟩
  · exact .refl _
  · exact .setEpoch rfl (gross_of_get hget).symm nofun le_rfl rfl rfl rfl fun _ hk => .inl hk

theorem truncateCreatorEpochEnd_books (s : CreatorState) (epoch at_ : ℤ) :
    BooksKept s (truncateCreatorEpochEnd s epoch at_) := by
  unfold truncateCreatorEpochEnd
  split
  · exact .refl s
  · next ce hget =>
    split
    · exact .refl s
    · exact .setEpoch rfl (gross_of_get hget).symm (fun c hc => .inl (cursor_of_get hget ▸ hc))
        le_rfl rfl rfl rfl fun _ hk => .inl hk

theorem ClockMove.books {sched : CreatorSchedule} {target : ℤ}
    {again : Bool} (h : ClockMove p sched target s s' again) : BooksKept s s' := by
  cases h with
  | jump _ hlt => exact .frame hlt.le rfl rfl rfl rfl rfl
  | wait => exact .frame le_rfl rfl rfl rfl rfl rfl
  | @close skipTo boundary amount stream s₁ s₂ _ _ _ _ hcredit hclose =>
    have hstream : BooksKept s { s with stream := stream } := .frame le_rfl rfl rfl rfl rfl rfl
    have hbooks := (hstream.trans (creditEpoch_books hcredit)).trans
      (closeCreatorEpoch_books hclose)
    obtain ⟨_, _, rfl⟩ := creditEpoch_frame hcredit
    obtain ⟨_, _, _, rfl⟩ := closeCreatorEpoch_frame hclose
    exact hbooks.trans (.frame (Int.le_of_lt (Int.lt_succ s.clock)) rfl rfl rfl rfl rfl)

variable {now : ℤ}

theorem Regrid.books {newSeconds : ℕ} (h : Regrid p now newSeconds s s') : BooksKept s s' := by
  cases h with
  | keep => exact .refl s
  | first _ hnext => exact .frame (nextCreatorSchedule_lt hnext).1 rfl rfl rfl rfl rfl
  | @restart sched amount clock stream stream' s₁ s₂ hpos _ hcredit hclose hnext _ =>
    have hstream : BooksKept s { s with stream := stream } := .frame le_rfl rfl rfl rfl rfl rfl
    have hbooks := ((hstream.trans (creditEpoch_books hcredit)).trans
      (truncateCreatorEpochEnd_books s₁ s.clock now)).trans (closeCreatorEpoch_books hclose)
    refine hbooks.trans (.frame ?_ rfl rfl rfl rfl rfl)
    obtain ⟨_, _, rfl⟩ := creditEpoch_frame hcredit
    obtain ⟨_, htruncate⟩ := truncate_frame { s with stream := stream, epochs := _, openIdx := _ }
      s.clock now
    rw [htruncate] at hclose
    obtain ⟨_, _, _, rfl⟩ := closeCreatorEpoch_frame hclose
    exact (nextCreatorSchedule_lt hnext).1

/-- A resumed pass stays in its epoch. -/
theorem engagementsFrom_epoch {cursor : Option EngagementKey}
    (hcursor : ∀ c, cursor = some c → c.epoch = e) {r : EngagementKey × Option Hash}
    {rest : List (EngagementKey × Option Hash)} (h : engagementsFrom s e cursor = r :: rest) :
    s.engagements.get r.1 = some r.2 ∧ r.1.epoch = e := by
  have hmem : r ∈ engagementsFrom s e cursor := h ▸ List.mem_cons_self
  obtain ⟨k, v⟩ := r
  cases cursor with
  | none =>
    have hscan : (k, v) ∈ s.engagements.scan fun k => k.epoch = e := hmem
    obtain ⟨hget, hepoch⟩ := mem_scan.mp hscan
    exact ⟨hget, of_decide_eq_true hepoch⟩
  | some c =>
    have hscan : (k, v) ∈ s.engagements.scan fun k => c ≤ k ∧ k.epoch ≤ e :=
      List.mem_of_mem_drop hmem
    obtain ⟨hget, hrange⟩ := mem_scan.mp hscan
    obtain ⟨hle, hepoch⟩ := of_decide_eq_true hrange
    have hfrom := EngagementKey.epoch_le_of_le hle
    rw [hcursor c rfl] at hfrom
    exact ⟨hget, le_antisymm hepoch hfrom⟩

theorem countRecord_marks {s s' : CreatorState} {ce ce' : CreatorEpoch}
    {r : EngagementKey × Option Hash} (h : countRecord (s, ce) r = .ok (s', ce'))
    (hepoch : r.1.epoch = ce.epochId) {k : EngagementKey} (hk : s'.validMarks.has k = true) :
    s.validMarks.has k = true ∨ k = r.1 := by
  simp only [countRecord, bind_eq_ok] at h
  obtain ⟨⟨s₁, ce₁⟩, hflush, valid, -, h⟩ := h
  have hmark : keyEngagement ce₁.epochId r.1.actor r.1.kind r.1.target = r.1 := by
    have hid : ce₁.epochId = ce.epochId := by
      unfold flushForActor at hflush
      split at hflush
      · cases hflush
        rfl
      · obtain ⟨-, _, _, _, rfl⟩ := flushCountActor_keeps hflush
        rfl
    rw [hid, ← hepoch]
    rfl
  have hsame : s₁.validMarks = s.validMarks := by
    unfold flushForActor at hflush
    split at hflush
    · cases hflush
      rfl
    · obtain ⟨⟨_, rfl⟩, -⟩ := flushCountActor_keeps hflush
      rfl
  simp only [hmark] at h
  cases valid with
  | true =>
    cases h
    rw [OrderedMap.has, get_set, hsame] at hk
    split at hk
    · next heq => exact .inr heq
    · exact .inl hk
  | false =>
    cases h
    rw [OrderedMap.has, get_erase, hsame] at hk
    split at hk
    · cases hk
    · exact .inl hk

theorem TickCase.books (hs : WellPlaced s) (hcursor : ∀ e c, s.cursor e = some c → c.epoch = e)
    (h : TickCase p now s s') : BooksKept s s' := by
  cases h with
  | idle => exact .refl s
  | drop => exact .frame le_rfl rfl rfl rfl rfl rfl
  | @count epoch es ce ce' s₁ r rest hes hget hst hph hrec hcount =>
    obtain rfl := hs.keyed epoch ce hget
    have hown : ∀ c, ce.settlementCursor = some c → c.epoch = ce.epochId := fun c hc =>
      hcursor ce.epochId c (cursor_of_get hget ▸ hc)
    obtain ⟨hrget, hrepoch⟩ := engagementsFrom_epoch hown hrec
    have hlt := (hs.placed ce.epochId).closed_lt ce hget (by rw [hst]; nofun)
    have hmarks := fun k => @countRecord_marks s s₁ ce ce' r hcount hrepoch k
    obtain ⟨⟨counts, marks, rfl⟩, _, _, _, rfl⟩ := countRecord_keeps hcount
    refine .setEpoch rfl (gross_of_get hget).symm (fun c hc => .inr ?_) le_rfl rfl rfl rfl
      fun k hk => ?_
    · cases hc
      exact hrepoch
    · rcases hmarks k hk with hk | rfl
      · exact .inl hk
      · exact .inr ⟨r.2, hrget, hrepoch ▸ hlt⟩
  | @countNone epoch es ce ce₁ s₁ s' hes hget hst hph hrec hflush hzero hexp =>
    obtain rfl := hs.keyed epoch ce hget
    obtain ⟨⟨counts, rfl⟩, _, _, _, rfl⟩ := flushCountActor_keeps hflush
    obtain ⟨_, _, rfl⟩ := expireEpochUnallocated_keeps hexp
    exact .setEpoch rfl (gross_of_get hget).symm nofun le_rfl rfl rfl rfl fun _ hk => .inl hk
  | @countDone epoch es ce ce₁ s₁ hes hget hst hph hrec hflush hpos =>
    obtain rfl := hs.keyed epoch ce hget
    obtain ⟨⟨_, rfl⟩, _, _, _, rfl⟩ := flushCountActor_keeps hflush
    exact .setEpoch rfl (gross_of_get hget).symm nofun le_rfl rfl rfl rfl fun _ hk => .inl hk
  | @allocate epoch es ce ce' s₁ r rest hes hget hst hph hrec halloc =>
    obtain rfl := hs.keyed epoch ce hget
    have hown : ∀ c, ce.settlementCursor = some c → c.epoch = ce.epochId := fun c hc =>
      hcursor ce.epochId c (cursor_of_get hget ▸ hc)
    obtain ⟨-, hrepoch⟩ := engagementsFrom_epoch hown hrec
    obtain ⟨⟨_, _, _, rfl⟩, _, rfl⟩ := allocateRecord_keeps halloc
    refine .setEpoch rfl (gross_of_get hget).symm (fun c hc => .inr ?_) le_rfl rfl rfl rfl
      fun _ hk => .inl hk
    cases hc
    exact hrepoch
  | @finish epoch es ce s' hes hget hst hph hrec hfin =>
    obtain rfl := hs.keyed epoch ce hget
    obtain ⟨-, ⟨-, hexp⟩ | ⟨-, deadline, -, rfl⟩⟩ := finishAllocate_keeps hfin
    · obtain ⟨_, _, rfl⟩ := expireEpochUnallocated_keeps hexp
      exact .setEpoch rfl (gross_of_get hget).symm nofun le_rfl rfl rfl rfl fun _ hk => .inl hk
    · exact .setEpoch rfl (gross_of_get hget).symm nofun le_rfl rfl rfl rfl fun _ hk => .inl hk

theorem expireClaimableEpoch_books
    (h : expireClaimableEpoch s epoch = .ok s') : BooksKept s s' := by
  obtain ⟨ce, hget, ⟨-, rfl⟩ | ⟨-, -, s₁, hburn, rfl⟩⟩ := expireClaimableEpoch_cases h
  · exact .frame le_rfl rfl rfl rfl rfl rfl
  · obtain ⟨_, _, rfl⟩ := burnCreatorPool_keeps hburn
    exact .setEpoch rfl (gross_of_get hget).symm (fun c hc => .inl (cursor_of_get hget ▸ hc))
      le_rfl rfl rfl rfl fun _ hk => .inl hk

theorem applyClaim_books (ctx : BlockCtx) (creator : Addr) (s : CreatorState)
    (item : ℤ × CreatorAccrual) : BooksKept s (applyClaim ctx creator s item) := by
  unfold applyClaim addClaimedTotal
  simp only
  split
  · exact .frame le_rfl rfl rfl rfl rfl rfl
  · next ce hget =>
    exact .setEpoch rfl (gross_of_get hget).symm (fun c hc => .inl (cursor_of_get hget ▸ hc))
      le_rfl rfl rfl rfl fun _ hk => .inl hk

theorem foldl_applyClaim_books (ctx : BlockCtx) (creator : Addr) (items : List (ℤ × CreatorAccrual))
    (s : CreatorState) : BooksKept s (items.foldl (applyClaim ctx creator) s) := by
  induction items generalizing s with
  | nil => exact .refl s
  | cons item items ih => exact (applyClaim_books ctx creator s item).trans (ih _)

theorem claimCreatorRewards_books {ctx : BlockCtx} {creator : Addr} {epochs : List ℤ}
    (h : claimCreatorRewards p ctx s creator epochs = .ok s') : BooksKept s s' := by
  obtain ⟨items, bank, -, -, -, -, -, -, rfl⟩ := claimCreatorRewards_items h
  exact (foldl_applyClaim_books ctx creator items s).trans (.frame le_rfl rfl rfl rfl rfl rfl)

/-! ## 3. Pruning -/

theorem get_of_deletePrefix {κ α : Type} [LinearOrder κ] {m : OrderedMap κ α} {inPrefix : κ → Bool}
    {budget : ℕ} {k : κ} {v : α}
    (h : (deleteCreatorPrefixBudget m inPrefix budget).1.get k = some v) : m.get k = some v := by
  have hfold : ∀ (rs : List (κ × α)) (m' : OrderedMap κ α),
      (rs.foldl (fun m r => m.erase r.1) m').get k = some v → m'.get k = some v := by
    intro rs
    induction rs with
    | nil => exact fun _ h => h
    | cons r rs ih =>
      intro m' h
      exact get_of_get_erase (ih _ h)
  exact hfold _ m h

/-- A pruning operation: records of closed epochs and their marks disappear. -/
structure BooksPruned (s s' : CreatorState) : Prop where
  clock : s'.clock = s.clock
  upvotes : s'.upvoteReserved = s.upvoteReserved
  replies : s'.replyReserved = s.replyReserved
  gross : ∀ e, s'.gross e = s.gross e
  cursor : ∀ e c, s'.cursor e = some c → s.cursor e = some c
  engagements : ∀ k v, s'.engagements.get k = some v → s.engagements.get k = some v
  past : ∀ e, s'.engagements.slice e ≠ s.engagements.slice e → e < s.clock
  marks : ∀ k, s'.validMarks.has k = true → s.validMarks.has k = true

theorem BooksPruned.trans {s₁ s₂ s₃ : CreatorState} (h : BooksPruned s₁ s₂)
    (h' : BooksPruned s₂ s₃) : BooksPruned s₁ s₃ where
  clock := h'.clock.trans h.clock
  upvotes := h'.upvotes.trans h.upvotes
  replies := h'.replies.trans h.replies
  gross := fun e => (h'.gross e).trans (h.gross e)
  cursor := fun e c hc => h.cursor e c (h'.cursor e c hc)
  engagements := fun k v hv => h.engagements k v (h'.engagements k v hv)
  past := fun e hne => by
    by_cases hsame : s₃.engagements.slice e = s₂.engagements.slice e
    · exact h.past e (hsame ▸ hne)
    · exact h.clock ▸ h'.past e hsame
  marks := fun k hk => h.marks k (h'.marks k hk)

theorem pruneEpochDetails_sub (s : CreatorState) (epoch : ℤ) (budget : ℕ) :
    (∀ k v, (pruneEpochDetails s epoch budget).1.engagements.get k = some v →
      s.engagements.get k = some v) ∧
    ∀ k, (pruneEpochDetails s epoch budget).1.validMarks.has k = true →
      s.validMarks.has k = true := by
  have heng : ∀ k v, (deleteCreatorPrefixBudget s.engagements (fun k => k.epoch = epoch)
      budget).1.get k = some v → s.engagements.get k = some v := fun k v => get_of_deletePrefix
  have hmarks : ∀ n k, (deleteCreatorPrefixBudget s.validMarks (fun k => k.epoch = epoch) n).1.has k
      = true → s.validMarks.has k = true := by
    intro n k hk
    obtain ⟨v, hv⟩ := has_iff.mp hk
    exact has_iff.mpr ⟨v, get_of_deletePrefix hv⟩
  unfold pruneEpochDetails
  simp only
  split
  · exact ⟨heng, fun _ hk => hk⟩
  split
  · exact ⟨heng, fun _ hk => hk⟩
  split
  · exact ⟨heng, hmarks _⟩
  split
  · exact ⟨heng, hmarks _⟩
  · exact ⟨heng, hmarks _⟩

theorem pruneEpochDetails_books {budget : ℕ} (hs : WellPlaced s)
    (hprune : s.pruneIdx.has epoch = true) :
    BooksPruned s (pruneEpochDetails s epoch budget).1 := by
  obtain ⟨hsub, hsubMarks⟩ := pruneEpochDetails_sub s epoch budget
  obtain ⟨ce₀, hget₀, hst₀⟩ := (hs.placed epoch).pruned hprune
  have hlt : epoch < s.clock := (hs.placed epoch).closed_lt ce₀ hget₀ (by rw [hst₀]; nofun)
  obtain ⟨engagements, counts, marks, hothers, hcase⟩ := pruneEpochDetails_cases s epoch budget
  have hpast : ∀ e, engagements.slice e ≠ s.engagements.slice e → e < s.clock := by
    intro e hne
    rcases eq_or_ne e epoch with rfl | he
    · exact hlt
    · exact absurd (hothers e he).1 hne
  rcases hcase with hcase | ⟨ce, hget, hcase⟩
  · rw [hcase] at hsub hsubMarks ⊢
    exact ⟨rfl, rfl, rfl, fun _ => rfl, fun _ _ hc => hc, hsub, hpast, hsubMarks⟩
  · rw [hcase] at hsub hsubMarks ⊢
    refine ⟨rfl, rfl, rfl, fun e => ?_, fun e c hc => ?_, hsub, hpast, hsubMarks⟩
    · rcases eq_or_ne e epoch with rfl | he
      · rw [CreatorState.gross, get_set_self, gross_of_get hget]
        rfl
      · rw [CreatorState.gross, get_set_of_ne _ he]
        rfl
    · rcases eq_or_ne e epoch with rfl | he
      · rw [CreatorState.cursor, get_set_self] at hc
        cases hc
      · rw [CreatorState.cursor, get_set_of_ne _ he] at hc
        exact hc

theorem processCreatorPruning_books (hs : WellPlaced s)
    (h : processCreatorPruning p s = .ok s') : BooksPruned s s' := by
  have hrefl : BooksPruned s s :=
    ⟨rfl, rfl, rfl, fun _ => rfl, fun _ _ hc => hc, fun _ _ hv => hv, fun _ hne => absurd rfl hne,
      fun _ hk => hk⟩
  refine (prune_induction (P := fun s₁ => WellPlaced s₁ ∧ BooksPruned s s₁) ?_ h ⟨hs, hrefl⟩).2
  rintro s₁ epoch budget hin hpos ⟨hs₁, hbooks⟩
  have hstep : CreatorStep 0 s₁ (pruneEpochDetails s₁ epoch budget).1 := .work (.prune hin hpos)
  exact ⟨hs₁.step hstep, hbooks.trans (pruneEpochDetails_books hs₁ hin)⟩

/-! ## 4. Recording and withdrawing -/

/-- The key of an engagement without its epoch. -/
def recordKey (actor : Addr) (kind : ℕ) (target : Hash) : RecordKey :=
  toLex (actor, toLex (kind, target))

variable {value : Option Hash}

/-- Writing an epoch's record changes its own count. -/
theorem gross_setEpoch (h : s'.epochs = s.epochs.set epoch ce) :
    s'.gross = update s.gross epoch ce.grossRecords := by
  funext e
  rcases eq_or_ne e epoch with rfl | hne
  · rw [update_self, CreatorState.gross, h, get_set_self]
    rfl
  · rw [update_of_ne hne, CreatorState.gross, h, get_set_of_ne _ hne]
    rfl

theorem recordKey_eq_iff {k : RecordKey} :
    k = recordKey actor kind target ↔ k.actor = actor ∧ k.kind = kind ∧ k.target = target := by
  constructor
  · rintro rfl
    exact ⟨rfl, rfl, rfl⟩
  · rintro ⟨rfl, rfl, rfl⟩
    rfl

theorem pair_ne_of_kind {k : RecordKey} (hk : k ≠ recordKey actor kind target)
    (hkind : k.kind = kind) : toLex (k.actor, k.target) ≠ toLex (actor, target) := by
  intro heq
  obtain ⟨hactor, htarget⟩ := Prod.mk.inj (toLex.injective heq)
  exact hk (recordKey_eq_iff.mpr ⟨hactor, hkind, htarget⟩)

theorem reserved_upvotes {ur : OrderedMap (Addr ×ₗ Hash) ℤ}
    (hother : ∀ k ≠ toLex (actor, target), ur.get k = s.upvoteReserved.get k) :
    { s with upvoteReserved := ur }.reserved =
      update s.reserved (recordKey actor engagementKindUpvote target)
        ((ur.get (toLex (actor, target))).map fun e => (e, none)) := by
  refine eq_update_iff.mpr ⟨rfl, fun k hk => ?_⟩
  unfold CreatorState.reserved
  split
  · next hkind => rw [hother _ (pair_ne_of_kind hk hkind)]
  · rfl

theorem reserved_replies {rr : OrderedMap (Addr ×ₗ Hash) (ℤ × Hash)}
    (hother : ∀ k ≠ toLex (actor, target), rr.get k = s.replyReserved.get k) :
    { s with replyReserved := rr }.reserved =
      update s.reserved (recordKey actor engagementKindDirectReply target)
        ((rr.get (toLex (actor, target))).map fun r => (r.1, some r.2)) := by
  refine eq_update_iff.mpr ⟨rfl, fun k hk => ?_⟩
  unfold CreatorState.reserved
  split
  · rfl
  · split
    · next hkind => rw [hother _ (pair_ne_of_kind hk hkind)]
    · rfl

/-- The part of the store that engagements are recorded in. -/
structure EngagementBooks where
  register : Register RecordKey (Option Hash)
  cursor : ℤ → Option EngagementKey
  marks : OrderedMap EngagementKey Unit

def CreatorState.books (s : CreatorState) : EngagementBooks :=
  ⟨s.register, s.cursor, s.validMarks⟩

/-- What an operation other than pruning can do to the books. -/
inductive BookMove (b b' : EngagementBooks) : Prop
  | kept : b.register.period ≤ b'.register.period →
      b'.register = { b.register with period := b'.register.period } →
      (∀ e c, b'.cursor e = some c → b.cursor e = some c ∨ c.epoch = e) →
      (∀ k, b'.marks.has k = true → b.marks.has k = true ∨
        ∃ v, (b.register.filed k.epoch).get k.record = some v ∧
          k.epoch < b'.register.period) → BookMove b b'
  | filed (k : RecordKey) (v : Option Hash) : b.register.reserved k = none →
      b'.register = b.register.file k v → b'.cursor = b.cursor → b'.marks = b.marks → BookMove b b'
  | withdrawn (k : RecordKey) (v : Option Hash) :
      b.register.reserved k = some (b.register.period, v) →
      b'.register = b.register.withdraw k → b'.cursor = b.cursor → b'.marks = b.marks →
      BookMove b b'

theorem BooksKept.move (h : BooksKept s s') : BookMove s.books s'.books := by
  have hreserved : s'.reserved = s.reserved := by
    funext k
    rw [CreatorState.reserved, h.upvotes, h.replies]
    rfl
  refine .kept h.clock ?_ h.cursor fun k hk => ?_
  · refine Register.ext rfl ?_ hreserved (funext h.gross)
    exact congrArg OrderedMap.slice h.engagements
  · rcases h.marks k hk with hk | ⟨v, hv, hlt⟩
    · exact .inl hk
    · refine .inr ⟨v, ?_, hlt⟩
      show (s.engagements.slice k.epoch).get k.record = some v
      rw [get_slice]
      exact hv

theorem BookMove.refl (b : EngagementBooks) : BookMove b b :=
  .kept le_rfl rfl (fun _ _ hc => .inl hc) fun _ hk => .inl hk

theorem cursor_setEpoch (h : s'.epochs = s.epochs.set epoch ce)
    (hcursor : ce.settlementCursor = s.cursor epoch) : s'.cursor = s.cursor := by
  funext e
  rcases eq_or_ne e epoch with rfl | hne
  · rw [← hcursor, CreatorState.cursor, h, get_set_self]
    rfl
  · rw [CreatorState.cursor, h, get_set_of_ne _ hne]
    rfl

/-- Recording files the engagement under the current epoch. -/
theorem engage_move {reserve : CreatorState → CreatorState} (ur : OrderedMap (Addr ×ₗ Hash) ℤ)
    (rr : OrderedMap (Addr ×ₗ Hash) (ℤ × Hash))
    (h : recordEngagement p paid s actor kind target value reserve = .ok s')
    (hreserve : ∀ openIdx, reserve { s with openIdx := openIdx } =
      { s with openIdx := openIdx, upvoteReserved := ur, replyReserved := rr })
    (hfree : s.reserved (recordKey actor kind target) = none)
    (hres : { s with upvoteReserved := ur, replyReserved := rr }.reserved =
      update s.reserved (recordKey actor kind target) (some (s.clock, value))) :
    BookMove s.books s'.books := by
  rcases recordEngagement_cases h with rfl | ⟨post, ce, s₁, -, -, hce, rfl, hdone⟩
  · exact .refl _
  rcases hdone with ⟨-, rfl⟩ | ⟨-, rfl⟩
  · exact .refl s.books
  · rw [hreserve]
    obtain ⟨hgross, hcursor⟩ := getOrNewEpoch_books hce
    refine .filed (recordKey actor kind target) value hfree ?_ (cursor_setEpoch rfl hcursor) rfl
    refine Register.ext rfl ?_ hres ?_
    · exact s.engagements.slice_set s.clock (recordKey actor kind target) value
    · exact (gross_setEpoch rfl).trans (congrArg (update s.gross s.clock)
        (congrArg Nat.succ hgross))

/-- Withdrawing takes the engagement back, and cannot underflow. -/
theorem withdraw_move {dropped : Set ℤ} (ur : OrderedMap (Addr ×ₗ Hash) ℤ)
    (rr : OrderedMap (Addr ×ₗ Hash) (ℤ × Hash)) (hbooks : Consistent dropped s.register)
    (hreserved : s.reserved (recordKey actor kind target) = some (s.clock, value))
    (hres : { s with upvoteReserved := ur, replyReserved := rr }.reserved =
      update s.reserved (recordKey actor kind target) none) :
    ∃ s', removeEngagement { s with upvoteReserved := ur, replyReserved := rr } actor kind target =
        .ok s' ∧ BookMove s.books s'.books := by
  have hpos : 0 < s.gross s.clock := hbooks.count_pos hreserved
  cases hget : s.epochs.get s.clock with
  | none =>
    rw [CreatorState.gross, hget] at hpos
    cases hpos
  | some ce =>
    have hgross := gross_of_get hget
    rw [hgross] at hpos
    have hremove : removeEngagement { s with upvoteReserved := ur, replyReserved := rr } actor kind
        target = .ok { s with
          upvoteReserved := ur
          replyReserved := rr
          engagements := s.engagements.erase (keyEngagement s.clock actor kind target)
          epochs := s.epochs.set s.clock { ce with grossRecords := ce.grossRecords - 1 } } := by
      simp only [removeEngagement, hget, failIf_of_not _ hpos.ne', ok_bind]
      rfl
    refine ⟨_, hremove, .withdrawn (recordKey actor kind target) value hreserved ?_
      (cursor_setEpoch rfl (cursor_of_get hget).symm) rfl⟩
    refine Register.ext rfl ?_ hres ?_
    · exact s.engagements.slice_erase s.clock (recordKey actor kind target)
    · exact (gross_setEpoch rfl).trans (congrArg (update s.gross s.clock)
        (congrArg (· - 1) hgross.symm))

/-! ## 5. The operations on engagements -/

section Operations

variable {dropped : Set ℤ} {s : CreatorState}

theorem clearOpenUpvote_move (hbooks : Consistent dropped s.register) (voter : Addr)
    (target : Hash) :
    ∃ s', clearOpenUpvote s voter target = .ok s' ∧ BookMove s.books s'.books := by
  unfold clearOpenUpvote
  split
  · exact ⟨s, rfl, .refl _⟩
  · next stored hstored =>
    split
    · exact ⟨s, rfl, .refl _⟩
    · next hcurrent =>
      obtain rfl := not_not.mp hcurrent
      have hreserved : s.reserved (recordKey voter engagementKindUpvote target) =
          some (s.clock, none) := by
        show (s.upvoteReserved.get (toLex (voter, target))).map _ = _
        rw [hstored]
        rfl
      refine withdraw_move _ s.replyReserved hbooks hreserved ?_
      refine (reserved_upvotes fun k hk => get_erase_of_ne hk).trans ?_
      rw [get_erase_self]
      rfl

theorem clearOpenDirectReply_move (hbooks : Consistent dropped s.register) (author : Addr)
    (parent source : Hash) :
    ∃ s', clearOpenDirectReply s author parent source = .ok s' ∧ BookMove s.books s'.books := by
  unfold clearOpenDirectReply
  split
  · exact ⟨s, rfl, .refl _⟩
  · next stored hstored =>
    split
    · exact ⟨s, rfl, .refl _⟩
    · next hcurrent =>
      split
      · exact ⟨s, rfl, .refl _⟩
      · have hreserved : s.reserved (recordKey author engagementKindDirectReply parent) =
            some (s.clock, some stored.2) := by
          show (s.replyReserved.get (toLex (author, parent))).map _ = _
          rw [hstored, ← not_not.mp hcurrent]
          rfl
        refine withdraw_move s.upvoteReserved _ hbooks hreserved ?_
        refine (reserved_replies fun k hk => get_erase_of_ne hk).trans ?_
        rw [get_erase_self]
        rfl

theorem recordUpvoteEngagement_move {voter : Addr} {direction : ℤ}
    (hbooks : Consistent dropped s.register)
    (h : recordUpvoteEngagement p paid s voter target direction = .ok s') :
    BookMove s.books s'.books := by
  unfold recordUpvoteEngagement at h
  simp only at h
  split at h
  · obtain ⟨s₁, hclear, hmove⟩ := @clearOpenUpvote_move dropped
      { s with voteDirs := s.voteDirs.set (toLex (voter, target)) direction } hbooks voter target
    rw [hclear] at h
    cases h
    exact hmove
  · split at h
    · cases h
      exact .refl s.books
    · next hnot =>
      have hfree : s.reserved (recordKey voter engagementKindUpvote target) = none := by
        show (s.upvoteReserved.get (toLex (voter, target))).map _ = none
        rw [OrderedMap.has, Bool.not_eq_true, Option.isSome_eq_false_iff, Option.isNone_iff_eq_none]
          at hnot
        rw [hnot]
        rfl
      have hmove := engage_move (s.upvoteReserved.set (toLex (voter, target)) s.clock)
        s.replyReserved h (fun _ => rfl) hfree (by
          refine (reserved_upvotes fun k hk => get_set_of_ne _ hk).trans ?_
          rw [get_set_self]
          rfl)
      exact hmove

theorem recordDirectReplyEngagement_move {p : Params} {paid : Bool} {s' : CreatorState}
    {commenter : Addr} {parent source : Hash}
    (h : recordDirectReplyEngagement p paid s commenter parent source = .ok s') :
    BookMove s.books s'.books := by
  unfold recordDirectReplyEngagement at h
  split at h
  · cases h
    exact .refl s.books
  · next hnot =>
    have hfree : s.reserved (recordKey commenter engagementKindDirectReply parent) = none := by
      show (s.replyReserved.get (toLex (commenter, parent))).map _ = none
      rw [OrderedMap.has, Bool.not_eq_true, Option.isSome_eq_false_iff, Option.isNone_iff_eq_none]
        at hnot
      rw [hnot]
      rfl
    refine engage_move s.upvoteReserved
      (s.replyReserved.set (toLex (commenter, parent)) (s.clock, source)) h (fun _ => rfl) hfree ?_
    refine (reserved_replies fun k hk => get_set_of_ne _ hk).trans ?_
    rw [get_set_self]
    rfl

theorem post_move {owner : Addr} {hash : Hash} {target : Option Hash} {community : Slug}
    (h : post p paid s owner hash target community = .ok s') : BookMove s.books s'.books := by
  unfold post at h
  split at h
  · cases h
    exact .refl s.books
  · split at h
    · cases h
    · split at h
      · cases h
      · have hmove := recordDirectReplyEngagement_move h
        exact hmove

theorem deletePost_move {height : ℤ} {s' : CreatorState} {owner : Addr} {byGovernance : Bool}
    {target : Hash} (hbooks : Consistent dropped s.register)
    (h : deletePost height s owner byGovernance target = .ok s') : BookMove s.books s'.books := by
  unfold deletePost at h
  split at h
  · cases h
    exact .refl s.books
  · next post hpost =>
    simp only [bind_eq_ok, failIf_eq_ok, exists_const] at h
    obtain ⟨-, h⟩ := h
    split at h
    · cases h
      exact .refl s.books
    · next parent hparent =>
      obtain ⟨s₁, hclear, hmove⟩ := @clearOpenDirectReply_move dropped
        { s with
          posts := s.posts.set target
            { post with deletedHeight := height, deletedEpoch := s.clock } } hbooks post.author
        parent target
      rw [hclear] at h
      cases h
      exact hmove

end Operations

/-! ## 6. Record counts do not underflow -/

section Underflow

/-- The error of a record count that is lowered below zero. -/
def Underflows (err : CoreError) : Prop := err = .grossRecordsUnderflow

theorem Underflows.ofRecords (err : CoreError) (h : Underflows err) : err.OfRecords := by
  rw [h]
  rfl

variable {dropped : Set ℤ} {s : CreatorState}

theorem recordUpvoteEngagement_avoids (hbooks : Consistent dropped s.register) (p : Params)
    (paid : Bool) (voter : Addr) (target : Hash) (direction : ℤ) :
    Avoids Underflows (recordUpvoteEngagement p paid s voter target direction) := by
  unfold recordUpvoteEngagement
  simp only
  split
  · obtain ⟨s', hclear, -⟩ := @clearOpenUpvote_move dropped
      { s with voteDirs := s.voteDirs.set (toLex (voter, target)) direction } hbooks voter target
    rw [hclear]
    exact .ok s'
  · split
    · exact .ok _
    · exact recordEngagement_avoids Underflows.ofRecords _ _ _ _ _ _ _ _

theorem recordDirectReplyEngagement_avoids (p : Params) (paid : Bool) (s : CreatorState)
    (commenter : Addr) (parent source : Hash) :
    Avoids Underflows (recordDirectReplyEngagement p paid s commenter parent source) := by
  unfold recordDirectReplyEngagement
  split
  · exact .ok _
  · exact recordEngagement_avoids Underflows.ofRecords _ _ _ _ _ _ _ _

theorem post_avoids (p : Params) (paid : Bool) (s : CreatorState) (owner : Addr) (hash : Hash)
    (target : Option Hash) (community : Slug) :
    Avoids Underflows (post p paid s owner hash target community) := by
  unfold post
  split
  · exact .ok _
  · split
    · exact .error nofun
    · split
      · exact .error nofun
      · exact recordDirectReplyEngagement_avoids _ _ _ _ _ _

theorem deletePost_avoids (hbooks : Consistent dropped s.register) (height : ℤ) (owner : Addr)
    (byGovernance : Bool) (target : Hash) :
    Avoids Underflows (deletePost height s owner byGovernance target) := by
  unfold deletePost
  split
  · exact .ok _
  · next post hpost =>
    refine (Avoids.failIf nofun).bind fun _ _ => ?_
    simp only
    split
    · exact .ok _
    · next parent hparent =>
      obtain ⟨s', hclear, -⟩ := @clearOpenDirectReply_move dropped
        { s with
          posts := s.posts.set target
            { post with deletedHeight := height, deletedEpoch := s.clock } } hbooks post.author
        parent target
      rw [hclear]
      exact .ok s'

end Underflow

/-! ## 7. Runs -/

/-- What happened to engagement records in a run: the epochs some of whose records
were pruned, and the records that were ever marked as valid. -/
structure EngagementHistory where
  pruned : Set ℤ
  counted : Set EngagementKey

/-- The epochs whose records an operation prunes. -/
def CreatorOp.prunes (s s' : CreatorState) : CreatorOp → Set ℤ
  | prune _ => {e | s'.engagements.slice e ≠ s.engagements.slice e}
  | _ => ∅

/-- The states that operations lead to, with the history of the engagements. -/
inductive EngagementRun (s₀ : CreatorState) (t₀ : ℤ) :
    CreatorState → ℤ → EngagementHistory → Prop
  | start : EngagementRun s₀ t₀ s₀ t₀ ⟨∅, ∅⟩
  | step {s s' : CreatorState} {t : ℤ} {h : EngagementHistory} (ctx : BlockCtx) (op : CreatorOp) :
      EngagementRun s₀ t₀ s t h → t ≤ ctx.time → op.Admissible ctx.time s → op.exec ctx s = .ok s' →
      EngagementRun s₀ t₀ s' ctx.time
        ⟨h.pruned ∪ op.prunes s s', h.counted ∪ {k | s'.validMarks.has k = true}⟩

/-- The books are consistent with their history. -/
structure Recorded (b : EngagementBooks) (h : EngagementHistory) : Prop where
  register : Consistent h.pruned b.register
  cursor : ∀ e c, b.cursor e = some c → c.epoch = e
  marks : ∀ k, b.marks.has k = true → k ∈ h.counted
  counted : ∀ k ∈ h.counted,
    k.epoch < b.register.period ∧ ∃ v, b.register.reserved k.record = some (k.epoch, v)

variable {h : EngagementHistory}

/-- Marks that were already there leave the history as it is. -/
theorem Recorded.sameMarks {b b' : EngagementBooks} (hb : Recorded b h)
    (hreg : Consistent h.pruned b'.register) (hcursor : b'.cursor = b.cursor)
    (hmarks : b'.marks = b.marks) (hperiod : b'.register.period = b.register.period)
    (hres : ∀ k ∈ h.counted, b'.register.reserved k.record = b.register.reserved k.record) :
    Recorded b' ⟨h.pruned, h.counted ∪ {k | b'.marks.has k = true}⟩ where
  register := hreg
  cursor := hcursor ▸ hb.cursor
  marks := fun k hk => .inr hk
  counted := fun k hk => by
    have hold : k ∈ h.counted := hk.elim id fun hmark => hb.marks k (hmarks ▸ hmark)
    rw [hperiod, hres k hold]
    exact hb.counted k hold

theorem Recorded.move {b b' : EngagementBooks} (hb : Recorded b h)
    (hmove : BookMove b b') : Recorded b' ⟨h.pruned, h.counted ∪ {k | b'.marks.has k = true}⟩ := by
  cases hmove with
  | kept hle hreg hcursor hmarks =>
    have hres : b'.register.reserved = b.register.reserved := by rw [hreg]
    refine ⟨hreg ▸ hb.register.advance hle, fun e c hc => ?_, fun k hk => .inr hk,
      fun k hk => ?_⟩
    · exact (hcursor e c hc).elim (hb.cursor e c) id
    · -- a new mark is that of a filed record
      have hcase : k ∈ h.counted ∨ ∃ v, (b.register.filed k.epoch).get k.record = some v ∧
          k.epoch < b'.register.period := by
        rcases hk with hk | hk
        · exact .inl hk
        · exact (hmarks k hk).imp_left (hb.marks k)
      rw [hres]
      rcases hcase with hk | ⟨v, hv, hlt⟩
      · obtain ⟨hlt, hv⟩ := hb.counted k hk
        exact ⟨hlt.trans_le hle, hv⟩
      · exact ⟨hlt, v, hb.register.names _ _ v hv⟩
  | filed k v hfree hreg hcursor hmarks =>
    refine hb.sameMarks (hreg ▸ hb.register.file v hfree) hcursor hmarks (by rw [hreg]; rfl)
      fun k' hk' => ?_
    obtain ⟨-, v', hv'⟩ := hb.counted k' hk'
    have hne : k'.record ≠ k := by
      rintro rfl
      rw [hv'] at hfree
      cases hfree
    rw [hreg]
    exact update_of_ne hne _ _
  | withdrawn k v hres hreg hcursor hmarks =>
    refine hb.sameMarks (hreg ▸ hb.register.withdraw hres) hcursor hmarks (by rw [hreg]; rfl)
      fun k' hk' => ?_
    obtain ⟨hlt, v', hv'⟩ := hb.counted k' hk'
    have hne : k'.record ≠ k := by
      rintro rfl
      rw [hv'] at hres
      exact hlt.ne (congrArg Prod.fst (Option.some.inj hres))
    rw [hreg]
    exact update_of_ne hne _ _

theorem Recorded.prune {s s' : CreatorState} {h : EngagementHistory} (hb : Recorded s.books h)
    (hprune : BooksPruned s s') :
    Recorded s'.books ⟨h.pruned ∪ {e | s'.engagements.slice e ≠ s.engagements.slice e},
      h.counted ∪ {k | s'.validMarks.has k = true}⟩ := by
  have hreserved : s'.reserved = s.reserved := by
    funext k
    rw [CreatorState.reserved, hprune.upvotes, hprune.replies]
    rfl
  have hregister : s'.register = { s.register with filed := s'.engagements.slice } :=
    Register.ext hprune.clock rfl hreserved (funext hprune.gross)
  have hsub : ∀ e k v, (s'.engagements.slice e).get k = some v →
      (s.engagements.slice e).get k = some v := by
    intro e k v hget
    rw [get_slice] at hget ⊢
    exact hprune.engagements _ v hget
  have hdrop := hb.register.drop hsub hprune.past
  refine ⟨?_, fun e c hc => hb.cursor e c (hprune.cursor e c hc), fun k hk => .inr hk,
    fun k hk => ?_⟩
  · show Consistent _ s'.register
    rw [hregister]
    exact hdrop
  · have hold : k ∈ h.counted := hk.elim id fun hmark => hb.marks k (hprune.marks k hmark)
    show k.epoch < s'.clock ∧ ∃ v, s'.reserved k.record = some (k.epoch, v)
    rw [hprune.clock, hreserved]
    exact hb.counted k hold

/-- A block's settlement leaves the register alone. -/
theorem settlement_books (hs : WellPlaced s) (hcursor : ∀ e c, s.cursor e = some c → c.epoch = e)
    (h : processCreatorSettlement p now s = .ok s') : BooksKept s s' := by
  have hticks : Ticks p now s s' := (settlement_ticks hs.keyed).of_eq_ok h
  suffices WellPlaced s' ∧ BooksKept s s' from this.2
  clear h
  induction hticks with
  | refl => exact ⟨hs, .refl s⟩
  | tail _ htick ih =>
    obtain ⟨hs₁, hbooks⟩ := ih
    have hcase := settleTick_cases htick
    have hcursor₁ := fun e c hc => (hbooks.cursor e c hc).elim (hcursor e c) id
    exact ⟨hs₁.step (.work (.tick hcase)), hbooks.trans (hcase.books hs₁ hcursor₁)⟩

/-- Every operation keeps the books consistent. -/
theorem Recorded.step {ctx : BlockCtx} {s s' : CreatorState} {h : EngagementHistory}
    {op : CreatorOp} (hs : WellPlaced s) (hb : Recorded s.books h)
    (hexec : op.exec ctx s = .ok s') :
    Recorded s'.books ⟨h.pruned ∪ op.prunes s s',
      h.counted ∪ {k | s'.validMarks.has k = true}⟩ := by
  by_cases hop : ∃ p, op = .prune p
  · obtain ⟨p, rfl⟩ := hop
    exact hb.prune (processCreatorPruning_books hs hexec)
  · have hnone : op.prunes s s' = ∅ := by
      cases op <;> first | rfl | exact absurd ⟨_, rfl⟩ hop
    rw [hnone, Set.union_empty]
    refine hb.move ?_
    cases op with
    | transfer bank =>
      cases hexec
      exact .refl s.books
    | fund tr =>
      obtain ⟨_, _, _, rfl⟩ := fundTranche_frame hexec
      exact .refl s.books
    | advance p =>
      simp only [CreatorOp.exec, advanceCreatorClock, bind_eq_ok, failIf_eq_ok, exists_const]
        at hexec
      obtain ⟨target, -, -, hloop⟩ := hexec
      exact (clockLoop_induction (P := BooksKept s)
        (fun _ _ _ _ hmove hbooks => hbooks.trans hmove.books) hloop (.refl s)).move
    | settle p => exact (settlement_books hs hb.cursor hexec).move
    | expire p =>
      exact (foldlM_ok_induction (P := BooksKept s)
        (fun _ _ _ _ hexp hbooks => hbooks.trans (expireClaimableEpoch_books hexp)) hexec
        (.refl s)).move
    | prune p => exact absurd ⟨p, rfl⟩ hop
    | regrid p newSeconds => exact (applyCreatorEpochSeconds_regrid hexec).books.move
    | upvote p paid voter target direction => exact recordUpvoteEngagement_move hb.register hexec
    | reply p paid commenter parent source => exact recordDirectReplyEngagement_move hexec
    | post p paid owner hash target community => exact post_move hexec
    | delete owner byGovernance target => exact deletePost_move hb.register hexec
    | claim p creator epochs => exact (claimCreatorRewards_books hexec).move

/-- A store without engagements. -/
structure Unengaged (s : CreatorState) : Prop where
  placed : WellPlaced s
  engagements : s.engagements = .empty
  upvotes : s.upvoteReserved = .empty
  replies : s.replyReserved = .empty
  marks : s.validMarks = .empty
  record : ∀ e ce, s.epochs.get e = some ce → ce.grossRecords = 0 ∧ ce.settlementCursor = none

theorem Unengaged.booked (h : Unengaged s) : Recorded s.books ⟨∅, ∅⟩ := by
  have hfree : ∀ k, s.reserved k = none := by
    intro k
    rw [CreatorState.reserved, h.upvotes, h.replies]
    split
    · rfl
    · split <;> rfl
  have hnone : ∀ e k, (s.engagements.slice e).get k = none := by
    intro e k
    rw [get_slice, h.engagements]
    rfl
  refine ⟨⟨fun e k v hget => ?_, fun k e v hres => ?_, fun k v hres => ?_, fun e _ => ?_, nofun⟩,
    fun e c hc => ?_, fun k hk => ?_, nofun⟩
  · rw [show s.books.register.filed e = s.engagements.slice e from rfl, hnone] at hget
    cases hget
  · rw [show s.books.register.reserved k = s.reserved k from rfl, hfree] at hres
    cases hres
  · rw [show s.books.register.reserved k = s.reserved k from rfl, hfree] at hres
    cases hres
  · show s.gross e = (s.engagements.slice e).size
    rw [h.engagements]
    cases hget : s.epochs.get e with
    | none =>
      rw [CreatorState.gross, hget]
      rfl
    | some ce =>
      rw [gross_of_get hget, (h.record e ce hget).1]
      rfl
  · obtain ⟨ce, hget, hcur⟩ := Option.bind_eq_some_iff.mp hc
    rw [(h.record e ce hget).2] at hcur
    cases hcur
  · rw [show s.books.marks = s.validMarks from rfl, h.marks] at hk
    cases hk

theorem EngagementRun.booked {s₀ : CreatorState} {t₀ t : ℤ}
    (h₀ : Unengaged s₀) (hrun : EngagementRun s₀ t₀ s t h) : WellPlaced s ∧ Recorded s.books h := by
  induction hrun with
  | start => exact ⟨h₀.placed, h₀.booked⟩
  | step ctx op _ _ hadm hexec ih =>
    obtain ⟨hs, hb⟩ := ih
    exact ⟨hs.steps (op.exec_steps hs.keyed hadm hexec), hb.step hs hexec⟩

/-- In every run an actor's engagement of one kind with one target is recorded at
most once, in the epoch that the reservation names, and counted in at most one epoch,
pruned ones included. Until some of an epoch's records are pruned its record count is
the number of its records, and a withdrawal never finds the count at zero. -/
theorem engagements_recorded_once {s₀ s : CreatorState} {t₀ t : ℤ} {h : EngagementHistory}
    (h₀ : Unengaged s₀) (hrun : EngagementRun s₀ t₀ s t h) :
    (∀ actor kind target e e' v v', s.engagements.get (keyEngagement e actor kind target) = some v →
      s.engagements.get (keyEngagement e' actor kind target) = some v' → e = e') ∧
    (∀ actor kind target e v, s.engagements.get (keyEngagement e actor kind target) = some v →
      kind = engagementKindUpvote ∧ v = none ∧
          s.upvoteReserved.get (toLex (actor, target)) = some e ∨
        kind = engagementKindDirectReply ∧ ∃ source, v = some source ∧
          s.replyReserved.get (toLex (actor, target)) = some (e, source)) ∧
    (∀ e, e ∉ h.pruned → ((s.epochs.get e).map CreatorEpoch.grossRecords).getD 0 =
      (s.engagements.scan fun k => k.epoch = e).length) ∧
    (∀ actor kind target e e', keyEngagement e actor kind target ∈ h.counted →
      keyEngagement e' actor kind target ∈ h.counted → e = e') ∧
    (∀ p paid voter target direction,
      recordUpvoteEngagement p paid s voter target direction ≠ .error .grossRecordsUnderflow) ∧
    (∀ p paid owner hash target community,
      post p paid s owner hash target community ≠ .error .grossRecordsUnderflow) ∧
    ∀ height owner byGovernance target,
      deletePost height s owner byGovernance target ≠ .error .grossRecordsUnderflow := by
  obtain ⟨hs, hb⟩ := hrun.booked h₀
  have hfiled : ∀ actor kind target e v,
      s.engagements.get (keyEngagement e actor kind target) = some v →
      (s.register.filed e).get (recordKey actor kind target) = some v := by
    intro actor kind target e v hget
    show (s.engagements.slice e).get _ = some v
    rw [get_slice]
    exact hget
  refine ⟨fun actor kind target e e' v v' hv hv' => ?_, fun actor kind target e v hv => ?_,
    fun e he => ?_, fun actor kind target e e' he he' => ?_,
    fun p paid voter target direction herr => ?_,
    fun p paid owner hash target community herr => ?_,
    fun height owner byGovernance target herr => ?_⟩
  · exact hb.register.unique (hfiled _ _ _ _ v hv) (hfiled _ _ _ _ v' hv')
  · have hres : s.reserved (recordKey actor kind target) = some (e, v) :=
      hb.register.names e _ v (hfiled _ _ _ _ v hv)
    unfold CreatorState.reserved at hres
    split at hres
    · next hkind =>
      obtain ⟨e', hget, heq⟩ := Option.map_eq_some_iff.mp hres
      cases heq
      exact .inl ⟨hkind, rfl, hget⟩
    · split at hres
      · next hkind =>
        obtain ⟨⟨e', source⟩, hget, heq⟩ := Option.map_eq_some_iff.mp hres
        cases heq
        exact .inr ⟨hkind, source, rfl, hget⟩
      · cases hres
  · exact (hb.register.counted e he).trans (s.engagements.size_slice e)
  · obtain ⟨-, v, hv⟩ := hb.counted _ he
    obtain ⟨-, v', hv'⟩ := hb.counted _ he'
    have heq : s.register.reserved (recordKey actor kind target) = some (e', v') := hv'
    exact congrArg Prod.fst (Option.some.inj (hv.symm.trans heq))
  · exact recordUpvoteEngagement_avoids hb.register p paid voter target direction _ herr rfl
  · exact post_avoids p paid s owner hash target community _ herr rfl
  · exact deletePost_avoids hb.register height owner byGovernance target _ herr rfl

/-- Post 7 of author 9 in epoch 5 of a grid of 300 seconds. -/
def onePost : CreatorState :=
  { CreatorState.empty ⟨.empty, 0, 0⟩ with
    schedule := some ⟨0, 0, 300⟩
    clock := 5
    posts := OrderedMap.empty.set 7 ⟨9, some 3, none, 0, 0⟩ }

theorem onePost_unengaged : Unengaged onePost where
  placed := by
    refine ⟨fun e ce h => ?_, fun e => ⟨fun ce h _ => ?_, fun h => ?_⟩⟩ <;> cases h
  engagements := rfl
  upvotes := rfl
  replies := rfl
  marks := rfl
  record := fun e ce h => by cases h

/-- Subscribers 1 and 2 upvote the post, and subscriber 1 takes the vote back: one record is left,
where its reservation says. -/
theorem engagements_recorded_once_withdrawn : ∃ s h,
    EngagementRun onePost 1500 s 1520 h ∧ 5 ∉ h.pruned ∧
      s.engagements.get (keyEngagement 5 1 engagementKindUpvote 7) = none ∧
      s.engagements.get (keyEngagement 5 2 engagementKindUpvote 7) = some none ∧
      s.upvoteReserved.get (toLex (2, 7)) = some 5 ∧
      (s.engagements.scan fun k => k.epoch = 5).length = 1 ∧
      ((s.epochs.get 5).map CreatorEpoch.grossRecords).getD 0 =
        (s.engagements.scan fun k => k.epoch = 5).length := by
  have hvotes : (do
      let s₁ ← recordUpvoteEngagement defaultParams true onePost 1 7 1
      let s₂ ← recordUpvoteEngagement defaultParams true s₁ 2 7 1
      let s ← recordUpvoteEngagement defaultParams true s₂ 1 7 0
      return (s.engagements.get (keyEngagement 5 1 engagementKindUpvote 7),
        s.engagements.get (keyEngagement 5 2 engagementKindUpvote 7),
        (s.engagements.scan fun k => k.epoch = 5).length)) = Except.ok (none, some none, 1) := by
    decide +kernel
  simp only [bind_eq_ok, pure_eq_ok, Prod.mk.injEq] at hvotes
  obtain ⟨s₁, hfirst, s₂, hsecond, s, hback, hgone, hget, hone⟩ := hvotes
  have hbudget := Params.budgeted_of_validateV139 defaultParams_validateV139
  have hstart : EngagementRun onePost 1500 onePost 1500 ⟨∅, ∅⟩ := .start
  have hvoted := hstart.step ⟨1500, 1, 0⟩ (.upvote defaultParams true 1 7 1) le_rfl hbudget hfirst
  have hboth := hvoted.step ⟨1510, 2, 0⟩ (.upvote defaultParams true 2 7 1) (by decide) hbudget
    hsecond
  have hrun := hboth.step ⟨1520, 3, 0⟩ (.upvote defaultParams true 1 7 0) (by decide) hbudget hback
  obtain ⟨-, hreserved, hcount, -⟩ := engagements_recorded_once onePost_unengaged hrun
  have hkept : (5 : ℤ) ∉ (∅ ∪ ∅ ∪ ∅ ∪ ∅ : Set ℤ) := by simp
  refine ⟨s, _, hrun, hkept, hgone, hget, ?_, hone, hcount 5 hkept⟩
  rcases hreserved 2 engagementKindUpvote 7 5 none hget with ⟨-, -, hup⟩ | ⟨hkind, -⟩
  · exact hup
  · exact absurd hkind (by decide)

end MirageNode
