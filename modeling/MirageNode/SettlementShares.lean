import MirageNode.EpochLife
import MirageNode.SettlementBudget
import MirageNode.CreatorErrors
import MirageNode.Lib.EvenSplit

/-!
# What settlement pays out

The two passes of settlement pay exactly an even split of the pool, twice rounded
down: over the actors with a valid record, and for each actor over that actor's
valid records (`EvenSplit`). Validity is decided once, by the counting pass, and
kept in the marks; so votes, posts and deletions between blocks, and any budgets,
do not change what the allocating pass meets.

The invariant goes through the phases of an epoch. While counting, the stored
counts are the numbers of marks so far (`Counting`). While allocating, what was
paid is what the marks up to the cursor are worth (`Allocating`). At the end it is
what all marks are worth (`Finished`).
-/

namespace MirageNode

open OrderedStore OrderedMap Fallible EvenSplit Finset

/-! ## 1. Counting -/

variable {v v' : EpochView} {ce : CreatorEpoch} {key : EngagementKey} {e now : ℤ}
  {posts : OrderedMap Hash PostMetadata} {s s' : CreatorState} {p : Params}

namespace EpochView

/-- The valid records of one actor. -/
def markedBy (v : EpochView) (a : Addr) : Finset RecordKey :=
  recordsOf v.marks.keys RecordKey.actor a

/-- The actors with a valid record. -/
def engagers (v : EpochView) : Finset Addr := v.marks.keys.image RecordKey.actor

/-- The stored counts agree with the marks, except for an actor whose count is not
stored yet. -/
structure Tally (v : EpochView) (ce : CreatorEpoch) (pending : Option Addr) : Prop where
  units : ∀ a, pending ≠ some a → v.units a = #(v.markedBy a)
  active : ce.activeEngagers = #(pending.elim v.engagers v.engagers.erase)

/-- Nothing has been paid for the epoch. -/
structure Unpaid (v : EpochView) (ce : CreatorEpoch) : Prop where
  targets : v.targets = .empty
  accruals : v.accruals = .empty
  allocated : ce.allocatedTotal = 0

/-- The counting pass up to its cursor. -/
structure Counting (v : EpochView) (ce : CreatorEpoch) : Prop where
  cursor : v.CursorPresent ce
  partialActor : ce.partialActor = ce.settlementCursor.map EngagementKey.actor
  partialCount : ce.partialCount = ce.partialActor.elim 0 fun a => #(v.markedBy a)
  seen : ∀ k ∈ v.marks.keys,
    k ∈ v.engagements.keys ∧ ∃ c, ce.settlementCursor = some c ∧ k ≤ c.record
  tally : v.Tally ce ce.partialActor
  unpaid : v.Unpaid ce
  pool_nonneg : 0 ≤ ce.pool

/-- After a flush all counts are stored. -/
theorem Tally.flush (h : v.Tally ce ce.partialActor)
    (hcount : ce.partialCount = ce.partialActor.elim 0 fun a => #(v.markedBy a)) :
    (v.flush ce).1.Tally (v.flush ce).2 none := by
  unfold EpochView.flush
  cases hactor : ce.partialActor with
  | none =>
    rw [hactor] at h
    exact h
  | some b =>
    rw [hactor] at h hcount
    refine ⟨fun a _ => ?_, ?_⟩
    · show ((v.counts.set b ce.partialCount).get a).getD 0 = #(v.markedBy a)
      rw [get_set]
      split
      · next heq =>
        rw [heq]
        exact hcount
      · next hne => exact h.units a fun heq => hne (Option.some.inj heq).symm
    · show ce.activeEngagers + _ = #v.engagers
      have hsplit : #v.engagers = _ := card_image_eq_erase b
      rw [hsplit, h.active, hcount]
      rfl

/-- The pass has counted no record of an actor that it only now comes to. -/
theorem Counting.markedBy_later (h : v.Counting ce) (hnext : v.Next ce key)
    (hnew : ce.partialActor ≠ some key.actor) : v.markedBy key.actor = ∅ := by
  rw [eq_empty_iff_forall_notMem]
  intro k hk
  obtain ⟨hmark, hactor⟩ := mem_recordsOf.mp hk
  obtain ⟨-, c, hc, hle⟩ := h.seen k hmark
  -- records are visited in the order of their actors
  have hlow : key.record.actor ≤ c.record.actor := hactor.symm.le.trans
    (Prod.Lex.monotone_fst _ _ hle)
  have hhigh : c.record.actor ≤ key.record.actor := Prod.Lex.monotone_fst _ _ (hnext.after c hc).le
  have hsame : c.record.actor = key.record.actor := le_antisymm hhigh hlow
  rw [h.partialActor, hc] at hnew
  exact hnew (congrArg some hsame)

/-- The counts once the pass has come to an actor. -/
theorem Counting.flushFor (h : v.Counting ce) (hnext : v.Next ce key) :
    (v.flushFor ce key.actor).1.Tally (v.flushFor ce key.actor).2 (some key.actor) ∧
      (v.flushFor ce key.actor).2.partialCount = #(v.markedBy key.actor) := by
  unfold EpochView.flushFor
  split
  · next hsame =>
    have htally := h.tally
    have hcount := h.partialCount
    rw [hsame] at htally hcount
    exact ⟨htally, hcount⟩
  · next hnew =>
    have hnone := h.markedBy_later hnext hnew
    have htally := h.tally.flush h.partialCount
    obtain ⟨⟨counts, hv⟩, -⟩ := v.flush_keeps ce
    rw [hnone, card_empty]
    refine ⟨⟨fun a _ => htally.units a nofun, ?_⟩, ?_⟩
    · rw [htally.active, hv]
      show #v.engagers = #(v.engagers.erase key.actor)
      rw [erase_eq_of_notMem]
      intro hmem
      have hpos : 0 < #(v.markedBy key.actor) := mem_image_iff_card_pos.mp hmem
      rw [hnone] at hpos
      exact absurd hpos (lt_irrefl 0)
    · have hcount := h.partialCount
      unfold EpochView.flush
      cases hactor : ce.partialActor with
      | none =>
        rw [hactor] at hcount
        exact hcount
      | some b => rfl

theorem Counting.fresh_mark
    (h : v.Counting ce) (hnext : v.Next ce key) : key.record ∉ v.marks.keys := by
  intro hmark
  obtain ⟨-, c, hc, hle⟩ := h.seen key.record hmark
  exact absurd (hnext.after c hc) (not_lt.mpr hle)

/-- Counting one more record. -/
theorem Counting.counted (h : v.Counting ce) (hnext : v.Next ce key) (valid : Bool) :
    ∃ ce', (v.counted ce key valid).record = some ce' ∧ ce'.status = ce.status ∧
      ce'.phase = ce.phase ∧ (v.counted ce key valid).Counting ce' := by
  obtain ⟨htally, hcount⟩ := h.flushFor hnext
  obtain ⟨⟨counts, hv⟩, active, actor, n, hce⟩ := v.flushFor_keeps ce key.actor
  have hfresh := h.fresh_mark hnext
  unfold EpochView.counted
  simp only [hv, hce] at htally hcount ⊢
  refine ⟨_, rfl, rfl, rfl, ?_⟩
  have hseen : ∀ k ∈ v.marks.keys, k ∈ v.engagements.keys ∧ ∃ c, some key = some c ∧
      k ≤ c.record := by
    intro k hk
    obtain ⟨hin, c, hc, hle⟩ := h.seen k hk
    exact ⟨hin, key, rfl, hle.trans (hnext.after c hc).le⟩
  have hcursor : ∀ c, some key = some c → c.epoch = ce.epochId ∧ c.record ∈ v.engagements.keys := by
    rintro c ⟨⟩
    exact ⟨hnext.epoch, hnext.present⟩
  cases valid with
  | false =>
    have hsame : v.marks.erase key.record = v.marks := by
      refine erase_of_get_none (Option.eq_none_iff_forall_ne_some.mpr fun u hu => ?_)
      exact hfresh (mem_keys.mpr ⟨u, hu⟩)
    simp only [Bool.false_eq_true, if_false, hsame, add_zero]
    exact ⟨hcursor, rfl, hcount, hseen, ⟨htally.units, htally.active⟩,
      ⟨h.unpaid.targets, h.unpaid.accruals, h.unpaid.allocated⟩, h.pool_nonneg⟩
  | true =>
    simp only [if_true]
    have hkeys : (v.marks.set key.record ()).keys = insert key.record v.marks.keys :=
      keys_set _ _ _
    refine ⟨hcursor, rfl, ?_, ?_, ⟨fun a ha => ?_, ?_⟩,
      ⟨h.unpaid.targets, h.unpaid.accruals, h.unpaid.allocated⟩, h.pool_nonneg⟩
    · show n + 1 = #(recordsOf (v.marks.set key.record ()).keys RecordKey.actor key.actor)
      rw [hkeys, hcount]
      exact (card_recordsOf_insert_self hfresh).symm
    · intro k hk
      rw [hkeys, mem_insert] at hk
      rcases hk with rfl | hk
      · exact ⟨hnext.present, key, rfl, le_rfl⟩
      · exact hseen k hk
    · have hne : RecordKey.actor key.record ≠ a := fun heq => ha (congrArg some heq)
      show _ = #(recordsOf (v.marks.set key.record ()).keys RecordKey.actor a)
      rw [hkeys, recordsOf_insert_of_ne hne]
      exact htally.units a ha
    · show active = #(((v.marks.set key.record ()).keys.image RecordKey.actor).erase key.actor)
      rw [hkeys]
      exact htally.active.trans (congrArg card (erase_image_insert key.record v.marks.keys).symm)

/-! ## 2. Allocating -/

/-- What a valid record is worth. -/
def worth (v : EpochView) (ce : CreatorEpoch) (k : RecordKey) : ℤ :=
  unitValue v.marks.keys RecordKey.actor ce.engagerSlice k

/-- The valid records that the allocating pass has behind it. -/
def paidMarks (v : EpochView) (ce : CreatorEpoch) : Finset RecordKey :=
  {k ∈ v.marks.keys | ce.settlementCursor.any fun c => decide (k ≤ c.record)}

/-- The records of `P` have been paid what they are worth, and nothing else has. -/
structure Shared (v : EpochView) (ce : CreatorEpoch) (P : Finset RecordKey) : Prop where
  allocated : ce.allocatedTotal = ∑ k ∈ P, v.worth ce k
  target : ∀ t, v.earned t = ∑ k ∈ P with k.target = t, v.worth ce k
  targets : v.targets.sum (fun _ te => te.amount) = ce.allocatedTotal
  accruals : v.accruals.sum (fun _ acc => acc.amount) = ce.allocatedTotal

/-- The split that the allocating pass follows. -/
structure Sliced (v : EpochView) (ce : CreatorEpoch) : Prop where
  tally : v.Tally ce none
  slice : ce.engagerSlice = ce.pool / #v.engagers
  pool_nonneg : 0 ≤ ce.pool

/-- The allocating pass up to its cursor. -/
structure Allocating (v : EpochView) (ce : CreatorEpoch) : Prop where
  cursor : v.CursorPresent ce
  recorded : v.marks.keys ⊆ v.engagements.keys
  sliced : v.Sliced ce
  shared : v.Shared ce (v.paidMarks ce)

/-- The end of the allocating pass. -/
structure Finished (v : EpochView) (ce : CreatorEpoch) : Prop where
  sliced : v.Sliced ce
  shared : v.Shared ce v.marks.keys

theorem Sliced.slice_nonneg (h : v.Sliced ce) : 0 ≤ ce.engagerSlice := by
  rw [h.slice]
  exact Int.ediv_nonneg h.pool_nonneg (Int.natCast_nonneg _)

theorem Sliced.worth_nonneg (h : v.Sliced ce) (k : RecordKey) : 0 ≤ v.worth ce k :=
  unitValue_nonneg h.slice_nonneg k

/-- The pass pays a record what it is worth. -/
theorem Sliced.gain_eq (h : v.Sliced ce) (k : RecordKey) : v.gain ce k = v.worth ce k := by
  have hunits : v.units k.actor = #(v.markedBy k.actor) := h.tally.units k.actor nofun
  have hdiv : ce.engagerSlice.tdiv (v.units k.actor) = v.worth ce k := by
    rw [hunits, Int.tdiv_eq_ediv_of_nonneg h.slice_nonneg]
    rfl
  have hnonneg := h.worth_nonneg k
  unfold gain
  rw [hdiv]
  split <;> omega

variable {P : Finset RecordKey}

/-- What has been paid never exceeds the pool. -/
theorem Sliced.allocated_le (h : v.Sliced ce) (hshared : v.Shared ce P) (hP : P ⊆ v.marks.keys) :
    ce.allocatedTotal ≤ ce.pool := by
  have hsum : ∑ k ∈ P, unitValue v.marks.keys RecordKey.actor (ce.pool / #v.engagers) k ≤ ce.pool :=
    sum_unitValue_le h.pool_nonneg hP
  rw [hshared.allocated]
  simp only [worth, h.slice]
  exact hsum

theorem mem_paidMarks {k : RecordKey} :
    k ∈ v.paidMarks ce ↔
      k ∈ v.marks.keys ∧ ∃ c, ce.settlementCursor = some c ∧ k ≤ c.record := by
  simp only [paidMarks, mem_filter, Option.any_eq_true, decide_eq_true_eq]

/-- A record is behind the next cursor if it was behind the old one or is the
record the pass comes to. -/
theorem paidMarks_next (hrecorded : v.marks.keys ⊆ v.engagements.keys) (hnext : v.Next ce key) :
    v.paidMarks { ce with settlementCursor := some key } =
      if key.record ∈ v.marks.keys then insert key.record (v.paidMarks ce) else v.paidMarks ce := by
  have hstep : ∀ k ∈ v.marks.keys, k ≤ key.record ↔
      k = key.record ∨ ∃ c, ce.settlementCursor = some c ∧ k ≤ c.record := by
    intro k hk
    constructor
    · intro hle
      by_contra hnot
      obtain ⟨hne, hbehind⟩ := not_or.mp hnot
      refine hne (le_antisymm hle (hnext.first k (hrecorded hk) fun c hc => ?_))
      exact not_le.mp fun hle' => hbehind ⟨c, hc, hle'⟩
    · rintro (rfl | ⟨c, hc, hle⟩)
      · exact le_rfl
      · exact hle.trans (hnext.after c hc).le
  ext k
  have hleft : k ∈ v.paidMarks { ce with settlementCursor := some key } ↔
      k ∈ v.marks.keys ∧ k ≤ key.record := by
    simp only [paidMarks, mem_filter, Option.any_some, decide_eq_true_eq]
  rw [hleft]
  split
  · next hkey =>
    rw [mem_insert, mem_paidMarks]
    constructor
    · rintro ⟨hk, hle⟩
      exact ((hstep k hk).mp hle).imp_right fun hbehind => ⟨hk, hbehind⟩
    · rintro (rfl | ⟨hk, hbehind⟩)
      · exact ⟨hkey, le_rfl⟩
      · exact ⟨hk, (hstep k hk).mpr (.inr hbehind)⟩
  · next hkey =>
    rw [mem_paidMarks]
    constructor
    · rintro ⟨hk, hle⟩
      refine ⟨hk, ((hstep k hk).mp hle).resolve_left ?_⟩
      rintro rfl
      exact hkey hk
    · rintro ⟨hk, hbehind⟩
      exact ⟨hk, (hstep k hk).mpr (.inr hbehind)⟩

theorem earned_set (v : EpochView) (t t' : Hash) (te : TargetEarning) :
    { v with targets := v.targets.set t te }.earned t' =
      if t' = t then te.amount else v.earned t' := by
  simp only [earned, get_set]
  split <;> rfl

theorem sum_targets_set (v : EpochView) (t : Hash) (te : TargetEarning) {gain : ℤ}
    (hte : te.amount = v.earned t + gain) :
    (v.targets.set t te).sum (fun _ te => te.amount) =
      v.targets.sum (fun _ te => te.amount) + gain := by
  have hset := v.targets.sum_set_add t te (fun _ te => te.amount)
  have hearned : ((v.targets.get t).map TargetEarning.amount).getD 0 = v.earned t := rfl
  rw [hearned] at hset
  linarith

variable {ce' : CreatorEpoch}

/-- Paying one more record. -/
theorem Shared.insert {k : RecordKey} {creator : Addr} {te : TargetEarning} (h : v.Shared ce P)
    (hk : k ∉ P) (hgain : 0 ≤ v.worth ce k) (hte : te.amount = v.earned k.target + v.worth ce k)
    (hmarks : v'.marks = v.marks) (hslice : ce'.engagerSlice = ce.engagerSlice)
    (halloc : ce'.allocatedTotal = ce.allocatedTotal + v.worth ce k)
    (htargets : v'.targets = v.targets.set k.target te)
    (haccruals : v'.accruals = v.accrue e creator (v.worth ce k)) : v'.Shared ce' (insert k P) := by
  have hworth : ∀ k', v'.worth ce' k' = v.worth ce k' := by
    intro k'
    rw [worth, worth, hmarks, hslice]
  refine ⟨?_, fun t => ?_, ?_, ?_⟩
  · rw [sum_insert hk, halloc, h.allocated, add_comm]
    simp only [hworth]
  · have hearned : v'.earned t = { v with targets := v.targets.set k.target te }.earned t := by
      simp only [earned, htargets]
    rw [hearned, earned_set, filter_insert]
    simp only [hworth]
    split
    · next heq =>
      subst heq
      rw [if_pos rfl, sum_insert fun hmem => hk (mem_filter.mp hmem).1, hte, h.target, add_comm]
    · next hne => rw [if_neg (Ne.symm hne), h.target]
  · rw [htargets, sum_targets_set v _ te hte, h.targets, halloc]
  · rw [haccruals, sum_accrue v e creator hgain, h.accruals, halloc]

theorem Shared.congr (h : v.Shared ce P) (hmarks : v'.marks = v.marks)
    (hslice : ce'.engagerSlice = ce.engagerSlice) (halloc : ce'.allocatedTotal = ce.allocatedTotal)
    (htargets : v'.targets = v.targets)
    (haccruals : v'.accruals.sum (fun _ acc => acc.amount) =
      v.accruals.sum (fun _ acc => acc.amount)) : v'.Shared ce' P := by
  have hworth : ∀ k, v'.worth ce' k = v.worth ce k := by
    intro k
    rw [worth, worth, hmarks, hslice]
  refine ⟨?_, fun t => ?_, ?_, ?_⟩
  · simp only [halloc, hworth, h.allocated]
  · have hearned : v'.earned t = v.earned t := by rw [earned, earned, htargets]
    simp only [hearned, hworth, h.target]
  · rw [htargets, h.targets, halloc]
  · rw [haccruals, h.accruals, halloc]

/-! ## 3. The phases of an epoch -/

/-- The details of an epoch that was not settled yet. -/
structure Blank (v : EpochView) : Prop where
  marks : v.marks = .empty
  counts : v.counts = .empty
  targets : v.targets = .empty
  accruals : v.accruals = .empty

/-- What holds of an epoch's details in each phase. -/
def Settles (v : EpochView) : Prop :=
  match v.record with
  | none => v.Blank
  | some ce =>
    match ce.status with
    | .opened => v.Blank ∧ ce.activeEngagers = 0 ∧ ce.allocatedTotal = 0 ∧ 0 ≤ ce.pool
    | .counting => ce.phase = .count ∧ v.Counting ce
    | .allocating => ce.phase = .allocate ∧ v.Allocating ce
    | .claimable => v.Finished ce
    | .expired => ce.phase = .allocate → v.Finished ce

theorem Settles.opened (h : v.Settles) (hget : v.record = some ce) (hst : ce.status = .opened) :
    v.Blank ∧ ce.activeEngagers = 0 ∧ ce.allocatedTotal = 0 ∧ 0 ≤ ce.pool := by
  simpa only [Settles, hget, hst] using h

theorem Settles.counting (h : v.Settles) (hget : v.record = some ce) (hst : ce.status = .counting) :
    ce.phase = .count ∧ v.Counting ce := by
  simpa only [Settles, hget, hst] using h

theorem Settles.allocating (h : v.Settles) (hget : v.record = some ce)
    (hst : ce.status = .allocating) : ce.phase = .allocate ∧ v.Allocating ce := by
  simpa only [Settles, hget, hst] using h

theorem Settles.claimable (h : v.Settles)
    (hget : v.record = some ce) (hst : ce.status = .claimable) : v.Finished ce := by
  simpa only [Settles, hget, hst] using h

theorem Settles.of_allocating (hget : v.record = some ce) (hst : ce.status = .allocating)
    (hph : ce.phase = .allocate) (h : v.Allocating ce) : v.Settles := by
  simp only [Settles, hget, hst]
  exact ⟨hph, h⟩

theorem Settles.of_claimable (hget : v.record = some ce)
    (hst : ce.status = .claimable) (h : v.Finished ce) : v.Settles := by
  simp only [Settles, hget, hst]
  exact h

/-- A closed epoch starts to be counted with nothing counted. -/
theorem Blank.counting (h : v.Blank)
    (hcursor : ce.settlementCursor = none) (hactor : ce.partialActor = none)
    (hcount : ce.partialCount = 0) (hactive : ce.activeEngagers = 0)
    (halloc : ce.allocatedTotal = 0) (hpool : 0 ≤ ce.pool) : v.Counting ce := by
  refine ⟨?_, ?_, ?_, ?_, ⟨fun a _ => ?_, ?_⟩, ⟨h.targets, h.accruals, halloc⟩, hpool⟩
  · intro c hc
    rw [hcursor] at hc
    cases hc
  · rw [hactor, hcursor]
    rfl
  · rw [hactor]
    exact hcount
  · intro k hk
    rw [h.marks] at hk
    exact absurd hk (notMem_empty k)
  · rw [units, h.counts, markedBy, h.marks]
    rfl
  · rw [hactor, engagers, h.marks]
    exact hactive

/-- The end of the counting pass with an active actor. -/
theorem Counting.countDone {v : EpochView} {ce : CreatorEpoch} (h : v.Counting ce) :
    { (v.flush ce).1 with record := some (v.flush ce).2.allocating }.Allocating
      (v.flush ce).2.allocating := by
  have htally := h.tally.flush h.partialCount
  obtain ⟨⟨counts, hv⟩, active, actor, n, hce⟩ := v.flush_keeps ce
  rw [hv, hce] at htally ⊢
  refine ⟨nofun, fun k hk => (h.seen k hk).1,
    ⟨⟨htally.units, htally.active⟩, ?_, h.pool_nonneg⟩, ?_⟩
  · have hactive : active = #v.engagers := htally.active
    show ce.pool.tdiv active = ce.pool / #v.engagers
    rw [Int.tdiv_eq_ediv_of_nonneg h.pool_nonneg, hactive]
  · -- nothing is behind a cursor that is not set
    have hnone : ∀ v' : EpochView, v'.paidMarks { ce with
        activeEngagers := active, partialActor := actor, partialCount := n }.allocating = ∅ := by
      intro v'
      rw [eq_empty_iff_forall_notMem]
      intro k hk
      obtain ⟨-, c, hc, -⟩ := mem_paidMarks.mp hk
      cases hc
    rw [hnone]
    refine ⟨h.unpaid.allocated, fun t => ?_, ?_, ?_⟩
    · show ((v.targets.get t).map TargetEarning.amount).getD 0 = _
      rw [h.unpaid.targets]
      rfl
    · show v.targets.sum _ = ce.allocatedTotal
      rw [h.unpaid.targets, h.unpaid.allocated]
      rfl
    · show v.accruals.sum _ = ce.allocatedTotal
      rw [h.unpaid.accruals, h.unpaid.allocated]
      rfl

/-- Behind the last record everything is paid. -/
theorem Allocating.finished (h : v.Allocating ce) (hdone : v.Exhausted ce)
    (hpool : ce'.pool = ce.pool) (hactive : ce'.activeEngagers = ce.activeEngagers)
    (hslice : ce'.engagerSlice = ce.engagerSlice)
    (halloc : ce'.allocatedTotal = ce.allocatedTotal) :
    { v with record := some ce' }.Finished ce' := by
  have hall : v.paidMarks ce = v.marks.keys := by
    ext k
    rw [mem_paidMarks]
    exact ⟨fun hk => hk.1, fun hk => ⟨hk, hdone k (h.recorded hk)⟩⟩
  have hshared := h.shared
  rw [hall] at hshared
  refine ⟨⟨⟨h.sliced.tally.units, hactive.trans h.sliced.tally.active⟩, ?_, ?_⟩, ?_⟩
  · rw [hslice, hpool]
    exact h.sliced.slice
  · rw [hpool]
    exact h.sliced.pool_nonneg
  · exact hshared.congr rfl hslice halloc rfl rfl

/-- Stepping over a record without a mark. -/
theorem Allocating.pass {v : EpochView} {ce : CreatorEpoch} {key : EngagementKey}
    (h : v.Allocating ce) (hnext : v.Next ce key) (hmark : key.record ∉ v.marks.keys) :
    { v with record := some { ce with settlementCursor := some key } }.Allocating
      { ce with settlementCursor := some key } := by
  have hpaid := paidMarks_next h.recorded hnext
  rw [if_neg hmark] at hpaid
  refine ⟨?_, h.recorded, ⟨⟨h.sliced.tally.units, h.sliced.tally.active⟩, h.sliced.slice,
    h.sliced.pool_nonneg⟩, ?_⟩
  · rintro c ⟨⟩
    exact ⟨hnext.epoch, hnext.present⟩
  · show EpochView.Shared _ _ (v.paidMarks { ce with settlementCursor := some key })
    rw [hpaid]
    exact h.shared.congr rfl rfl rfl rfl rfl

/-- Paying a marked record. -/
theorem Allocating.allocate {v : EpochView} {ce : CreatorEpoch} {key : EngagementKey} {e : ℤ}
    {post : PostMetadata} {te : TargetEarning} (h : v.Allocating ce) (hnext : v.Next ce key)
    (hmark : key.record ∈ v.marks.keys)
    (hte : te.amount = v.earned key.target + v.gain ce key.record) :
    { v with
      targets := v.targets.set key.target te
      accruals := v.accrue e post.author (v.gain ce key.record)
      record := some { ce with
        allocatedTotal := ce.allocatedTotal + v.gain ce key.record
        settlementCursor := some key } }.Allocating
      { ce with
        allocatedTotal := ce.allocatedTotal + v.gain ce key.record
        settlementCursor := some key } := by
  have hpaid := paidMarks_next h.recorded hnext
  rw [if_pos hmark] at hpaid
  have hnew : key.record ∉ v.paidMarks ce := by
    intro hk
    obtain ⟨-, c, hc, hle⟩ := mem_paidMarks.mp hk
    exact absurd (hnext.after c hc) (not_lt.mpr hle)
  rw [h.sliced.gain_eq] at hte ⊢
  refine ⟨?_, h.recorded, ⟨⟨h.sliced.tally.units, h.sliced.tally.active⟩, h.sliced.slice,
    h.sliced.pool_nonneg⟩, ?_⟩
  · rintro c ⟨⟩
    exact ⟨hnext.epoch, hnext.present⟩
  · show EpochView.Shared _ _ (v.paidMarks { ce with settlementCursor := some key })
    rw [hpaid]
    exact h.shared.insert hnew (h.sliced.worth_nonneg _) hte rfl rfl rfl rfl rfl

/-- A claim changes who has been paid, not what was earned. -/
theorem Finished.claimed {acc : CreatorAccrual} {creator : Addr} {ctx : BlockCtx}
    (h : v.Finished ce) (hget : v.accruals.get creator = some acc) :
    (v.claimed ctx creator acc ce).Finished
      { ce with claimedTotal := ce.claimedTotal + acc.amount } := by
  refine ⟨⟨⟨h.sliced.tally.units, h.sliced.tally.active⟩, h.sliced.slice, h.sliced.pool_nonneg⟩,
    h.shared.congr rfl rfl rfl rfl ?_⟩
  have hset := sum_set_of_get (acc.paidOut ctx) (fun _ acc => acc.amount) hget
  exact add_right_cancel hset

/-- Each move of an epoch that has not expired leads into the next phase. -/
theorem Settles.move (h : v.Settles) (hlive : ∀ ce, v.record = some ce → ce.status ≠ .expired)
    (hmove : EpochMove posts e v v') : v'.Settles := by
  cases hmove with
  | @write ce pool gross endUnix engagements hopen hpool =>
    have hbefore : v.Blank ∧ ce.activeEngagers = 0 ∧ ce.allocatedTotal = 0 ∧ 0 ≤ ce.pool := by
      rcases hopen with ⟨hget, hst⟩ | ⟨hnone, start, stop, rfl⟩
      · exact h.opened hget hst
      · refine ⟨?_, rfl, rfl, le_rfl⟩
        simpa only [Settles, hnone] using h
    obtain ⟨hblank, hactive, halloc, hnonneg⟩ := hbefore
    have hst : (ce.written pool gross endUnix).status = .opened := hopen.status
    simp only [Settles, hst]
    exact ⟨⟨hblank.marks, hblank.counts, hblank.targets, hblank.accruals⟩, hactive, halloc,
      hnonneg.trans hpool⟩
  | unengage hnone =>
    have hblank : v.Blank := by simpa only [Settles, hnone] using h
    simp only [Settles, hnone]
    exact ⟨hblank.marks, hblank.counts, hblank.targets, hblank.accruals⟩
  | @close ce hget hst =>
    obtain ⟨hblank, hactive, halloc, hpool⟩ := h.opened hget hst
    have hblank' : { v with record := some ce.closed }.Blank :=
      ⟨hblank.marks, hblank.counts, hblank.targets, hblank.accruals⟩
    exact ⟨rfl, hblank'.counting rfl rfl rfl hactive halloc hpool⟩
  | @count ce key valid hget hst hnext =>
    obtain ⟨hph, hcount⟩ := h.counting hget hst
    obtain ⟨ce', hget', hst', hph', hcount'⟩ := hcount.counted (hnext hcount.cursor) valid
    simp only [Settles, hget', hst'.trans hst]
    exact ⟨hph'.trans hph, hcount'⟩
  | @countNone ce hget hst =>
    obtain ⟨hph, -⟩ := h.counting hget hst
    obtain ⟨-, active, actor, n, hce⟩ := v.flush_keeps ce
    have hph' : (v.flush ce).2.unallocated.phase = .count := by
      rw [hce]
      exact hph
    intro hphase
    rw [hph'] at hphase
    cases hphase
  | @countDone ce hget hst hdone hactive =>
    exact ⟨rfl, (h.counting hget hst).2.countDone⟩
  | @pass ce key hget hst hnext hmark =>
    obtain ⟨hph, halloc⟩ := h.allocating hget hst
    exact .of_allocating rfl hst hph (halloc.pass (hnext halloc.cursor) hmark)
  | @allocate ce key post te hget hst hnext hmark hpost hte hcreator =>
    obtain ⟨hph, halloc⟩ := h.allocating hget hst
    exact .of_allocating rfl hst hph (halloc.allocate (hnext halloc.cursor) hmark hte)
  | @finishNone ce hget hst hdone =>
    obtain ⟨-, halloc⟩ := h.allocating hget hst
    exact fun _ => halloc.finished (hdone halloc.cursor) rfl rfl rfl rfl
  | @finish ce clock days deadline hget hst hdone =>
    obtain ⟨-, halloc⟩ := h.allocating hget hst
    exact halloc.finished (hdone halloc.cursor) rfl rfl rfl rfl
  | @claim ce creator acc ctx hclaim =>
    have hfin : (v.claimed ctx creator acc ce).Finished _ :=
      (h.claimable hclaim.record hclaim.status).claimed hclaim.accrual
    exact .of_claimable rfl hclaim.status hfin
  | @expire ce hget hst =>
    have hfin := h.claimable hget hst
    exact fun _ => ⟨⟨⟨hfin.sliced.tally.units, hfin.sliced.tally.active⟩, hfin.sliced.slice,
      hfin.sliced.pool_nonneg⟩, hfin.shared.congr rfl rfl rfl rfl rfl⟩
  | @prune ce ce' _ _ _ hget hst => exact absurd hst (hlive ce hget)

/-! ## 4. Who is paid -/

/-- Earnings go to the authors of the posts: each target's earning names the
post's author, and a creator's accrual is the total over the creator's posts. -/
structure Attributed (v : EpochView) (posts : OrderedMap Hash PostMetadata) : Prop where
  author : ∀ t te, v.targets.get t = some te →
    ∃ post, posts.get t = some post ∧ post.author = te.creator
  engaged : ∀ t te, v.targets.get t = some te → ∃ k ∈ v.engagements.keys, k.target = t
  accrued : ∀ c, v.accrued c =
    v.targets.sum fun _ te => if te.creator = c then te.amount else 0

theorem attributed_of_empty
    (htargets : v.targets = .empty) (haccruals : v.accruals = .empty) : v.Attributed posts := by
  refine ⟨fun t te hget => ?_, fun t te hget => ?_, fun c => ?_⟩
  · rw [htargets] at hget
    cases hget
  · rw [htargets] at hget
    cases hget
  · rw [EpochView.accrued, htargets, haccruals]
    rfl

theorem Attributed.congr (h : v.Attributed posts) (htargets : v'.targets = v.targets)
    (hengagements : v'.engagements = v.engagements)
    (haccrued : ∀ c, v'.accrued c = v.accrued c) : v'.Attributed posts where
  author := fun t te hget => h.author t te (htargets ▸ hget)
  engaged := fun t te hget => hengagements ▸ h.engaged t te (htargets ▸ hget)
  accrued := fun c => by rw [haccrued, htargets, h.accrued]

/-- Paying a record of a post goes to the post's author. -/
theorem Attributed.allocate {v : EpochView} {posts : OrderedMap Hash PostMetadata} {t : Hash}
    {post : PostMetadata} {te : TargetEarning} {gain : ℤ} {e : ℤ} {record : Option CreatorEpoch}
    (h : v.Attributed posts) (hpost : posts.get t = some post)
    (hengaged : ∃ k ∈ v.engagements.keys, k.target = t) (hgain : 0 ≤ gain)
    (hte : te.amount = v.earned t + gain)
    (hcreator : te.creator = ((v.targets.get t).map TargetEarning.creator).getD post.author) :
    { v with
      targets := v.targets.set t te
      accruals := v.accrue e post.author gain
      record := record }.Attributed posts := by
  have hauthor : te.creator = post.author := by
    rw [hcreator]
    cases hget : v.targets.get t with
    | none => rfl
    | some old =>
      obtain ⟨post', hpost', hold⟩ := h.author t old hget
      obtain rfl : post = post' := Option.some.inj (hpost.symm.trans hpost')
      exact hold.symm
  refine ⟨fun t' te' hget => ?_, fun t' te' hget => ?_, fun c => ?_⟩
  · rcases get_set_cases hget with ⟨rfl, rfl⟩ | ⟨-, hget⟩
    · exact ⟨post, hpost, hauthor.symm⟩
    · exact h.author t' te' hget
  · rcases get_set_cases hget with ⟨rfl, -⟩ | ⟨-, hget⟩
    · exact hengaged
    · exact h.engaged t' te' hget
  · have haccrued := accrued_accrue v e post.author c hgain
    show { v with accruals := v.accrue e post.author gain }.accrued c = _
    rw [haccrued, h.accrued]
    have hset := v.targets.sum_set_add t te fun _ te => if te.creator = c then te.amount else 0
    -- what the target had before went to the same author
    have hold : ((v.targets.get t).map fun te => if te.creator = c then te.amount else 0).getD 0 =
        if post.author = c then v.earned t else 0 := by
      unfold earned
      cases hget : v.targets.get t with
      | none => simp
      | some old =>
        rw [hget] at hcreator
        have hcr : old.creator = post.author := hcreator.symm.trans hauthor
        simp only [Option.map_some, Option.getD_some, hcr]
    rw [hold, hauthor] at hset
    simp only [@eq_comm _ c]
    split at hset
    · next heq =>
      rw [if_pos heq]
      linarith
    · next hne =>
      rw [if_neg hne]
      linarith

theorem Attributed.move (h : v.Attributed posts) (hsettles : v.Settles)
    (hlive : ∀ ce, v.record = some ce → ce.status ≠ .expired) (hmove : EpochMove posts e v v') :
    v'.Attributed posts := by
  cases hmove with
  | @write ce _ _ _ _ hopen =>
    have hblank : v.Blank := by
      rcases hopen with ⟨hget, hst⟩ | ⟨hnone, -⟩
      · exact (hsettles.opened hget hst).1
      · simpa only [Settles, hnone] using hsettles
    exact attributed_of_empty hblank.targets hblank.accruals
  | unengage hnone =>
    have hblank : v.Blank := by simpa only [Settles, hnone] using hsettles
    exact attributed_of_empty hblank.targets hblank.accruals
  | close | pass | finishNone | finish | expire => exact h.congr rfl rfl fun _ => rfl
  | @count ce key valid =>
    obtain ⟨⟨counts, hv⟩, -⟩ := v.flushFor_keeps ce key.actor
    unfold EpochView.counted
    simp only [hv]
    exact h.congr rfl rfl fun _ => rfl
  | @countNone ce | @countDone ce =>
    obtain ⟨⟨counts, hv⟩, -⟩ := v.flush_keeps ce
    rw [hv]
    exact h.congr rfl rfl fun _ => rfl
  | @allocate ce key post te hget hst hnext hmark hpost hte hcreator =>
    obtain ⟨-, halloc⟩ := hsettles.allocating hget hst
    have hgain : 0 ≤ v.gain ce key.record := by
      rw [halloc.sliced.gain_eq]
      exact halloc.sliced.worth_nonneg _
    exact h.allocate hpost ⟨key.record, halloc.recorded hmark, rfl⟩ hgain hte hcreator
  | @claim ce creator acc ctx hclaim =>
    refine h.congr rfl rfl fun c => ?_
    show (((v.accruals.set creator (acc.paidOut ctx)).get c).map CreatorAccrual.amount).getD 0 = _
    rw [get_set]
    split
    · next heq =>
      rw [EpochView.accrued, heq, hclaim.accrual]
      rfl
    · rfl
  | @prune ce ce' _ _ _ hget hst => exact absurd hst (hlive ce hget)

/-- A new post does not take over the earnings of another one. -/
theorem Attributed.publish {hash : Hash} (post : PostMetadata) (h : v.Attributed posts)
    (hfresh : ∀ k ∈ v.engagements.keys, k.target ≠ hash) : v.Attributed (posts.set hash post) where
  author := fun t te hget => by
    obtain ⟨k, hk, rfl⟩ := h.engaged t te hget
    rw [get_set_of_ne _ (hfresh k hk)]
    exact h.author _ te hget
  engaged := h.engaged
  accrued := h.accrued

/-- A deleted post keeps its author. -/
theorem Attributed.retract {target : Hash}
    {post post' : PostMetadata} (h : v.Attributed posts) (hget : posts.get target = some post)
    (hauthor : post'.author = post.author) : v.Attributed (posts.set target post') where
  author := fun t te hte => by
    obtain ⟨post₁, hpost₁, hcreator⟩ := h.author t te hte
    rw [get_set]
    split
    · next heq =>
      subst heq
      obtain rfl : post₁ = post := Option.some.inj (hpost₁.symm.trans hget)
      exact ⟨post', rfl, hauthor.trans hcreator⟩
    · exact ⟨post₁, hpost₁, hcreator⟩
  engaged := h.engaged
  accrued := h.accrued

end EpochView

/-! ## 5. Along runs -/

/-- What holds of an epoch in every state until it is pruned. -/
structure Accounted (s : CreatorState) (e : ℤ) : Prop where
  settles : (s.view e).Settles
  attributed : (s.view e).Attributed s.posts

/-- An epoch that has not expired is accounted for. -/
def Accountable (s : CreatorState) (e : ℤ) : Prop :=
  (∃ ce, s.epochs.get e = some ce ∧ ce.status = .expired) ∨ Accounted s e

theorem CreatorStep.accountable (hs : WellPlaced s)
    (h : CreatorStep now s s') (hacc : Accountable s e) : Accountable s' e := by
  have hmoves : (∃ ce, (s'.view e).record = some ce ∧ ce.status = .expired) ∨
      (s'.view e).Settles ∧ (s'.view e).Attributed s.posts := by
    refine (h.lives hs e).moves.induction (P := fun v =>
      (∃ ce, v.record = some ce ∧ ce.status = .expired) ∨ v.Settles ∧ v.Attributed s.posts)
      (fun v v' hmove hv => ?_) (hacc.imp_right fun ha => ⟨ha.settles, ha.attributed⟩)
    rcases hv with ⟨ce, hget, hst⟩ | ⟨hsettles, hattr⟩
    · exact .inl (hmove.expired hget hst)
    · by_cases hexp : ∃ ce, v.record = some ce ∧ ce.status = .expired
      · obtain ⟨ce, hget, hst⟩ := hexp
        exact .inl (hmove.expired hget hst)
      · have hlive : ∀ ce, v.record = some ce → ce.status ≠ .expired :=
          fun ce hget hst => hexp ⟨ce, hget, hst⟩
        exact .inr ⟨hsettles.move hlive hmove, hattr.move hsettles hlive hmove⟩
  refine hmoves.imp_right fun ⟨hsettles, hattr⟩ => ⟨hsettles, ?_⟩
  rcases h.posts with hposts | ⟨hash, post, rfl, hfresh⟩ | ⟨target, post, height, epoch, hget, rfl⟩
  · exact hposts ▸ hattr
  · refine hattr.publish post fun k hk => ?_
    obtain ⟨v, hv⟩ := mem_engagements_iff.mp hk
    exact hfresh _ v hv
  · exact hattr.retract hget rfl

theorem TickCase.accounted (hkeyed : WellKeyed s)
    (h : TickCase p now s s') (hacc : Accounted s e) : Accounted s' e := by
  have hposts := h.frame.posts
  rcases h.view hkeyed e with hsame | ⟨⟨ce, hget, hlive⟩, hmove⟩
  · exact ⟨hsame ▸ hacc.settles, by rw [hsame, hposts]; exact hacc.attributed⟩
  · have hlive' : ∀ ce', (s.view e).record = some ce' → ce'.status ≠ .expired := by
      intro ce' hget'
      obtain rfl : ce = ce' := Option.some.inj (hget.symm.trans hget')
      exact hlive
    refine ⟨hacc.settles.move hlive' hmove, ?_⟩
    rw [hposts]
    exact hacc.attributed.move hacc.settles hlive' hmove

/-! ## 6. Errors of the shares -/

/-- The epoch that a share error names: a missing count, or more allocated than
the pool holds. -/
def CoreError.shareEpoch : CoreError → Option ℤ
  | engagementCountMissing _ e => some e
  | allocatedExceedsPool e _ _ => some e
  | _ => none

theorem ofRecords_of_shareEpoch {err : CoreError} (h : err.shareEpoch = some e) :
    err.OfRecords := by
  unfold CoreError.shareEpoch at h
  split at h
  · rfl
  · rfl
  · cases h

/-- The guards of a record do not fail with a share error. -/
theorem engagementValid_shareEpoch (s : CreatorState) (epoch : ℤ) (actor : Addr) (kind : ℕ)
    (target : Hash) (value : Option Hash) :
    Avoids (fun err => err.shareEpoch = some e)
      (engagementValid s epoch actor kind target value) := by
  unfold engagementValid
  repeat' split
  all_goals first | exact .error nofun | exact .ok _

/-- A marked record's actor has a stored count. -/
theorem EpochView.Tally.actorUnits_ne_zero (h : (s.view ce.epochId).Tally ce none)
    (hmark : s.validMarks.has (keyEngagement ce.epochId key.actor key.kind key.target) = true) :
    actorUnits s ce.epochId key.actor ≠ 0 := by
  obtain ⟨u, hu⟩ := has_iff.mp hmark
  have hmem : key.record ∈ (s.view ce.epochId).marks.keys := by
    refine mem_keys.mpr ⟨u, ?_⟩
    show (s.validMarks.slice ce.epochId).get key.record = some u
    rw [get_slice]
    exact hu
  have hunits := h.units key.actor nofun
  have hpos : 0 < #((s.view ce.epochId).markedBy key.actor) :=
    card_pos.mpr ⟨key.record, mem_recordsOf.mpr ⟨hmem, rfl⟩⟩
  have hsame : actorUnits s ce.epochId key.actor = (s.view ce.epochId).units key.actor := by
    show (s.counts.get _).getD 0 = ((s.counts.slice ce.epochId).get key.actor).getD 0
    rw [get_slice]
  omega

/-- No tick fails with a share error of an epoch that is accounted for. -/
theorem settleTick_shareEpoch (hkeyed : WellKeyed s) (hacc : Accountable s e) :
    Avoids (fun err => err.shareEpoch = some e) (settleTick p now s) := by
  refine settleTick_avoids (fun _ => ofRecords_of_shareEpoch)
    (fun _ ce _ _ => countTick_avoids (fun _ => ofRecords_of_shareEpoch) fun s₁ _ epoch r =>
      engagementValid_shareEpoch s₁ epoch _ _ _ _)
    (fun epoch ce hget hst => ?_)
  -- a share error names the epoch of the tick, which then is the accounted one
  have halloc : ce.epochId = e → (s.view e).Allocating ce := by
    intro he
    rw [← hkeyed epoch ce hget, he] at hget
    rcases hacc with ⟨ce', hget', hst'⟩ | hacc
    · obtain rfl : ce = ce' := Option.some.inj (hget.symm.trans hget')
      rw [hst] at hst'
      cases hst'
    · exact (hacc.settles.allocating hget hst).2
  refine allocateTick_avoids (fun _ => ofRecords_of_shareEpoch) (fun key hmark hzero hbad => ?_)
    (fun _ _ => nofun) (fun hexceeds hbad => ?_)
  · obtain rfl : ce.epochId = e := Option.some.inj hbad
    exact (halloc rfl).sliced.tally.actorUnits_ne_zero hmark hzero
  · have h := halloc (Option.some.inj hbad)
    exact absurd (h.sliced.allocated_le h.shared (Finset.filter_subset _ _)) (not_le.mpr hexceeds)

/-! ## 7. Conservation -/

/-- What the allocating pass leaves behind: accruals and target earnings both add up to what was
allocated, which the pool covers, and are made up of what the marked records are worth. -/
structure Conserved (s : CreatorState) (e : ℤ) (ce : CreatorEpoch) : Prop where
  accruals : (s.view e).accruals.sum (fun _ acc => acc.amount) = ce.allocatedTotal
  targets : (s.view e).targets.sum (fun _ te => te.amount) = ce.allocatedTotal
  allocated_le : ce.allocatedTotal ≤ ce.pool
  target : ∀ t, (s.view e).earned t =
    ∑ k ∈ (s.view e).marks.keys with k.target = t, (s.view e).gain ce k
  actor_le : ∀ a, ∑ k ∈ (s.view e).marks.keys with k.actor = a, (s.view e).gain ce k ≤
    ce.engagerSlice
  creator : ∀ c, (s.view e).accrued c = (s.view e).targets.sum fun t te =>
    if (s.posts.get t).any (fun post => decide (post.author = c)) then te.amount else 0

theorem EpochView.Attributed.accrued_posts
    (h : v.Attributed posts) (c : Addr) : v.accrued c = v.targets.sum fun t te =>
      if (posts.get t).any (fun post => decide (post.author = c)) then te.amount else 0 := by
  rw [h.accrued]
  refine sum_congr fun t te hget => ?_
  obtain ⟨post, hpost, hauthor⟩ := h.author t te hget
  simp only [hpost, Option.any_some, decide_eq_true_eq, hauthor]

theorem EpochView.Finished.conserved
    (h : (s.view e).Finished ce) (hattr : (s.view e).Attributed s.posts) : Conserved s e ce where
  accruals := h.shared.accruals
  targets := h.shared.targets
  allocated_le := h.sliced.allocated_le h.shared Subset.rfl
  target := fun t => by
    simp only [h.sliced.gain_eq]
    exact h.shared.target t
  actor_le := fun a => by
    simp only [h.sliced.gain_eq]
    exact sum_unitValue_recordsOf_le h.sliced.slice_nonneg a
  creator := hattr.accrued_posts

/-- A store in which no epoch has been settled: epochs are open or were just
closed, with any pools and any engagement records. -/
structure Unsettled (s : CreatorState) : Prop where
  placed : WellPlaced s
  blank : ∀ e, (s.view e).Blank
  record : ∀ e ce, s.epochs.get e = some ce → (ce.status = .opened ∨ ce = ce.closed) ∧
    ce.activeEngagers = 0 ∧ ce.allocatedTotal = 0 ∧ 0 ≤ ce.pool

theorem Unsettled.accountable (h : Unsettled s) (e : ℤ) : Accountable s e := by
  have hblank := h.blank e
  refine .inr ⟨?_, EpochView.attributed_of_empty hblank.targets hblank.accruals⟩
  cases hget : (s.view e).record with
  | none => simpa only [EpochView.Settles, hget] using hblank
  | some ce =>
    obtain ⟨hst, hactive, halloc, hpool⟩ := h.record e ce hget
    rcases hst with hst | hclosed
    · simp only [EpochView.Settles, hget, hst]
      exact ⟨hblank, hactive, halloc, hpool⟩
    · have hst : ce.status = .counting := congrArg CreatorEpoch.status hclosed
      simp only [EpochView.Settles, hget, hst]
      exact ⟨congrArg CreatorEpoch.phase hclosed, hblank.counting
        (congrArg CreatorEpoch.settlementCursor hclosed)
        (congrArg CreatorEpoch.partialActor hclosed)
        (congrArg CreatorEpoch.partialCount hclosed) hactive halloc hpool⟩

theorem Unsettled.run {s₀ : CreatorState} {t₀ t : ℤ} (h : Unsettled s₀)
    (hrun : CreatorRun s₀ t₀ s t) : WellPlaced s ∧ ∀ e, Accountable s e :=
  hrun.induction (P := fun _ s => ∀ e, Accountable s e) (fun _ _ _ _ hP => hP)
    (fun _ _ _ hs hstep hP e => hstep.accountable hs (hP e)) h.placed h.accountable

theorem Ticks.accounted (hs : WellPlaced s)
    (h : Ticks p now s s') (hacc : Accounted s e) : Accounted s' e := by
  suffices WellPlaced s' ∧ Accounted s' e from this.2
  induction h with
  | refl => exact ⟨hs, hacc⟩
  | tail _ htick ih =>
    have hcase := settleTick_cases htick
    exact ⟨ih.1.step (.work (.tick hcase)), hcase.accounted ih.1.keyed ih.2⟩

theorem Ticks.accountable (hs : WellPlaced s)
    (h : Ticks p now s s') (hacc : Accountable s e) : WellPlaced s' ∧ Accountable s' e := by
  induction h with
  | refl => exact ⟨hs, hacc⟩
  | tail _ htick ih =>
    have hstep : CreatorStep now _ _ := .work (.tick (settleTick_cases htick))
    exact ⟨ih.1.step hstep, hstep.accountable ih.1 ih.2⟩

/-- Settlement conserves the pools in every run. The block that takes an epoch out
of its allocating pass leaves it conserved, whatever the budgets were and whatever
was voted, posted and deleted between the blocks; and no block fails for a missing
count or an exceeded pool. -/
theorem settlement_conserves {s₀ s : CreatorState} {t₀ t : ℤ} (h : Unsettled s₀)
    (hrun : CreatorRun s₀ t₀ s t) (p : Params) (now : ℤ) :
    (∀ s', processCreatorSettlement p now s = .ok s' →
      ∀ e ce ce', s.epochs.get e = some ce → (ce.status = .counting ∨ ce.status = .allocating) →
        s'.epochs.get e = some ce' → ce'.phase = .allocate → ce'.status ≠ .allocating →
        Conserved s' e ce') ∧
    ∀ err, processCreatorSettlement p now s = .error err →
      ∀ e, (∀ actor, err ≠ .engagementCountMissing actor e) ∧
        ∀ allocated pool, err ≠ .allocatedExceedsPool e allocated pool := by
  obtain ⟨hs, hacc⟩ := h.run hrun
  have hticks := @settlement_ticks p now s hs.keyed
  refine ⟨fun s' hok e ce ce' hget hst hget' hph hst' => ?_, fun err herr e => ?_⟩
  · -- the epoch had not expired, so it stays accounted for through the block
    have hbefore : Accounted s e := by
      rcases hacc e with ⟨ce₁, hget₁, hexp⟩ | hacc
      · obtain rfl : ce = ce₁ := Option.some.inj (hget.symm.trans hget₁)
        rw [hexp] at hst
        rcases hst with hst | hst <;> cases hst
      · exact hacc
    have hafter := Ticks.accounted hs (hticks.of_eq_ok hok) hbefore
    have hfinished : (s'.view e).Finished ce' := by
      have hsettles := hafter.settles
      have hrecord : (s'.view e).record = some ce' := hget'
      cases hcase : ce'.status with
      | opened =>
        have hclosed : ce.status ≠ .opened := by
          intro hopen
          rw [hopen] at hst
          rcases hst with hst | hst <;> cases hst
        have hsteps : CreatorSteps now s s' := (hticks.of_eq_ok hok).lift id fun _ _ htick =>
          .work (.tick (settleTick_cases htick))
        obtain ⟨ce₁, hget₁, hmoves⟩ := hsteps.movesOn hs hget
        obtain rfl : ce' = ce₁ := Option.some.inj (hget'.symm.trans hget₁)
        exact absurd hcase (hmoves.closed hclosed)
      | counting =>
        rw [(hsettles.counting hrecord hcase).1] at hph
        cases hph
      | allocating => exact absurd hcase hst'
      | claimable => exact hsettles.claimable hrecord hcase
      | expired =>
        simp only [EpochView.Settles, hrecord, hcase] at hsettles
        exact hsettles hph
    exact hfinished.conserved hafter.attributed
  · have hshare : err.shareEpoch ≠ some e :=
      settlement_avoids (fun _ => ofRecords_of_shareEpoch) hs.keyed (fun s₁ hreach =>
        let ⟨hs₁, hacc₁⟩ := hreach.accountable hs (hacc e)
        settleTick_shareEpoch hs₁.keyed hacc₁) err herr
    exact ⟨fun actor heq => hshare (heq ▸ rfl), fun allocated pool heq => hshare (heq ▸ rfl)⟩

theorem closedWithTwoUpvotes_unsettled : Unsettled closedWithTwoUpvotes where
  placed := by
    refine ⟨closedWithTwoUpvotes_filed.keyed, fun e => ⟨fun ce hget _ => ?_, fun h => ?_⟩⟩
    · rw [closedWithTwoUpvotes_get] at hget
      split at hget
      · next he => exact he ▸ (by decide : (5 : ℤ) < 6)
      · cases hget
    · cases h
  blank := fun e => ⟨rfl, rfl, rfl, rfl⟩
  record := fun e ce hget => by
    rw [closedWithTwoUpvotes_get] at hget
    split at hget
    · cases hget
      exact ⟨.inr rfl, rfl, rfl, by decide⟩
    · cases hget

/-- A block with a budget of one record, after which author 9 deletes the post. -/
def settledThenDeleted : Except CoreError CreatorState := do
  let s ← processCreatorSettlement { defaultParams with creatorSettlementRecordsPerBlock := 1 } 2000
    closedWithTwoUpvotes
  deletePost 1 s 9 false 7

/-- The deletion between the blocks does not take the post's share away. -/
theorem settlement_conserves_deleted_between : ∃ s s' ce,
    CreatorRun closedWithTwoUpvotes 2000 s 2010 ∧
      processCreatorSettlement defaultParams 2020 s = .ok s' ∧
      s'.epochs.get 5 = some ce ∧ ce.allocatedTotal = 100 ∧ Conserved s' 5 ce := by
  have hblocks : (do
      let s ← settledThenDeleted
      let s' ← processCreatorSettlement defaultParams 2020 s
      return ((s.epochs.get 5).map CreatorEpoch.status, (s'.epochs.get 5).map fun ce =>
        (ce.status, ce.phase, ce.allocatedTotal))) =
      Except.ok (some .counting, some (.claimable, .allocate, 100)) := by
    decide +kernel
  simp only [settledThenDeleted, bind_eq_ok, pure_eq_ok, Prod.mk.injEq, Option.map_eq_some_iff]
    at hblocks
  obtain ⟨s, ⟨s₁, hsettle, hdelete⟩, s', hlast, ⟨ce, hget, hst⟩, ce', hget', hst', hph', hamount⟩ :=
    hblocks
  have hrun : CreatorRun closedWithTwoUpvotes 2000 s 2010 :=
    .step ⟨2010, 1, 0⟩ (.delete 9 false 7)
      (.step ⟨2000, 0, 0⟩ (.settle _) .start (le_refl (2000 : ℤ)) trivial hsettle)
      (by decide) trivial hdelete
  refine ⟨s, s', ce', hrun, hlast, hget', hamount, ?_⟩
  exact (settlement_conserves closedWithTwoUpvotes_unsettled hrun defaultParams 2020).1 s' hlast 5
    ce ce' hget (.inl hst) hget' hph' (by rw [hst']; decide)

/-- In every run the epochs that wait for settlement are recorded, as the settlement needs it. -/
theorem CreatorRun.filed {s₀ : CreatorState} {t₀ t : ℤ} (hs₀ : WellPlaced s₀) (hfiled : Filed s₀)
    (hrun : CreatorRun s₀ t₀ s t) : Filed s := by
  have hend := hrun.induction
    (P := fun _ s => ∀ e, s.settleIdx.has e = true → ∃ ce, s.epochs.get e = some ce)
    (fun _ _ _ _ h => h) (fun t s s' hs hstep h e hwait => ?_) hs₀ hfiled.recorded
  · exact ⟨hend.1.keyed, hend.2⟩
  · rcases hstep.waits e hwait with hwaited | hrecorded
    · obtain ⟨ce, hget⟩ := h e hwaited
      obtain ⟨ce', hget', -⟩ := hstep.movesOn hs hget
      exact ⟨ce', hget'⟩
    · exact hrecorded

/-- Epochs only move on. In whatever state a run goes on to, an epoch is still recorded and its
status has not gone back; once closed it keeps its pool and its interval and is behind the clock. -/
theorem epochs_move_on {s₀ : CreatorState} {t₀ t : ℤ} (hs₀ : WellPlaced s₀)
    (hrun : CreatorRun s₀ t₀ s t) (hget : s₀.epochs.get e = some ce) :
    ∃ ce', s.epochs.get e = some ce' ∧ MovesOn ce ce' ∧ (ce.status ≠ .opened → e < s.clock) := by
  have hend := hrun.induction
    (P := fun _ s => ∃ ce', s.epochs.get e = some ce' ∧ MovesOn ce ce')
    (fun _ _ _ _ h => h) (fun t s s' hs hstep h => ?_) hs₀ ⟨ce, hget, .refl ce⟩
  · obtain ⟨hs, ce', hget', hmoves⟩ := hend
    exact ⟨ce', hget', hmoves, fun hclosed =>
      (hs.placed e).closed_lt ce' hget' (hmoves.closed hclosed)⟩
  · obtain ⟨ce₁, hget₁, h₁⟩ := h
    obtain ⟨ce₂, hget₂, h₂⟩ := hstep.movesOn hs hget₁
    exact ⟨ce₂, hget₂, h₁.trans h₂⟩

/-- Settled at 2000, the closed epoch 5 keeps its pool. -/
theorem epochs_move_on_settled : ∃ s ce, CreatorRun closedWithTwoUpvotes 2000 s 2000 ∧
    s.epochs.get 5 = some ce ∧ ce.status = .claimable ∧ ce.pool = 100 := by
  have hblock : (do
      let s ← processCreatorSettlement defaultParams 2000 closedWithTwoUpvotes
      return (s.epochs.get 5).map CreatorEpoch.status) = Except.ok (some .claimable) := by
    decide +kernel
  simp only [bind_eq_ok, pure_eq_ok, Option.map_eq_some_iff] at hblock
  obtain ⟨s, hsettle, ce, hget, hst⟩ := hblock
  have hrun : CreatorRun closedWithTwoUpvotes 2000 s 2000 :=
    .step ⟨2000, 0, 0⟩ (.settle _) .start (le_refl (2000 : ℤ)) trivial hsettle
  obtain ⟨ce', hget', hmoves, -⟩ := epochs_move_on closedWithTwoUpvotes_unsettled.placed hrun
    ((closedWithTwoUpvotes_get 5).trans (if_pos rfl))
  obtain rfl := Option.some.inj (hget.symm.trans hget')
  exact ⟨s, ce, hrun, hget, hst, (hmoves.kept (by decide)).1⟩

end MirageNode
