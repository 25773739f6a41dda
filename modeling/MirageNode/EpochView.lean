import MirageNode.CreatorSystem

/-!
# One epoch's part of the store

The part of the creator store that belongs to one epoch (`EpochView`), and what
can happen to it (`EpochMove`): it opens, collects engagements and pool money,
closes, is counted, is allocated, pays out, expires and is pruned. A settlement
tick is at most one such move of each epoch (`TickCase.view`).
-/

namespace MirageNode

open OrderedStore OrderedMap Fallible

/-! ## 1. One epoch's part of the store -/

/-- The key of a record within its epoch: actor, kind byte and target. -/
abbrev RecordKey := Addr ×ₗ ℕ ×ₗ Hash

namespace RecordKey

def actor (k : RecordKey) : Addr := (ofLex k).1

def kind (k : RecordKey) : ℕ := (ofLex (ofLex k).2).1

def target (k : RecordKey) : Hash := (ofLex (ofLex k).2).2

end RecordKey

/-- An engagement record's key without the epoch. -/
def EngagementKey.record (k : EngagementKey) : RecordKey := (ofLex k).2

/-- One epoch's part of the store. -/
structure EpochView where
  record : Option CreatorEpoch
  engagements : OrderedMap RecordKey (Option Hash)
  counts : OrderedMap Addr ℕ
  marks : OrderedMap RecordKey Unit
  targets : OrderedMap Hash TargetEarning
  accruals : OrderedMap Addr CreatorAccrual
  claims : OrderedMap Addr Unit

/-- The epoch's part of a store. -/
def CreatorState.view (s : CreatorState) (e : ℤ) : EpochView where
  record := s.epochs.get e
  engagements := s.engagements.slice e
  counts := s.counts.slice e
  marks := s.validMarks.slice e
  targets := s.targets.slice e
  accruals := s.accruals.slice e
  claims := s.claims.slice e

namespace EpochView

/-- The cursor of a pass stands on a record of the epoch. -/
def CursorPresent (v : EpochView) (ce : CreatorEpoch) : Prop :=
  ∀ c, ce.settlementCursor = some c → c.epoch = ce.epochId ∧ c.record ∈ v.engagements.keys

/-- The first record behind the cursor of a pass. -/
structure Next (v : EpochView) (ce : CreatorEpoch) (key : EngagementKey) : Prop where
  epoch : key.epoch = ce.epochId
  present : key.record ∈ v.engagements.keys
  after : ∀ c, ce.settlementCursor = some c → c.record < key.record
  first : ∀ k ∈ v.engagements.keys,
    (∀ c, ce.settlementCursor = some c → c.record < k) → key.record ≤ k

/-- The cursor of a pass is past all records. -/
def Exhausted (v : EpochView) (ce : CreatorEpoch) : Prop :=
  ∀ k ∈ v.engagements.keys, ∃ c, ce.settlementCursor = some c ∧ k ≤ c.record

/-- The number of valid records counted for an actor. -/
def units (v : EpochView) (actor : Addr) : ℕ := (v.counts.get actor).getD 0

/-- What a marked record adds to its target. -/
def gain (v : EpochView) (ce : CreatorEpoch) (k : RecordKey) : ℤ :=
  if ce.engagerSlice.tdiv (v.units k.actor) > 0 then ce.engagerSlice.tdiv (v.units k.actor) else 0

/-- The effect of `flushCountActor`. -/
def flush (v : EpochView) (ce : CreatorEpoch) : EpochView × CreatorEpoch :=
  match ce.partialActor with
  | none => (v, ce)
  | some actor =>
    ({ v with counts := v.counts.set actor ce.partialCount },
      { ce with
        activeEngagers := ce.activeEngagers + if ce.partialCount > 0 then 1 else 0
        partialActor := none
        partialCount := 0 })

/-- The effect of the flush when the records move on to an actor. -/
def flushFor (v : EpochView) (ce : CreatorEpoch) (actor : Addr) : EpochView × CreatorEpoch :=
  if ce.partialActor = some actor then (v, ce) else v.flush ce

/-- The effect of counting a record that is valid or not. -/
def counted (v : EpochView) (ce : CreatorEpoch) (key : EngagementKey) (valid : Bool) :
    EpochView :=
  let st := v.flushFor ce key.actor
  { st.1 with
    marks := if valid = true then st.1.marks.set key.record () else st.1.marks.erase key.record
    record := some { st.2 with
      partialActor := some key.actor
      settlementCursor := some key
      partialCount := st.2.partialCount + if valid = true then 1 else 0 } }

/-- A flush writes a count and the counters of the pass. -/
theorem flush_keeps (v : EpochView) (ce : CreatorEpoch) :
    (∃ counts, (v.flush ce).1 = { v with counts := counts }) ∧
      ∃ active actor n, (v.flush ce).2 = { ce with
        activeEngagers := active, partialActor := actor, partialCount := n } := by
  unfold flush
  split
  · exact ⟨⟨_, rfl⟩, _, _, _, rfl⟩
  · exact ⟨⟨_, rfl⟩, _, _, _, rfl⟩

theorem flushFor_keeps (v : EpochView) (ce : CreatorEpoch) (a : Addr) :
    (∃ counts, (v.flushFor ce a).1 = { v with counts := counts }) ∧
      ∃ active actor n, (v.flushFor ce a).2 = { ce with
        activeEngagers := active, partialActor := actor, partialCount := n } := by
  unfold flushFor
  split
  · exact ⟨⟨_, rfl⟩, _, _, _, rfl⟩
  · exact v.flush_keeps ce

/-- The accruals after `addCreatorAccrual`. -/
def accrue (v : EpochView) (e : ℤ) (creator : Addr) (gain : ℤ) : OrderedMap Addr CreatorAccrual :=
  if gain > 0 then
    let acc := (v.accruals.get creator).getD ⟨e, creator, 0, 0, false, 0, 0⟩
    v.accruals.set creator { acc with amount := acc.amount + gain }
  else v.accruals

/-- The amount a target has earned. -/
def earned (v : EpochView) (t : Hash) : ℤ := ((v.targets.get t).map TargetEarning.amount).getD 0

/-- The amount a creator has accrued. -/
def accrued (v : EpochView) (c : Addr) : ℤ :=
  ((v.accruals.get c).map CreatorAccrual.amount).getD 0

variable {gain : ℤ}

theorem accrued_accrue (v : EpochView) (e : ℤ) (creator c : Addr) (hgain : 0 ≤ gain) :
    { v with accruals := v.accrue e creator gain }.accrued c =
      v.accrued c + if c = creator then gain else 0 := by
  unfold accrue
  simp only [accrued]
  split
  · rw [get_set]
    split
    · next heq =>
      subst heq
      cases v.accruals.get c <;> rfl
    · rw [add_zero]
  · obtain rfl : gain = 0 := by omega
    rw [ite_self, add_zero]

/-- A sum over the accruals grows by what an accrual adds to its term. -/
theorem sum_accrue_of (v : EpochView) (e : ℤ) (creator : Addr) {d : ℤ} (f : CreatorAccrual → ℤ)
    (hblank : f ⟨e, creator, 0, 0, false, 0, 0⟩ = 0)
    (hf : ∀ acc, f { acc with amount := acc.amount + gain } = f acc + d) (hd : ¬ 0 < gain → d = 0) :
    (v.accrue e creator gain).sum (fun _ acc => f acc) =
      v.accruals.sum (fun _ acc => f acc) + d := by
  unfold accrue
  split
  · have hset := v.accruals.sum_set_add creator
      { (v.accruals.get creator).getD ⟨e, creator, 0, 0, false, 0, 0⟩ with
        amount := ((v.accruals.get creator).getD ⟨e, creator, 0, 0, false, 0, 0⟩).amount + gain }
      (fun _ acc => f acc)
    rw [hf] at hset
    cases hget : v.accruals.get creator <;> rw [hget] at hset <;>
      simp only [Option.map_none, Option.map_some, Option.getD_none, Option.getD_some, hblank]
        at hset ⊢ <;>
      omega
  · next hgain => rw [hd hgain, add_zero]

theorem sum_accrue (v : EpochView) (e : ℤ) (creator : Addr) (hgain : 0 ≤ gain) :
    (v.accrue e creator gain).sum (fun _ acc => acc.amount) =
      v.accruals.sum (fun _ acc => acc.amount) + gain :=
  v.sum_accrue_of e creator CreatorAccrual.amount rfl (fun _ => rfl) fun h => by omega

theorem sum_accrue_claimed (v : EpochView) (e : ℤ) (creator : Addr) (gain : ℤ) :
    (v.accrue e creator gain).sum (fun _ acc => acc.claimedAmount) =
      v.accruals.sum (fun _ acc => acc.claimedAmount) :=
  (v.sum_accrue_of e creator CreatorAccrual.claimedAmount rfl (fun _ => (add_zero _).symm)
    fun _ => rfl).trans (add_zero _)

/-- What a claim of an accrual needs. -/
structure Claimable (v : EpochView) (now : ℤ) (creator : Addr) (acc : CreatorAccrual)
    (ce : CreatorEpoch) : Prop where
  record : v.record = some ce
  status : ce.status = .claimable
  inTime : now < ce.claimDeadlineUnix
  accrual : v.accruals.get creator = some acc
  noClaim : v.claims.has creator = false
  unclaimed : acc.claimed = false
  positive : 0 < acc.amount - acc.claimedAmount

/-- The epoch after a claim. -/
def claimed (v : EpochView) (ctx : BlockCtx) (creator : Addr) (acc : CreatorAccrual)
    (ce : CreatorEpoch) : EpochView :=
  { v with
    record := some { ce with claimedTotal := ce.claimedTotal + acc.amount }
    accruals := v.accruals.set creator (acc.paidOut ctx)
    claims := v.claims.set creator () }

/-- The epoch can be written to: its record is open, or there is none and this is
the new one. -/
def Writable (v : EpochView) (e : ℤ) (ce : CreatorEpoch) : Prop :=
  v.record = some ce ∧ ce.status = .opened ∨ v.record = none ∧
    ∃ start stop, ce = .fresh e start stop

end EpochView

variable {e : ℤ} {ce ce' : CreatorEpoch} {s s' : CreatorState}

theorem EpochView.Writable.status {v : EpochView} (h : v.Writable e ce) : ce.status = .opened := by
  rcases h with ⟨-, hst⟩ | ⟨-, start, stop, rfl⟩
  · exact hst
  · rfl

/-- A record with other pool money, record count and end. -/
def CreatorEpoch.written (ce : CreatorEpoch) (pool : ℤ) (grossRecords : ℕ) (endUnix : ℤ) :
    CreatorEpoch :=
  { ce with pool := pool, grossRecords := grossRecords, endUnix := endUnix }

/-- A record that left settlement without allocating anything. -/
def CreatorEpoch.unallocated (ce : CreatorEpoch) : CreatorEpoch :=
  { ce with status := .expired, prunePending := true, settlementCursor := none }

/-- A record that starts to pay out. -/
def CreatorEpoch.payable (ce : CreatorEpoch) (clock days deadline : ℤ) : CreatorEpoch :=
  { ce with
    finalizedEpoch := clock
    claimWindowDays := days
    claimDeadlineUnix := deadline
    status := .claimable
    settlementCursor := none }

/-- What can happen to an epoch, with the posts as they are. -/
inductive EpochMove (posts : OrderedMap Hash PostMetadata) (e : ℤ) (v : EpochView) :
    EpochView → Prop
  | write {ce : CreatorEpoch} {pool : ℤ} {gross : ℕ} {endUnix : ℤ}
      {engagements : OrderedMap RecordKey (Option Hash)} : v.Writable e ce → ce.pool ≤ pool →
      EpochMove posts e v
        { v with record := some (ce.written pool gross endUnix), engagements := engagements }
  | unengage {engagements : OrderedMap RecordKey (Option Hash)} : v.record = none →
      EpochMove posts e v { v with engagements := engagements }
  | close {ce : CreatorEpoch} : v.record = some ce → ce.status = .opened →
      EpochMove posts e v { v with record := some ce.closed }
  | count {ce : CreatorEpoch} {key : EngagementKey} {valid : Bool} : v.record = some ce →
      ce.status = .counting → (v.CursorPresent ce → v.Next ce key) →
      EpochMove posts e v (v.counted ce key valid)
  | countNone {ce : CreatorEpoch} : v.record = some ce → ce.status = .counting →
      (v.CursorPresent ce → v.Exhausted ce) → (v.flush ce).2.activeEngagers = 0 →
      EpochMove posts e v { (v.flush ce).1 with record := some (v.flush ce).2.unallocated }
  | countDone {ce : CreatorEpoch} : v.record = some ce → ce.status = .counting →
      (v.CursorPresent ce → v.Exhausted ce) → (v.flush ce).2.activeEngagers ≠ 0 →
      EpochMove posts e v { (v.flush ce).1 with record := some (v.flush ce).2.allocating }
  | pass {ce : CreatorEpoch} {key : EngagementKey} : v.record = some ce →
      ce.status = .allocating → (v.CursorPresent ce → v.Next ce key) →
      key.record ∉ v.marks.keys →
      EpochMove posts e v { v with record := some { ce with settlementCursor := some key } }
  | allocate {ce : CreatorEpoch} {key : EngagementKey} {post : PostMetadata}
      {te : TargetEarning} : v.record = some ce → ce.status = .allocating →
      (v.CursorPresent ce → v.Next ce key) → key.record ∈ v.marks.keys →
      posts.get key.target = some post →
      te.amount = v.earned key.target + v.gain ce key.record →
      te.creator = ((v.targets.get key.target).map TargetEarning.creator).getD post.author →
      EpochMove posts e v
        { v with
          targets := v.targets.set key.target te
          accruals := v.accrue e post.author (v.gain ce key.record)
          record := some { ce with
            allocatedTotal := ce.allocatedTotal + v.gain ce key.record
            settlementCursor := some key } }
  | finishNone {ce : CreatorEpoch} : v.record = some ce → ce.status = .allocating →
      (v.CursorPresent ce → v.Exhausted ce) → ce.allocatedTotal ≤ ce.pool →
      ce.allocatedTotal ≤ 0 → EpochMove posts e v { v with record := some ce.unallocated }
  | finish {ce : CreatorEpoch} {clock days deadline : ℤ} : v.record = some ce →
      ce.status = .allocating → (v.CursorPresent ce → v.Exhausted ce) →
      ce.allocatedTotal ≤ ce.pool → 0 < ce.allocatedTotal →
      EpochMove posts e v { v with record := some (ce.payable clock days deadline) }
  | claim {ce : CreatorEpoch} {creator : Addr} {acc : CreatorAccrual} {ctx : BlockCtx} :
      v.Claimable ctx.time creator acc ce → EpochMove posts e v (v.claimed ctx creator acc ce)
  | expire {ce : CreatorEpoch} : v.record = some ce → ce.status = .claimable →
      ce.claimedTotal ≤ ce.pool → EpochMove posts e v { v with record := some ce.expire }
  | prune {ce ce' : CreatorEpoch} {engagements : OrderedMap RecordKey (Option Hash)}
      {counts : OrderedMap Addr ℕ} {marks : OrderedMap RecordKey Unit} : v.record = some ce →
      ce.status = .expired → ce' = ce ∨ ce' = ce.pruned →
      EpochMove posts e v { v with
        record := some ce', engagements := engagements, counts := counts, marks := marks }

/-- Any number of moves. -/
def EpochMoves (posts : OrderedMap Hash PostMetadata) (e : ℤ) : EpochView → EpochView → Prop :=
  Relation.ReflTransGen (EpochMove posts e)

/-! ## 2. Iterating from the cursor -/

theorem EngagementKey.lt_toLex_iff {c : EngagementKey} {k : RecordKey} (h : c.epoch = e) :
    c < toLex (e, k) ↔ c.record < k := by
  refine Prod.Lex.lt_iff.trans ?_
  constructor
  · rintro (hlt | ⟨-, hlt⟩)
    · exact absurd h hlt.ne
    · exact hlt
  · exact fun hlt => .inr ⟨h, hlt⟩

/-- The records of the epoch behind the cursor of a pass. -/
def behindCursor (ce : CreatorEpoch) (k : EngagementKey) : Bool :=
  decide (k.epoch = ce.epochId) && ce.settlementCursor.all fun c => decide (c < k)

theorem behindCursor_iff {k : EngagementKey} :
    behindCursor ce k = true ↔
      k.epoch = ce.epochId ∧ ∀ c, ce.settlementCursor = some c → c < k := by
  simp only [behindCursor, Bool.and_eq_true, decide_eq_true_eq, Option.all_eq_true]

/-- A pass resumes with the records of the epoch behind its cursor. -/
theorem engagementsFrom_eq (hcursor : (s.view ce.epochId).CursorPresent ce) :
    engagementsFrom s ce.epochId ce.settlementCursor = s.engagements.scan (behindCursor ce) := by
  unfold engagementsFrom
  cases hc : ce.settlementCursor with
  | none =>
    refine congrArg s.engagements.scan (funext fun k => ?_)
    simp [behindCursor, hc]
  | some c =>
    obtain ⟨hepoch, hpresent⟩ := hcursor c hc
    obtain ⟨v, hv⟩ := mem_keys.mp hpresent
    have hget : s.engagements.get c = some v := by
      rw [← hv]
      show _ = (s.engagements.slice ce.epochId).get c.record
      rw [get_slice, ← hepoch]
      rfl
    have hself : decide (c ≤ c ∧ c.epoch ≤ ce.epochId) = true := by simp [hepoch]
    refine (scan_drop_one hget hself fun k hk => (of_decide_eq_true hk).1).trans ?_
    congr 1
    funext k
    rw [Bool.eq_iff_iff, behindCursor_iff, hc]
    simp only [Bool.and_eq_true, decide_eq_true_eq, Option.some.injEq, forall_eq']
    constructor
    · rintro ⟨⟨hle, hup⟩, hlt⟩
      exact ⟨le_antisymm hup (hepoch ▸ EngagementKey.epoch_le_of_le hle), hlt⟩
    · rintro ⟨heq, hlt⟩
      exact ⟨⟨hlt.le, heq.le⟩, hlt⟩

/-- A record of the epoch's part of the store is one of the store. -/
theorem mem_engagements_iff {k : RecordKey} :
    k ∈ (s.view e).engagements.keys ↔ ∃ v, s.engagements.get (toLex (e, k)) = some v := by
  rw [mem_keys]
  simp only [CreatorState.view, get_slice]

variable {r : EngagementKey × Option Hash}

theorem next_of_engagementsFrom {rest : List (EngagementKey × Option Hash)}
    (h : engagementsFrom s ce.epochId ce.settlementCursor = r :: rest)
    (hcursor : (s.view ce.epochId).CursorPresent ce) : (s.view ce.epochId).Next ce r.1 := by
  rw [engagementsFrom_eq hcursor] at h
  obtain ⟨hget, hp, hfirst⟩ := scan_head h
  obtain ⟨hepoch, hafter⟩ := behindCursor_iff.mp hp
  have hkey : r.1 = toLex (ce.epochId, r.1.record) := by
    rw [← hepoch]
    rfl
  refine ⟨hepoch, mem_engagements_iff.mpr ⟨r.2, hkey ▸ hget⟩, fun c hc => ?_,
    fun k hk hbehind => ?_⟩
  · have hlt := hafter c hc
    rw [hkey] at hlt
    exact (EngagementKey.lt_toLex_iff (hcursor c hc).1).mp hlt
  · obtain ⟨v, hv⟩ := mem_engagements_iff.mp hk
    have hle := hfirst _ v hv (behindCursor_iff.mpr ⟨rfl, fun c hc =>
      (EngagementKey.lt_toLex_iff (hcursor c hc).1).mpr (hbehind c hc)⟩)
    refine not_lt.mp fun hlt => absurd hle (not_le.mpr ?_)
    rw [hkey]
    exact (EngagementKey.lt_toLex_iff rfl).mpr hlt

theorem exhausted_of_engagementsFrom (h : engagementsFrom s ce.epochId ce.settlementCursor = [])
    (hcursor : (s.view ce.epochId).CursorPresent ce) : (s.view ce.epochId).Exhausted ce := by
  rw [engagementsFrom_eq hcursor] at h
  intro k hk
  obtain ⟨v, hv⟩ := mem_engagements_iff.mp hk
  by_contra hnot
  have hbehind : behindCursor ce (toLex (ce.epochId, k)) = true := by
    refine behindCursor_iff.mpr ⟨rfl, fun c hc => ?_⟩
    exact (EngagementKey.lt_toLex_iff (hcursor c hc).1).mpr
      (not_le.mp fun hle => hnot ⟨c, hc, hle⟩)
  have hmem := mem_scan.mpr ⟨hv, hbehind⟩
  rw [h] at hmem
  cases hmem

/-! ## 3. Settlement seen from one epoch -/

theorem view_setEpoch (s : CreatorState) (e : ℤ) (ce : CreatorEpoch) :
    { s with epochs := s.epochs.set e ce }.view e = { s.view e with record := some ce } := by
  simp only [CreatorState.view, get_set_self]

theorem view_setEpoch_of_ne (s : CreatorState) {epoch : ℤ} (ce : CreatorEpoch) (h : e ≠ epoch) :
    { s with epochs := s.epochs.set epoch ce }.view e = s.view e := by
  simp only [CreatorState.view, get_set_of_ne _ h]

theorem view_saveEpoch (s : CreatorState) (hid : ce.epochId = e) :
    (saveEpoch s ce).view e = { s.view e with record := some ce } := by
  subst hid
  exact view_setEpoch s ce.epochId ce

theorem view_saveEpoch_of_ne (s : CreatorState) {epoch : ℤ}
    (hid : ce.epochId = epoch) (hne : e ≠ epoch) : (saveEpoch s ce).view e = s.view e := by
  subst hid
  exact view_setEpoch_of_ne s ce hne

theorem view_validMarks (s : CreatorState) (marks : OrderedMap EngagementKey Unit) (e : ℤ) :
    { s with validMarks := marks }.view e = { s.view e with marks := marks.slice e } :=
  rfl

theorem flushCountActor_view (h : flushCountActor s ce = .ok (s', ce')) :
    s'.view ce.epochId = ((s.view ce.epochId).flush ce).1 ∧
      ce' = ((s.view ce.epochId).flush ce).2 ∧ ∀ e ≠ ce.epochId, s'.view e = s.view e := by
  unfold flushCountActor at h
  unfold EpochView.flush
  cases hactor : ce.partialActor with
  | none =>
    rw [hactor] at h
    cases h
    exact ⟨rfl, rfl, fun _ _ => rfl⟩
  | some actor =>
    simp only [hactor, bind_eq_ok, pure_eq_ok, Prod.mk.injEq, activeAfter] at h
    obtain ⟨active, hactive, rfl, rfl⟩ := h
    refine ⟨?_, ?_, fun e he => ?_⟩
    · simp only [CreatorState.view, slice_set_self]
    · split at hactive
      · next hpos =>
        rw [checkedAddUint64_eq_ok] at hactive
        rw [if_pos hpos, hactive.2]
      · next hzero =>
        cases hactive
        rw [if_neg hzero]
        rfl
    · simp only [CreatorState.view]
      rw [slice_set_of_ne _ (Ne.symm he)]

theorem flushForActor_view {actor : Addr} (h : flushForActor s ce actor = .ok (s', ce')) :
    s'.view ce.epochId = ((s.view ce.epochId).flushFor ce actor).1 ∧
      ce' = ((s.view ce.epochId).flushFor ce actor).2 ∧ ∀ e ≠ ce.epochId, s'.view e = s.view e := by
  unfold flushForActor at h
  unfold EpochView.flushFor
  split at h
  · next hsame =>
    cases h
    rw [if_pos hsame]
    exact ⟨rfl, rfl, fun _ _ => rfl⟩
  · next hother =>
    rw [if_neg hother]
    exact flushCountActor_view h

theorem EpochView.flush_epochId (v : EpochView) (ce : CreatorEpoch) :
    (v.flush ce).2.epochId = ce.epochId := by
  unfold EpochView.flush
  split <;> rfl

theorem EpochView.flushFor_epochId (v : EpochView) (ce : CreatorEpoch) (actor : Addr) :
    (v.flushFor ce actor).2.epochId = ce.epochId := by
  unfold EpochView.flushFor
  split
  · rfl
  · exact v.flush_epochId ce

/-- Counting a record of one epoch, seen from all of them. -/
theorem countRecord_view (h : countRecord (s, ce) r = .ok (s', ce')) :
    (∃ valid, (saveEpoch s' ce').view ce.epochId = (s.view ce.epochId).counted ce r.1 valid) ∧
      ∀ e ≠ ce.epochId, (saveEpoch s' ce').view e = s.view e := by
  simp only [countRecord, bind_eq_ok] at h
  obtain ⟨⟨s₁, ce₁⟩, hflush, valid, -, h⟩ := h
  obtain ⟨hview, hce₁, hothers⟩ := flushForActor_view hflush
  have hid : ce₁.epochId = ce.epochId := by
    rw [hce₁]
    exact EpochView.flushFor_epochId _ _ _
  simp only at hview hce₁ h
  unfold EpochView.counted
  simp only
  rw [← hview, ← hce₁, ← hid]
  cases valid with
  | true =>
    cases h
    refine ⟨⟨true, (view_saveEpoch _ rfl).trans ?_⟩, fun e he =>
      (view_saveEpoch_of_ne _ (by rfl) (by exact he)).trans ?_⟩
    · have hmarks : (s₁.validMarks.set (keyEngagement ce₁.epochId r.1.actor r.1.kind
          r.1.target) ()).slice ce₁.epochId =
          (s₁.validMarks.slice ce₁.epochId).set r.1.record () :=
        slice_set_self _ _ _ _
      rw [view_validMarks]
      simp only [hmarks]
      rfl
    · rw [view_validMarks, ← hothers e (hid ▸ he), slice_set_of_ne () (Ne.symm he)]
      rfl
  | false =>
    cases h
    refine ⟨⟨false, (view_saveEpoch _ rfl).trans ?_⟩, fun e he =>
      (view_saveEpoch_of_ne _ (by rfl) (by exact he)).trans ?_⟩
    · have hmarks : (s₁.validMarks.erase (keyEngagement ce₁.epochId r.1.actor r.1.kind
          r.1.target)).slice ce₁.epochId =
          (s₁.validMarks.slice ce₁.epochId).erase r.1.record :=
        slice_erase_self _ _ _
      rw [view_validMarks]
      simp only [hmarks]
      rfl
    · rw [view_validMarks, ← hothers e (hid ▸ he), slice_erase_of_ne (Ne.symm he)]
      rfl

theorem TargetEarning.addUnit_keeps {te te' : TargetEarning} {kind : ℕ}
    (h : te.addUnit kind = .ok te') : te'.amount = te.amount ∧ te'.creator = te.creator := by
  unfold TargetEarning.addUnit at h
  split at h <;>
  · simp only [bind_eq_ok, pure_eq_ok] at h
    obtain ⟨units, -, rfl⟩ := h
    exact ⟨rfl, rfl⟩

/-- What an allocation writes, seen from all epochs. -/
theorem applyAllocation_view {amount : ℤ} {kind : ℕ} {target : Hash}
    (h : applyAllocation s e kind target amount = .ok s') :
    (∃ post te, s.posts.get target = some post ∧
      te.amount = (s.view e).earned target + (if amount > 0 then amount else 0) ∧
      te.creator = (((s.view e).targets.get target).map TargetEarning.creator).getD post.author ∧
      s'.view e = { s.view e with
        targets := (s.view e).targets.set target te
        accruals := (s.view e).accrue e post.author (if amount > 0 then amount else 0) }) ∧
    ∀ e' ≠ e, s'.view e' = s.view e' := by
  unfold applyAllocation at h
  cases hpost : s.posts.get target with
  | none =>
    rw [hpost] at h
    cases h
  | some post =>
    simp only [hpost, bind_eq_ok] at h
    obtain ⟨te, hunit, h⟩ := h
    obtain ⟨hamount, hcreator⟩ := TargetEarning.addUnit_keeps hunit
    have hearned : te.amount = (s.view e).earned target := by
      rw [hamount]
      show _ = (((s.targets.slice e).get target).map TargetEarning.amount).getD 0
      rw [get_slice]
      cases s.targets.get (toLex (e, target)) <;> rfl
    have hauthor : te.creator =
        (((s.view e).targets.get target).map TargetEarning.creator).getD post.author := by
      rw [hcreator]
      show _ = (((s.targets.slice e).get target).map TargetEarning.creator).getD post.author
      rw [get_slice]
      cases s.targets.get (toLex (e, target)) <;> rfl
    split at h
    · next hpos =>
      cases h
      refine ⟨⟨post, { te with amount := te.amount + amount }, rfl, ?_, hauthor, ?_⟩,
        fun e' he' => ?_⟩
      · rw [if_pos hpos, ← hearned]
      · simp only [EpochView.accrue, if_pos hpos, CreatorState.view, addCreatorAccrual,
          addTargetTotal, slice_set_self, get_slice]
      · simp only [CreatorState.view, addCreatorAccrual, addTargetTotal]
        rw [slice_set_of_ne _ (Ne.symm he'), slice_set_of_ne _ (Ne.symm he')]
    · next hzero =>
      cases h
      refine ⟨⟨post, te, rfl, ?_, hauthor, ?_⟩, fun e' he' => ?_⟩
      · rw [if_neg hzero, ← hearned, add_zero]
      · simp only [EpochView.accrue, if_neg hzero, CreatorState.view, slice_set_self,
          gt_iff_lt, lt_self_iff_false, if_false]
      · simp only [CreatorState.view]
        rw [slice_set_of_ne _ (Ne.symm he')]

/-- Allocating a record of one epoch, seen from all of them. -/
theorem allocateRecord_view (hrecord : (s.view ce.epochId).record = some ce)
    (hst : ce.status = .allocating)
    (hnext : (s.view ce.epochId).CursorPresent ce → (s.view ce.epochId).Next ce r.1)
    (h : allocateRecord (s, ce) r = .ok (s', ce')) :
    EpochMove s.posts ce.epochId (s.view ce.epochId) ((saveEpoch s' ce').view ce.epochId) ∧
      ∀ e ≠ ce.epochId, (saveEpoch s' ce').view e = s.view e := by
  have hmark : s.validMarks.has (keyEngagement ce.epochId r.1.actor r.1.kind r.1.target) = true ↔
      r.1.record ∈ (s.view ce.epochId).marks.keys := by
    rw [has_iff, mem_keys]
    show _ ↔ ∃ v, (s.validMarks.slice ce.epochId).get r.1.record = some v
    simp only [get_slice]
    rfl
  unfold allocateRecord at h
  simp only at h
  split at h
  · next hmarked =>
    simp only [bind_eq_ok, failIf_eq_ok, exists_const, pure_eq_ok, Prod.mk.injEq] at h
    obtain ⟨-, s₁, happly, rfl, rfl⟩ := h
    obtain ⟨⟨post, te, hpost, hamount, hcreator, hview⟩, hothers⟩ := applyAllocation_view happly
    have hgain : (if perUnit s ce r.1.actor > 0 then perUnit s ce r.1.actor else 0) =
        (s.view ce.epochId).gain ce r.1.record := by
      have hper : perUnit s ce r.1.actor =
          ce.engagerSlice.tdiv ((s.view ce.epochId).units r.1.record.actor) := by
        show ce.engagerSlice.tdiv _ = ce.engagerSlice.tdiv _
        congr 2
        show (s.counts.get _).getD 0 = ((s.counts.slice ce.epochId).get r.1.actor).getD 0
        rw [get_slice]
      rw [EpochView.gain, ← hper]
    rw [hgain] at hamount hview
    refine ⟨?_, fun e he =>
      (view_saveEpoch_of_ne _ (by rfl) (by exact he)).trans (hothers e he)⟩
    have hafter : (saveEpoch s₁ (ce.addAllocated (perUnit s ce r.1.actor) r.1)).view ce.epochId =
        { s.view ce.epochId with
          targets := (s.view ce.epochId).targets.set r.1.target te
          accruals := (s.view ce.epochId).accrue ce.epochId post.author
            ((s.view ce.epochId).gain ce r.1.record)
          record := some { ce with
            allocatedTotal := ce.allocatedTotal + (s.view ce.epochId).gain ce r.1.record
            settlementCursor := some r.1 } } := by
      have hid : (ce.addAllocated (perUnit s ce r.1.actor) r.1).epochId = ce.epochId := rfl
      rw [view_saveEpoch _ hid, hview, ← hgain]
      simp only [CreatorEpoch.addAllocated]
      split <;> simp
    rw [hafter]
    exact .allocate hrecord hst hnext (hmark.mp hmarked) hpost hamount hcreator
  · next hunmarked =>
    cases h
    refine ⟨?_, fun e he => view_saveEpoch_of_ne _ rfl he⟩
    rw [show (saveEpoch s { ce with settlementCursor := some r.1 }).view ce.epochId = _ from
      view_saveEpoch _ rfl]
    exact .pass hrecord hst hnext fun hmem => hunmarked (hmark.mpr hmem)

theorem EpochMoves.of_eq {posts : OrderedMap Hash PostMetadata} {v v' : EpochView}
    (h : v' = v) : EpochMoves posts e v v' := by
  subst h
  exact .refl

theorem expireEpochUnallocated_view {burn : ℤ} (h : expireEpochUnallocated s ce burn = .ok s') :
    s'.view ce.epochId = { s.view ce.epochId with record := some ce.unallocated } ∧
      ∀ e ≠ ce.epochId, s'.view e = s.view e := by
  obtain ⟨bank, liability, rfl⟩ := expireEpochUnallocated_keeps h
  exact ⟨view_setEpoch s ce.epochId ce.unallocated,
    fun e he => view_setEpoch_of_ne s ce.unallocated he⟩

/-- A settlement tick is a move of an epoch in settlement, or does not touch the
epoch. -/
theorem TickCase.view {p : Params} {now : ℤ} (hkeyed : WellKeyed s) (h : TickCase p now s s')
    (e : ℤ) :
    s'.view e = s.view e ∨
      (∃ ce, (s.view e).record = some ce ∧ ce.status ≠ .expired) ∧
        EpochMove s.posts e (s.view e) (s'.view e) := by
  cases h with
  | idle => exact .inl rfl
  | drop => exact .inl rfl
  | @count epoch es ce ce' s₁ r rest hes hget hst hph hrec hcount =>
    obtain rfl := hkeyed epoch ce hget
    obtain ⟨⟨valid, hview⟩, hothers⟩ := countRecord_view hcount
    rcases eq_or_ne e ce.epochId with rfl | hne
    · rw [hview]
      exact .inr ⟨⟨ce, hget, by rw [hst]; decide⟩,
        .count hget hst (next_of_engagementsFrom hrec)⟩
    · exact .inl (hothers e hne)
  | @countNone epoch es ce ce₁ s₁ s' hes hget hst hph hrec hflush hzero hexp =>
    obtain rfl := hkeyed epoch ce hget
    obtain ⟨hview, hce₁, hothers⟩ := flushCountActor_view hflush
    obtain ⟨hview', hothers'⟩ := expireEpochUnallocated_view hexp
    have hid : ce₁.epochId = ce.epochId := hce₁ ▸ EpochView.flush_epochId _ _
    rw [hid] at hview' hothers'
    rcases eq_or_ne e ce.epochId with rfl | hne
    · rw [hview', hview, hce₁]
      exact .inr ⟨⟨ce, hget, by rw [hst]; decide⟩,
        .countNone hget hst (exhausted_of_engagementsFrom hrec) (hce₁ ▸ hzero)⟩
    · exact .inl ((hothers' e hne).trans (hothers e hne))
  | @countDone epoch es ce ce₁ s₁ hes hget hst hph hrec hflush hpos =>
    obtain rfl := hkeyed epoch ce hget
    obtain ⟨hview, hce₁, hothers⟩ := flushCountActor_view hflush
    have hid : ce₁.allocating.epochId = ce.epochId := hce₁ ▸ EpochView.flush_epochId _ _
    rcases eq_or_ne e ce.epochId with rfl | hne
    · rw [view_saveEpoch _ hid, hview, hce₁]
      exact .inr ⟨⟨ce, hget, by rw [hst]; decide⟩,
        .countDone hget hst (exhausted_of_engagementsFrom hrec) (hce₁ ▸ hpos)⟩
    · exact .inl ((view_saveEpoch_of_ne _ hid hne).trans (hothers e hne))
  | @allocate epoch es ce ce' s₁ r rest hes hget hst hph hrec halloc =>
    obtain rfl := hkeyed epoch ce hget
    obtain ⟨hmove, hothers⟩ := allocateRecord_view hget hst (next_of_engagementsFrom hrec) halloc
    rcases eq_or_ne e ce.epochId with rfl | hne
    · exact .inr ⟨⟨ce, hget, by rw [hst]; decide⟩, hmove⟩
    · exact .inl (hothers e hne)
  | @finish epoch es ce s' hes hget hst hph hrec hfin =>
    obtain rfl := hkeyed epoch ce hget
    have hdone := exhausted_of_engagementsFrom hrec
    obtain ⟨hle, ⟨hzero, hexp⟩ | ⟨hpos, deadline, -, rfl⟩⟩ := finishAllocate_keeps hfin
    · obtain ⟨hview, hothers⟩ := expireEpochUnallocated_view hexp
      rcases eq_or_ne e ce.epochId with rfl | hne
      · rw [hview]
        exact .inr ⟨⟨ce, hget, by rw [hst]; decide⟩, .finishNone hget hst hdone hle hzero⟩
      · exact .inl (hothers e hne)
    · rcases eq_or_ne e ce.epochId with rfl | hne
      · have hview := view_setEpoch s ce.epochId
          (ce.payable s.clock p.creatorClaimWindowDays deadline)
        exact .inr ⟨⟨ce, hget, by rw [hst]; decide⟩, hview ▸ .finish hget hst hdone hle hpos⟩
      · exact .inl (view_setEpoch_of_ne s
          (ce.payable s.clock p.creatorClaimWindowDays deadline) hne)

theorem TickCase.moves {p : Params} {now : ℤ} (hkeyed : WellKeyed s)
    (h : TickCase p now s s') (e : ℤ) : EpochMoves s.posts e (s.view e) (s'.view e) := by
  rcases h.view hkeyed e with hsame | ⟨-, hmove⟩
  · exact .of_eq hsame
  · exact .single hmove

end MirageNode
