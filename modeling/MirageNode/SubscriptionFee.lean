import MirageNode.EpochLife
import MirageNode.Genesis
import MirageNode.SubscriptionSpec

/-!
# Where a subscription fee goes

`CreateTranche` takes one number, the fee, through a checked product, a split by basis
points, a burn, a transfer, the debt to the creators and the stream. Every part arrives
where it should: what the payer loses is burned or pooled, and pool, debt and stream grow by
the same amount.

The comment on `SplitCreatorFee` gives the indivisible remainder to the creators, but the
code rounds the creators' part down and burns the remainder. The two agree where nothing is
left over (`subscription_fee_conserved`), and differ on the comment's own example
(`creatorFee_of_seven`). The stream grows by the creators' part if no breakpoint has the new
tranche's number yet, as in every run that sells fewer than 2^63 tranches
(`CreatorRun.numberFree`).
-/

namespace MirageNode

open OrderedStore OrderedMap RateAccumulator Fallible

/-! ## The stream -/

/-- What the breakpoints of a stream have scheduled, in units of the stream scale: a rate
that starts at `t` and stops at `t'` delivers `rate * (t' - t)`, and each breakpoint adds its
own amount. -/
def CreatorStream.scheduled (s : CreatorStream) : ℤ :=
  s.pending.sum fun k b => b.accDelta - b.rateDelta * (ofLex k).1

/-- No breakpoint has the number of the tranche. -/
def CreatorStream.NumberFree (s : CreatorStream) (id : ℕ) : Prop :=
  ∀ t edge, s.pending.get (toLex (t, breakpointSeq id edge)) = none

variable {now : ℤ}

theorem anchorIfUnused_pending {s s' : CreatorStream}
    (h : anchorIfUnused s now = .ok s') : s'.pending = s.pending := by
  unfold anchorIfUnused at h
  split at h
  · simp only [anchorCreatorStream, setCreatorStreamCursor, bind_eq_ok, failIf_eq_ok, pure_eq_ok,
      exists_const] at h
    obtain ⟨_, ⟨-, rfl⟩, rfl⟩ := h
    rfl
  · exact Except.ok.inj h ▸ rfl

variable {amount : ℤ}

/-- A tranche is scheduled with exactly its amount: the deficit makes up for the rounding of
the rate. -/
theorem scheduled_of_schedule {s s' : CreatorStream} {start stop : ℤ} {id : ℕ}
    (hfree : s.NumberFree id)
    (h : scheduleCreatorStreamTranche now s id amount start stop = .ok s') :
    s'.scheduled = s.scheduled + amount * creatorStreamScale := by
  obtain ⟨hwindow, ⟨hzero, rfl⟩ | ⟨-, s₁, hanchor, -, rfl⟩⟩ := schedule_eq_ok h
  · rw [hzero, zero_mul, add_zero]
  · have hpending := anchorIfUnused_pending hanchor
    have hstart : s₁.pending.get (toLex (start, breakpointSeq id .start)) = none := by
      rw [hpending]
      exact hfree start .start
    have hstop : (s₁.pending.set (toLex (start, breakpointSeq id .start))
        ⟨trancheRate amount start stop, 0⟩).get (toLex (stop, breakpointSeq id .finish)) =
          none := by
      have hne : (toLex (stop, breakpointSeq id .finish) : ℤ ×ₗ ℕ) ≠
          toLex (start, breakpointSeq id .start) := by
        intro heq
        exact hwindow.ne' (congrArg Prod.fst (toLex.injective heq))
      rw [get_set_of_ne _ hne, hpending]
      exact hfree stop .finish
    have hfirst : (s₁.pending.set (toLex (start, breakpointSeq id .start))
        ⟨trancheRate amount start stop, 0⟩).sum
          (fun k b => b.accDelta - b.rateDelta * (ofLex k).1) =
        0 - trancheRate amount start stop * start + s.scheduled := by
      rw [sum_set_of_none _ _ hstart, hpending]
      rfl
    show (OrderedMap.set _ _ _).sum _ = _
    rw [sum_set_of_none _ _ hstop, hfirst]
    show trancheDeficit amount start stop - -trancheRate amount start stop * stop +
      (0 - trancheRate amount start stop * start + s.scheduled) = _
    rw [trancheDeficit]
    ring

variable {k : ℤ ×ₗ ℕ} {b : Breakpoint}

theorem scheduleCreatorStreamTranche_pending {s s' : CreatorStream} {start stop : ℤ}
    {id : ℕ} (h : scheduleCreatorStreamTranche now s id amount start stop = .ok s')
    (hget : s'.pending.get k = some b) :
    s.pending.get k = some b ∨ ∃ edge, (ofLex k).2 = breakpointSeq id edge := by
  obtain ⟨-, ⟨-, rfl⟩ | ⟨-, s₁, hanchor, -, rfl⟩⟩ := schedule_eq_ok h
  · exact .inl hget
  simp only [get_set] at hget
  split at hget
  · next hk => exact .inr ⟨.finish, by rw [hk]; rfl⟩
  split at hget
  · next hk => exact .inr ⟨.start, by rw [hk]; rfl⟩
  · exact .inl (anchorIfUnused_pending hanchor ▸ hget)

/-! ## The fee -/

/-- What a purchase does with a fee of which the creators get `creator`. -/
structure FeeTaken (s s' : ChainState) (payer : Addr) (fee burn creator : ℕ) : Prop where
  split : burn + creator = fee
  debited : s.creator.bank.spendable payer = s'.creator.bank.spendable payer + fee
  others : ∀ a, a ≠ payer → s'.creator.bank.spendable a = s.creator.bank.spendable a
  supply : s.creator.bank.supply = s'.creator.bank.supply + burn
  pool : s'.creator.bank.creatorPool = s.creator.bank.creatorPool + creator
  liability : s'.creator.liability = s.creator.liability + creator
  scheduled : s'.creator.stream.scheduled =
    s.creator.stream.scheduled + creator * creatorStreamScale

variable {rules : TextRules} {ctx : BlockCtx} {s s' : ChainState} {payer recipient : Addr}
  {source : TrancheSource} {n : ℕ}

/-- The creators get their share of the whole fee rounded down. -/
theorem createTranche_feeTaken (h : createTranche rules ctx s payer recipient source n = .ok s')
    (hfree : s.creator.stream.NumberFree (s.creator.trancheSeq + 1)) :
    ∃ tier, s.params.getTierConfig levelSubscriber = some tier ∧ ∃ burn creator,
      FeeTaken s s' payer (tier.periodFee * n) burn creator ∧
      s.params.subscriptionCreatorBps ≤ basisPointsDenominator ∧
      creator =
        tier.periodFee * n * s.params.subscriptionCreatorBps / basisPointsDenominator := by
  obtain ⟨-, -, core, tr, c, c', s₁, -, htr, hc, hs₁, hc', rfl⟩ := createTranche_eq_ok h
  obtain ⟨hid, hbps, tier, htier, hsum, hcreator⟩ := quoteTranche_fee htr
  obtain ⟨hpaid, hliability, hstream, -⟩ := takeTrancheFee_eq_ok hc
  obtain ⟨-, -, hkept⟩ := extendSubscription_writes hs₁
  simp only [recordTranche, bind_eq_ok, pure_eq_ok] at hc'
  obtain ⟨stream, hschedule, rfl⟩ := hc'
  rw [hkept] at hschedule
  rw [hid, hstream] at hschedule
  refine ⟨tier, htier, tr.burnAmount, tr.creatorAmount, ?_, hbps, hcreator⟩
  refine ⟨hsum, ?_, ?_, ?_, ?_, ?_, scheduled_of_schedule hfree hschedule⟩ <;>
    simp only [hkept]
  · rw [← hsum]
    exact hpaid.debited
  · exact hpaid.others
  · exact hpaid.supply
  · exact hpaid.pool
  · exact hliability

/-- The documented split agrees with the code's exactly where the share divides: both round
down, so they make the fee together only if neither rounds. -/
theorem documented_burn_iff {fee bps burn creator : ℕ} (hbps : bps ≤ basisPointsDenominator)
    (hsum : burn + creator = fee) (hcreator : creator = fee * bps / basisPointsDenominator) :
    burn = fee * (basisPointsDenominator - bps) / basisPointsDenominator ↔
      basisPointsDenominator ∣ fee * bps := by
  have htotal : burn * basisPointsDenominator + creator * basisPointsDenominator =
      fee * (basisPointsDenominator - bps) + fee * bps := by
    rw [← Nat.add_mul, hsum, ← Nat.mul_add, Nat.sub_add_cancel hbps]
  constructor
  · intro hburn
    have hburned : burn * basisPointsDenominator ≤ fee * (basisPointsDenominator - bps) :=
      hburn ▸ Nat.div_mul_le_self _ _
    have hshare : creator * basisPointsDenominator ≤ fee * bps :=
      hcreator ▸ Nat.div_mul_le_self _ _
    exact Dvd.intro_left creator (by omega)
  · intro hdvd
    have hshare : creator * basisPointsDenominator = fee * bps :=
      hcreator ▸ Nat.div_mul_cancel hdvd
    have hburned : burn * basisPointsDenominator = fee * (basisPointsDenominator - bps) := by
      omega
    rw [← hburned, Nat.mul_div_cancel _ (by decide)]

/-- In every purchase the payer loses the fee, supply falls by the burned part, and pool, debt
and stream grow by the creators' part. The two parts are the documented ones exactly where the
creators' share is a whole number of coins. -/
theorem subscription_fee_conserved (h : createTranche rules ctx s payer recipient source n = .ok s')
    (hfree : s.creator.stream.NumberFree (s.creator.trancheSeq + 1)) :
    ∃ tier, s.params.getTierConfig levelSubscriber = some tier ∧ ∃ burn creator,
      FeeTaken s s' payer (tier.periodFee * n) burn creator ∧
      creator = tier.periodFee * n - burn ∧
      (burn = tier.periodFee * n * (basisPointsDenominator - s.params.subscriptionCreatorBps) /
          basisPointsDenominator ↔
        basisPointsDenominator ∣ tier.periodFee * n * s.params.subscriptionCreatorBps) := by
  obtain ⟨tier, htier, burn, creator, htaken, hbps, hcreator⟩ := createTranche_feeTaken h hfree
  refine ⟨tier, htier, burn, creator, htaken, ?_, ?_⟩
  · rw [← htaken.split, Nat.add_sub_cancel_left]
  · exact documented_burn_iff hbps htaken.split hcreator

/-! ## Free numbers

A number is free as long as the 64-bit breakpoint numbers of 2^63 tranches have not been used
up: only `CreateTranche` writes breakpoints, under the number after the last one. -/

/-- Nothing is sold, and breakpoints only disappear. -/
structure Thinned (s s' : CreatorState) : Prop where
  trancheSeq : s'.trancheSeq = s.trancheSeq
  pending : ∀ k b, s'.stream.pending.get k = some b → s.stream.pending.get k = some b

theorem Thinned.of_eq {s s' : CreatorState} (hseq : s'.trancheSeq = s.trancheSeq)
    (hstream : s'.stream = s.stream) : Thinned s s' :=
  ⟨hseq, fun _ _ hget => hstream ▸ hget⟩

theorem integrateCreatorStream_pending {s s' : CreatorStream} {at_ : ℤ}
    (h : integrateCreatorStream s at_ = .ok s') : s'.pending = s.pending := by
  unfold integrateCreatorStream at h
  split at h
  · simp only [bind_eq_ok, pure_eq_ok] at h
    obtain ⟨_, -, _, -, rfl⟩ := h
    rfl
  · exact Except.ok.inj h ▸ rfl

theorem applyBreakpoint_pending {s s' : CreatorStream} {e : (ℤ ×ₗ ℕ) × Breakpoint}
    (h : applyBreakpoint s e = .ok s') : s'.pending = s.pending.erase e.1 := by
  simp only [applyBreakpoint, bind_eq_ok, failIf_eq_ok, exists_const, pure_eq_ok] at h
  obtain ⟨s₁, hint, _, -, _, -, -, rfl⟩ := h
  rw [← integrateCreatorStream_pending hint]

theorem settleCreatorStream_pending {s s' : CreatorStream} {upto reached : ℤ} {budget : ℕ}
    (h : settleCreatorStream s upto budget = .ok (s', reached)) (hget : s'.pending.get k = some b) :
    s.pending.get k = some b := by
  unfold settleCreatorStream at h
  split at h
  · simp only [anchorCreatorStream, setCreatorStreamCursor, bind_eq_ok, failIf_eq_ok, exists_const,
      pure_eq_ok, Prod.mk.injEq] at h
    obtain ⟨_, ⟨_, ⟨-, rfl⟩, rfl⟩, rfl, -⟩ := h
    exact hget
  simp only [bind_eq_ok, failIf_eq_ok, exists_const] at h
  obtain ⟨-, h⟩ := h
  split at h
  · cases h
    exact hget
  simp only [bind_eq_ok, setCreatorStreamCursor, failIf_eq_ok, exists_const, pure_eq_ok,
    Prod.mk.injEq] at h
  obtain ⟨s₁, hfold, s₂, hint, _, ⟨-, rfl⟩, rfl, -⟩ := h
  -- the passes only erase; what is integrated after them is not a breakpoint
  have hsub := foldlM_ok_induction
    (P := fun s₁ : CreatorStream => s₁.pending.get k = some b → s.pending.get k = some b)
    (fun s₂ _ e _ hstep ih hget₃ => ih (get_of_get_erase
      (applyBreakpoint_pending hstep ▸ hget₃))) hfold id
  exact hsub (integrateCreatorStream_pending hint ▸ hget)

theorem drawCreatorStream_pending {s s' : CreatorStream} {boundary : ℤ} {budget : ℕ}
    {complete : Bool} (h : drawCreatorStream s boundary budget = .ok (s', amount, complete))
    (hget : s'.pending.get k = some b) : s.pending.get k = some b := by
  simp only [drawCreatorStream, bind_eq_ok] at h
  obtain ⟨⟨s₁, reached⟩, hsettle, h⟩ := h
  refine settleCreatorStream_pending hsettle ?_
  split at h
  · cases h
    exact hget
  simp only [bind_eq_ok, failIf_eq_ok, exists_const] at h
  obtain ⟨_, -, -, h⟩ := h
  split at h
  · cases h
    exact hget
  · cases h
    exact hget

theorem ClockMove.thinned {p : Params} {sched : CreatorSchedule} {target : ℤ} {s s' : CreatorState}
    {again : Bool} (h : ClockMove p sched target s s' again) : Thinned s s' := by
  cases h with
  | jump => exact .of_eq rfl rfl
  | wait _ _ _ hdraw => exact ⟨rfl, fun _ _ => drawCreatorStream_pending hdraw⟩
  | close _ _ _ hdraw hcredit hclose =>
    obtain ⟨_, _, _, rfl⟩ := closeCreatorEpoch_frame hclose
    obtain ⟨_, _, rfl⟩ := creditEpoch_frame hcredit
    exact ⟨rfl, fun _ _ => drawCreatorStream_pending hdraw⟩

theorem Regrid.thinned {p : Params} {newSeconds : ℕ} {s s' : CreatorState}
    (h : Regrid p now newSeconds s s') : Thinned s s' := by
  cases h with
  | keep => exact .of_eq rfl rfl
  | first _ _ hanchor =>
    exact ⟨rfl, fun _ _ hget => anchorIfUnused_pending hanchor ▸ hget⟩
  | @restart sched amount clock stream stream' s₁ s₂ _ hdraw hcredit hclose _ hanchor =>
    obtain ⟨_, htruncate⟩ := truncate_frame s₁ s.clock now
    rw [htruncate] at hclose
    obtain ⟨_, _, _, rfl⟩ := closeCreatorEpoch_frame hclose
    obtain ⟨_, _, rfl⟩ := creditEpoch_frame hcredit
    exact ⟨rfl, fun _ _ hget =>
      drawCreatorStream_pending hdraw (anchorIfUnused_pending hanchor ▸ hget)⟩

/-- Every breakpoint has the number of a tranche sold so far. -/
def CreatorState.Numbered (s : CreatorState) : Prop :=
  ∀ k b, s.stream.pending.get k = some b →
    ∃ id ≤ s.trancheSeq, ∃ edge, (ofLex k).2 = breakpointSeq id edge

theorem CreatorState.Numbered.thinned {s s' : CreatorState} (hs : s.Numbered)
    (h : Thinned s s') : s'.Numbered := by
  intro k b hget
  rw [h.trancheSeq]
  exact hs k b (h.pending k b hget)

theorem CreatorState.Numbered.fund {now : ℤ} {s s' : CreatorState} {tr : SubscriptionTranche}
    (hs : s.Numbered) (hid : tr.id = s.trancheSeq + 1) (h : fundTranche now s tr = .ok s') :
    s'.Numbered := by
  simp only [fundTranche, recordTranche, bind_eq_ok, pure_eq_ok] at h
  obtain ⟨s₁, hfee, stream, hschedule, rfl⟩ := h
  obtain ⟨-, -, hstream, -⟩ := takeTrancheFee_eq_ok hfee
  have hold : ∀ k b, s.stream.pending.get k = some b →
      ∃ id ≤ tr.id, ∃ edge, (ofLex k).2 = breakpointSeq id edge := by
    intro k b hget
    obtain ⟨id, hle, hedge⟩ := hs k b hget
    exact ⟨id, by omega, hedge⟩
  intro k b hget
  rcases scheduleCreatorStreamTranche_pending hschedule hget with hget | ⟨edge, hedge⟩
  · exact hold k b (hstream ▸ hget)
  · exact ⟨tr.id, le_rfl, edge, hedge⟩

theorem CreatorStep.numbered {s s' : CreatorState} (h : CreatorStep now s s')
    (hs : s.Numbered) : s'.Numbered := by
  cases h with
  | claim _ hclaim =>
    obtain ⟨items, bank, -, -, -, -, -, -, rfl⟩ := claimCreatorRewards_items hclaim
    obtain ⟨_, _, _, hfold⟩ := foldl_applyClaim_frame _ _ items s
    rw [hfold]
    exact hs.thinned (.of_eq rfl rfl)
  | work hwork =>
    rcases hwork.keeps.2.1 with ⟨hseq, hstream⟩ | ⟨tr, hid, hfund⟩ | ⟨_, _, _, _, hmove⟩ |
      ⟨_, _, hregrid⟩
    · exact hs.thinned (.of_eq hseq hstream)
    · exact hs.fund hid hfund
    · exact hs.thinned hmove.thinned
    · exact hs.thinned hregrid.thinned

/-- The number of the next tranche is free in every run, while fewer than 2^63 are sold. -/
theorem CreatorRun.numberFree {s₀ s : CreatorState} {t₀ t : ℤ} (h : CreatorRun s₀ t₀ s t)
    (hs₀ : WellPlaced s₀) (hnumbered : s₀.Numbered) (hsold : s.trancheSeq + 1 < 2 ^ 63) :
    s.stream.NumberFree (s.trancheSeq + 1) := by
  have hrun : s.Numbered := (h.induction (P := fun _ s => s.Numbered)
    (fun _ _ _ _ hs => hs) (fun _ _ _ _ hstep hs => hstep.numbered hs) hs₀ hnumbered).2
  intro time edge
  by_contra hget
  obtain ⟨b, hget⟩ := Option.ne_none_iff_exists'.mp hget
  obtain ⟨id, hle, edge', hedge⟩ := hrun _ b hget
  have hsame := CreatorStreamLemmas.breakpointSeq_inj hsold (by omega) hedge
  omega

/-- A first purchase takes number 1 and leaves number 2 free. -/
theorem numberFree_second : ∃ s, CreatorRun (.empty ⟨OrderedMap.empty.set 7 100, 0, 0⟩) 0 s 10 ∧
    s.stream.NumberFree 2 := by
  generalize hbank : Bank.mk (OrderedMap.empty.set 7 100) 0 0 = bank
  have hok : ((fundTranche 10 (.empty bank)
      ⟨1, 7, 7, .selfPurchase, 10, 20, 1, 8, 4, 4, 5000, 1, 1⟩).toOption.map
      CreatorState.trancheSeq) = some 1 := by
    rw [← hbank]
    decide +kernel
  obtain ⟨s, hs, hseq⟩ := Option.map_eq_some_iff.mp hok
  have hrun : CreatorRun (.empty bank) 0 s 10 :=
    .step ⟨10, 1, 0⟩ (.fund _) .start (by decide) ⟨rfl, le_refl (10 : ℤ)⟩ (toOption_eq_some.mp hs)
  have hplaced : WellPlaced (.empty bank) :=
    ⟨fun _ _ h => (by cases h), fun _ => ⟨fun _ h => (by cases h), fun h => (by cases h)⟩⟩
  refine ⟨s, hrun, ?_⟩
  have hfree := hrun.numberFree hplaced (fun _ _ h => by cases h)
  rw [hseq] at hfree
  exact hfree (by decide)

/-! ## A purchase -/

/-- Account 7 has a profile and 100 coins, and a period costs `fee`. -/
def beforePurchase (fee : ℕ) : ChainState :=
  let tier : TierConfig := ⟨fee, 500, 500, 500, 500, 500, 300, 20000, true, 512, 10, 1000⟩
  let params := { defaultParams with tiers := defaultTiers.set 1 tier }
  { ChainState.fresh ⟨OrderedMap.empty.set 7 100, 0, 0⟩ .empty params with
    profiles := OrderedMap.empty.set 7 ⟨none, 0, 0, false, false, 0⟩ }

/-- Account 7 buys one period. -/
def buyPeriod (fee : ℕ) : Except ChainError ChainState :=
  createTranche plainRules ⟨1000, 1, 0⟩ (beforePurchase fee) 7 7 .selfPurchase 1

/-- Spendable coins of account 7, supply, pool and debt. -/
def ChainState.coins (s : ChainState) : ℕ × ℕ × ℕ × ℤ :=
  (s.creator.bank.spendable 7, s.creator.bank.supply, s.creator.bank.creatorPool,
    s.creator.liability)

theorem beforePurchase_numberFree (fee id : ℕ) :
    (beforePurchase fee).creator.stream.NumberFree id :=
  fun _ _ => rfl

/-- A fee of 8 at 5000 basis points is halved. -/
theorem subscription_fee_conserved_eight : ∃ s',
    buyPeriod 8 = .ok s' ∧ ∃ burn creator, FeeTaken (beforePurchase 8) s' 7 8 burn creator ∧
      burn = 4 ∧ creator = 4 := by
  have hok : (buyPeriod 8).toOption.isSome = true := by decide +kernel
  obtain ⟨s', h⟩ := Option.isSome_iff_exists.mp hok
  have h := toOption_eq_some.mp h
  obtain ⟨tier, htier, burn, creator, htaken, hcreator, hburn⟩ :=
    subscription_fee_conserved h (beforePurchase_numberFree 8 _)
  obtain rfl := Option.some.inj htier
  obtain rfl : burn = 4 := hburn.mpr (by decide)
  exact ⟨s', h, 4, creator, htaken, rfl, hcreator⟩

/-- The fee of 7 of the source's comment: 4 coins are burned and the creators get 3, where the
comment burns 3 and gives them 4. -/
theorem creatorFee_of_seven :
    (beforePurchase 7).params.subscriptionCreatorBps = 5000 ∧
    (beforePurchase 7).coins = (100, 100, 0, 0) ∧
    (buyPeriod 7).toOption.map ChainState.coins = some (93, 96, 3, 3) ∧
    7 * (basisPointsDenominator - 5000) / basisPointsDenominator = 3 := by
  refine ⟨rfl, by decide +kernel, by decide +kernel, by decide⟩

end MirageNode
