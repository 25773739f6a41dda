import MirageNode.Chain

/-!
# What the subscription functions write

Each function of `keeper/paid.go` and `keeper/tranche.go` that changes a subscription
writes one profile, the curation store, the expiry index and the renewal schedule. The
lemmas here say what comes out of each of them, so that later proofs need not unfold them.
-/

namespace MirageNode

open OrderedStore OrderedMap Fallible

variable {rules : TextRules} {ctx : BlockCtx} {s s' : ChainState} {owner : Addr}

theorem saveAndTransition_frame {before after : ProfileCore}
    (h : saveAndTransition rules ctx s owner before after = .ok s') :
    ∃ c, transitionCurationEligibility rules s.params ctx.height (s.profiles.set owner after)
        s.curation owner (canCurate before) (canCurate after) = .ok c ∧
      s' = { s with profiles := s.profiles.set owner after, curation := c } := by
  obtain ⟨c, hc, hs'⟩ := bind_eq_ok.mp h
  exact ⟨c, hc, (Except.ok.inj hs').symm⟩

theorem replaceSubscriptionRenewalSchedule_frame (now : ℤ) (s : ChainState) (owner : Addr) :
    ∃ renewals queue, replaceSubscriptionRenewalSchedule now s owner =
      { s with renewals := renewals, renewalQueue := queue } := by
  unfold replaceSubscriptionRenewalSchedule
  dsimp only
  split
  · exact ⟨_, _, rfl⟩
  · split <;> exact ⟨_, _, rfl⟩

theorem deactivatePaidState_eq_ok (h : deactivatePaidState rules ctx s owner = .ok s') :
    ∃ core c, s.profiles.get owner = some core ∧
      transitionCurationEligibility rules s.params ctx.height
        (s.profiles.set owner core.deactivated) s.curation owner (canCurate core)
        (canCurate core.deactivated) = .ok c ∧
      s' = replaceSubscriptionRenewalSchedule ctx.time
        { s with profiles := s.profiles.set owner core.deactivated, curation := c } owner := by
  unfold deactivatePaidState at h
  cases hcore : s.profiles.get owner with
  | none => simp [hcore] at h
  | some core =>
    simp only [hcore, bind_eq_ok, pure_eq_ok] at h
    obtain ⟨s₁, h₁, rfl⟩ := h
    obtain ⟨c, hc, rfl⟩ := saveAndTransition_frame h₁
    exact ⟨core, c, rfl, hc, rfl⟩

theorem dropSubscription_eq (s : ChainState) (owner : Addr) (core : ProfileCore) :
    dropSubscription s owner core = { s with subs := (dropSubscription s owner core).subs } := by
  unfold dropSubscription
  split <;> rfl

theorem dropSubscription_subs (s : ChainState) (owner : Addr) (core : ProfileCore) :
    (dropSubscription s owner core).subs =
      if core.subscriptionExpiry > 0 then s.subs.erase (toLex (core.subscriptionExpiry, owner))
      else s.subs := by
  unfold dropSubscription
  split <;> rfl

theorem activatePaidState_eq_ok {core : ProfileCore} (hcore : s.profiles.get owner = some core)
    (h : activatePaidState rules ctx s owner = .ok s') :
    core.effectivePaid = true ∧ s' = s ∨
      core.effectivePaid = false ∧ ctx.time < core.subscriptionExpiry ∧ ∃ c,
        transitionCurationEligibility rules s.params ctx.height
          (s.profiles.set owner core.activated) s.curation owner (canCurate core)
          (canCurate core.activated) = .ok c ∧
        s' = { s with profiles := s.profiles.set owner core.activated, curation := c } := by
  unfold activatePaidState at h
  simp only [hcore] at h
  split at h
  next hpaid => exact .inl ⟨hpaid, (Except.ok.inj h).symm⟩
  next hpaid =>
    simp only [bind_eq_ok, failIf_eq_ok, exists_const] at h
    obtain ⟨htime, h⟩ := h
    exact .inr ⟨by simpa using hpaid, not_le.mp htime, saveAndTransition_frame h⟩

/-- A profile after its subscription was set to end at `stop`. -/
def ProfileCore.extended (core : ProfileCore) (autoRenew : Bool) (stop : ℤ) : ProfileCore :=
  if core.effectivePaid then { core with subscriptionExpiry := stop, autoRenew := autoRenew }
  else ({ core with subscriptionExpiry := stop, autoRenew := autoRenew } : ProfileCore).activated

namespace ProfileCore

variable (core : ProfileCore) (autoRenew : Bool) (stop : ℤ)

@[simp] theorem extended_username : (core.extended autoRenew stop).username = core.username := by
  unfold extended
  split <;> rfl

@[simp] theorem extended_subscriptionExpiry :
    (core.extended autoRenew stop).subscriptionExpiry = stop := by
  unfold extended
  split <;> rfl

@[simp] theorem extended_effectivePaid : (core.extended autoRenew stop).effectivePaid = true := by
  unfold extended
  split
  next h => exact h
  next => rfl

end ProfileCore

/-- The index after the subscription of an account was moved to a new end. -/
def ChainState.resubscribed (s : ChainState) (owner : Addr) (core : ProfileCore) (stop : ℤ) :
    OrderedMap (ℤ ×ₗ Addr) ℤ :=
  (dropSubscription s owner core).subs.set (toLex (stop, owner)) levelSubscriber

/-- The end of a subscription moves to `stop`; curation records move only when the account
was not paid before. -/
theorem extendSubscription_eq_ok {core : ProfileCore} {autoRenew : Bool} {stop : ℤ}
    (h : extendSubscription rules ctx s owner core autoRenew stop = .ok s') :
    0 < stop ∧ (core.effectivePaid = false → ctx.time < stop) ∧ ∃ c,
      (core.effectivePaid = true ∧ c = s.curation ∨ core.effectivePaid = false ∧
        transitionCurationEligibility rules s.params ctx.height
          (s.profiles.set owner (core.extended autoRenew stop)) s.curation owner (canCurate core)
          (canCurate (core.extended autoRenew stop)) = .ok c) ∧
      s' = replaceSubscriptionRenewalSchedule ctx.time
        { s with
          profiles := s.profiles.set owner (core.extended autoRenew stop)
          curation := c
          subs := s.resubscribed owner core stop } owner := by
  simp only [extendSubscription, bind_eq_ok, pure_eq_ok] at h
  obtain ⟨s₁, h₁, s₂, h₂, rfl⟩ := h
  simp only [setSubscription, bind_eq_ok, failIf_eq_ok, pure_eq_ok, exists_const] at h₂
  obtain ⟨hpos, rfl⟩ := h₂
  refine ⟨not_le.mp hpos, ?_⟩
  rw [dropSubscription_eq] at h₁
  -- the profile is written twice, and what is written last stays
  rcases activatePaidState_eq_ok (get_set_self _ _ _) h₁ with
    ⟨hpaid, rfl⟩ | ⟨hpaid, htime, c, hc, rfl⟩
  · have hpaid : core.effectivePaid = true := hpaid
    refine ⟨fun h => absurd (hpaid.symm.trans h) (by decide), s.curation, .inl ⟨hpaid, rfl⟩, ?_⟩
    rw [ProfileCore.extended, if_pos hpaid]
    rfl
  · have hpaid : core.effectivePaid = false := hpaid
    have hextended : core.extended autoRenew stop = ({ core with
        subscriptionExpiry := stop, autoRenew := autoRenew } : ProfileCore).activated := by
      rw [ProfileCore.extended, hpaid]
      rfl
    simp only [ChainState.saveProfile, set_set] at hc ⊢
    rw [hextended]
    exact ⟨fun _ => htime, c, .inr ⟨hpaid, hc⟩, rfl⟩

theorem replaceSubscriptionRenewalSchedule_same (now : ℤ) (s : ChainState) (owner : Addr) :
    (replaceSubscriptionRenewalSchedule now s owner).profiles = s.profiles ∧
      (replaceSubscriptionRenewalSchedule now s owner).subs = s.subs ∧
      (replaceSubscriptionRenewalSchedule now s owner).creator = s.creator := by
  obtain ⟨_, _, hframe⟩ := replaceSubscriptionRenewalSchedule_frame now s owner
  rw [hframe]
  exact ⟨rfl, rfl, rfl⟩

theorem extendSubscription_writes {core : ProfileCore} {autoRenew : Bool} {stop : ℤ}
    (h : extendSubscription rules ctx s owner core autoRenew stop = .ok s') :
    s'.profiles = s.profiles.set owner (core.extended autoRenew stop) ∧
      s'.subs = s.resubscribed owner core stop ∧ s'.creator = s.creator := by
  obtain ⟨-, -, c, -, rfl⟩ := extendSubscription_eq_ok h
  exact replaceSubscriptionRenewalSchedule_same ctx.time _ owner

theorem deactivatePaidState_writes (h : deactivatePaidState rules ctx s owner = .ok s') :
    ∃ core, s.profiles.get owner = some core ∧
      s'.profiles = s.profiles.set owner core.deactivated ∧ s'.subs = s.subs ∧
      s'.creator = s.creator := by
  obtain ⟨core, c, hcore, -, rfl⟩ := deactivatePaidState_eq_ok h
  exact ⟨core, hcore, replaceSubscriptionRenewalSchedule_same ctx.time _ owner⟩

/-! ## Buying periods -/

variable {n : ℕ}

theorem int64_of_lt (h : n < 2 ^ 63) : int64 n = n :=
  Int.bmod_eq_of_le_mul_two (by omega) (by omega)

/-- The creators get their share of the fee rounded down, and the rest is burned. -/
theorem splitCreatorFee_eq_ok {fee bps : ℕ} {split : ℕ × ℕ}
    (h : splitCreatorFee fee bps = .ok split) : bps ≤ basisPointsDenominator ∧
      split.1 + split.2 = fee ∧ split.2 = fee * bps / basisPointsDenominator := by
  simp only [splitCreatorFee, bind_eq_ok, failIf_eq_ok, exists_const] at h
  obtain ⟨hbps, h⟩ := h
  refine ⟨not_lt.mp hbps, ?_⟩
  split at h
  next hzero =>
    obtain rfl := pure_eq_ok.mp h
    have hnone : fee * bps = 0 := mul_eq_zero.mpr hzero
    exact ⟨rfl, by rw [hnone, Nat.zero_div]⟩
  next =>
    simp only [bind_eq_ok, failIf_eq_ok, pure_eq_ok, exists_const] at h
    obtain ⟨-, rfl⟩ := h
    -- the creators get at most the whole fee
    have hle : fee * bps / basisPointsDenominator ≤ fee := by
      refine Nat.div_le_of_le_mul ?_
      rw [mul_comm basisPointsDenominator]
      exact Nat.mul_le_mul_left fee (not_lt.mp hbps)
    exact ⟨Nat.sub_add_cancel hle, rfl⟩

variable {recipient : Addr} {source : TrancheSource} {tr : SubscriptionTranche}

/-- The fee of an offer, for any parameters. -/
theorem quoteTranche_fee {p : Params} {id : ℕ} {payer : Addr} {expiry : ℤ}
    (h : quoteTranche ctx p id payer recipient source n expiry = .ok tr) :
    tr.id = id ∧ p.subscriptionCreatorBps ≤ basisPointsDenominator ∧
      ∃ tier, p.getTierConfig levelSubscriber = some tier ∧
        tr.burnAmount + tr.creatorAmount = tier.periodFee * n ∧
        tr.creatorAmount =
          tier.periodFee * n * p.subscriptionCreatorBps / basisPointsDenominator := by
  unfold quoteTranche at h
  split at h
  · cases h
  next tier htier =>
    simp only [bind_eq_ok, pure_eq_ok, liftCore, mapError_eq_ok] at h
    obtain ⟨_, _, _, _, _, _, fee, hfee, split, hsplit, rfl⟩ := h
    obtain rfl := checkedMulUint64_ok hfee
    obtain ⟨hbps, hsum, hcreator⟩ := splitCreatorFee_eq_ok hsplit
    exact ⟨rfl, hbps, tier, htier, hsum, hcreator⟩

/-- The offer for `n` periods: they follow the later of block time and expiry, and the two
parts of the fee make `n` period fees. -/
structure Offered (ctx : BlockCtx) (p : Params) (n : ℕ) (expiry : ℤ) (tr : SubscriptionTranche) :
    Prop where
  start : tr.startTime = max ctx.time expiry
  stop : tr.endTime = tr.startTime + p.subscriptionPeriod * 60 * n
  fee : ∃ tier, p.getTierConfig levelSubscriber = some tier ∧
    tr.burnAmount + tr.creatorAmount = tier.periodFee * n

theorem quoteTranche_eq_ok {p : Params} (hp : p.Sellable) {id : ℕ} {payer : Addr} {expiry : ℤ}
    (hn : n ≤ p.maxSubscriptionPeriodsPerPurchase)
    (h : quoteTranche ctx p id payer recipient source n expiry = .ok tr) :
    Offered ctx p n expiry tr := by
  obtain ⟨-, -, tier, htier, hsum, -⟩ := quoteTranche_fee h
  unfold quoteTranche at h
  rw [htier] at h
  simp only [bind_eq_ok, pure_eq_ok, liftCore, mapError_eq_ok] at h
  obtain ⟨one, hone, duration, hduration, stop, hstop, fee, -, split, -, rfl⟩ := h
  obtain rfl := checkedMulUint64_ok hone
  obtain rfl := checkedMulUint64_ok hduration
  obtain ⟨-, -, -, rfl⟩ := checkedAddInt64_eq_ok.mp hstop
  have hsmall : p.subscriptionPeriod * 60 * n < 2 ^ 63 := by
    have hn' : n ≤ 12 := hn.trans hp.periods_le
    calc p.subscriptionPeriod * 60 * n
        ≤ maxSubscriptionPeriodMinutes * 60 * 12 :=
          Nat.mul_le_mul (Nat.mul_le_mul_right 60 hp.period_le) hn'
      _ < 2 ^ 63 := by decide
  refine ⟨?_, ?_, tier, htier, hsum⟩
  · show (if expiry > ctx.time then expiry else ctx.time) = max ctx.time expiry
    split
    next hlater => exact (max_eq_right hlater.le).symm
    next hearlier => exact (max_eq_left (not_lt.mp hearlier)).symm
  · show _ + int64 _ = _
    rw [int64_of_lt hsmall]
    push_cast
    rfl

/-- All coins of the bank. -/
def Bank.supply (b : Bank) : ℕ := b.accounts.sum (fun _ coins => coins) + b.creatorPool + b.core

/-- An account paid `burned` coins that are gone and `pooled` coins into the creator pool,
and nothing else moved. -/
structure Bank.Paid (b b' : Bank) (payer : Addr) (burned pooled : ℕ) : Prop where
  debited : b.spendable payer = b'.spendable payer + (burned + pooled)
  others : ∀ a, a ≠ payer → b'.spendable a = b.spendable a
  pool : b'.creatorPool = b.creatorPool + pooled
  supply : b.supply = b'.supply + burned

namespace Bank

variable {b b₁ b' : Bank} {payer : Addr} {amount : ℕ}

theorem Paid.refl (b : Bank) (payer : Addr) : b.Paid b payer 0 0 := ⟨rfl, fun _ _ => rfl, rfl, rfl⟩

theorem Paid.trans {burned burned' pooled pooled' : ℕ} (h : b.Paid b₁ payer burned pooled)
    (h' : b₁.Paid b' payer burned' pooled') :
    b.Paid b' payer (burned + burned') (pooled + pooled') where
  debited := by
    rw [h.debited, h'.debited]
    omega
  others a ha := (h'.others a ha).trans (h.others a ha)
  pool := by rw [h'.pool, h.pool, Nat.add_assoc]
  supply := by
    rw [h.supply, h'.supply]
    omega

theorem debit_eq_ok (h : b.debit payer amount = .ok b') :
    b.spendable payer = b'.spendable payer + amount ∧
      (∀ a, a ≠ payer → b'.spendable a = b.spendable a) ∧
      b.accounts.sum (fun _ coins => coins) = b'.accounts.sum (fun _ coins => coins) + amount ∧
      b'.creatorPool = b.creatorPool ∧ b'.core = b.core := by
  simp only [Bank.debit, bind_eq_ok, failIf_eq_ok, pure_eq_ok, exists_const] at h
  obtain ⟨hle, rfl⟩ := h
  refine ⟨?_, fun a ha => ?_, ?_, rfl, rfl⟩
  · rw [Bank.spendable, Bank.spendable, get_set_self]
    exact (Nat.sub_add_cancel (not_lt.mp hle)).symm
  · rw [Bank.spendable, get_set_of_ne _ ha, Bank.spendable]
  · have hset := sum_set_add b.accounts payer (b.spendable payer - amount)
      (fun _ coins => coins)
    have hold : ((b.accounts.get payer).map fun coins => coins).getD 0 = b.spendable payer := by
      rw [Option.map_id', Bank.spendable]
    rw [hold] at hset
    show _ = (b.accounts.set payer (b.spendable payer - amount)).sum _ + _
    omega

theorem burnFromAccount_paid (h : b.burnFromAccount payer amount = .ok b') :
    b.Paid b' payer amount 0 := by
  unfold Bank.burnFromAccount at h
  split at h
  next hzero =>
    obtain rfl := Except.ok.inj h
    exact hzero ▸ .refl b payer
  next =>
    simp only [bind_eq_ok, Bank.burnCoinsTracked, failIf_eq_ok, pure_eq_ok, exists_const] at h
    obtain ⟨b₁, hb₁, -, rfl⟩ := h
    obtain ⟨hpaid, hothers, hsum, hpool, hcore⟩ := debit_eq_ok hb₁
    refine ⟨hpaid, hothers, hpool, ?_⟩
    simp only [Bank.supply]
    omega

theorem sendToCreatorPool_paid (h : b.sendToCreatorPool payer amount = .ok b') :
    b.Paid b' payer 0 amount := by
  simp only [Bank.sendToCreatorPool, bind_eq_ok, pure_eq_ok] at h
  obtain ⟨b₁, hb₁, rfl⟩ := h
  obtain ⟨hpaid, hothers, hsum, hpool, hcore⟩ := debit_eq_ok hb₁
  refine ⟨by rw [Nat.zero_add]; exact hpaid, hothers, by rw [← hpool], ?_⟩
  simp only [Bank.supply]
  omega

end Bank

/-- The coins that the fee of a tranche moves come from the payer alone, and the debt to the
creators grows by their part. -/
theorem takeTrancheFee_eq_ok {c c' : CreatorState} {payer : Addr} {burnAmt creatorAmt : ℕ}
    (h : takeTrancheFee c payer burnAmt creatorAmt = .ok c') :
    c.bank.Paid c'.bank payer burnAmt creatorAmt ∧ c'.liability = c.liability + creatorAmt ∧
      c'.stream = c.stream ∧ c'.trancheSeq = c.trancheSeq := by
  simp only [takeTrancheFee, bind_eq_ok] at h
  obtain ⟨b, hb, h⟩ := h
  have hburned := Bank.burnFromAccount_paid hb
  split at h
  next =>
    simp only [addCreatorLiability, bind_eq_ok, failIf_eq_ok, pure_eq_ok, exists_const] at h
    obtain ⟨b₁, hb₁, -, rfl⟩ := h
    have hpaid := hburned.trans (Bank.sendToCreatorPool_paid hb₁)
    rw [Nat.add_zero, Nat.zero_add] at hpaid
    exact ⟨hpaid, rfl, rfl, rfl⟩
  next hzero =>
    obtain rfl := Except.ok.inj h
    obtain rfl : creatorAmt = 0 := Nat.eq_zero_of_not_pos hzero
    exact ⟨hburned, (add_zero _).symm, rfl, rfl⟩

theorem recordTranche_bank {now : ℤ} {c c' : CreatorState}
    (h : recordTranche now c tr = .ok c') : c'.bank = c.bank := by
  simp only [recordTranche, bind_eq_ok, pure_eq_ok] at h
  obtain ⟨_, -, rfl⟩ := h
  rfl

/-- A purchase: the offer, the fee, and the subscription that it extends. -/
theorem createTranche_eq_ok {payer : Addr}
    (h : createTranche rules ctx s payer recipient source n = .ok s') :
    1 ≤ n ∧ n ≤ s.params.maxSubscriptionPeriodsPerPurchase ∧ ∃ core tr c c' s₁,
      s.profiles.get recipient = some core ∧
      quoteTranche ctx s.params (s.creator.trancheSeq + 1) payer recipient source n
        core.subscriptionExpiry = .ok tr ∧
      takeTrancheFee s.creator payer tr.burnAmount tr.creatorAmount = .ok c ∧
      extendSubscription rules ctx { s with creator := c } recipient core
        (core.autoRenew || source = .selfPurchase) tr.endTime = .ok s₁ ∧
      recordTranche ctx.time s₁.creator tr = .ok c' ∧ s' = { s₁ with creator := c' } := by
  simp only [createTranche, bind_eq_ok, failIf_eq_ok, exists_const, mapError_eq_ok,
    checkedAddUint64_eq_ok] at h
  obtain ⟨hcount, id, ⟨-, rfl⟩, h⟩ := h
  refine ⟨by omega, by omega, ?_⟩
  cases hcore : s.profiles.get recipient with
  | none => simp [hcore] at h
  | some core =>
    simp only [hcore, bind_eq_ok, onCreator, liftCore, mapError_eq_ok, pure_eq_ok] at h
    obtain ⟨tr, htr, _, ⟨c, hc, rfl⟩, s₁, hs₁, c', hc', rfl⟩ := h
    exact ⟨core, tr, c, c', s₁, rfl, htr, hc, hs₁, hc', rfl⟩

end MirageNode
