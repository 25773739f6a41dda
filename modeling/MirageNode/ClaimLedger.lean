import MirageNode.SettlementShares

/-!
# Claims are paid once

Over every run of operations, with all payments kept in a log (`PaidRun`): a
creator's accrual of an epoch is paid by at most one call and in full, in time and
while the epoch pays out. The epoch's record counts what was claimed (`Ledger`),
and a call that cannot pay all its epochs pays none.
-/

namespace MirageNode

open OrderedStore OrderedMap Fallible List

/-! ## 1. The ledger of an epoch -/

variable {v v' : EpochView} {ce : CreatorEpoch} {e : ℤ} {creator : Addr} {s s' : CreatorState}
  {log : List Payment}

namespace EpochView

/-- The accruals of an epoch and what has been claimed of them. Nothing is claimed
before the epoch pays out. -/
structure Ledger (v : EpochView) : Prop where
  amount_nonneg : ∀ c acc, v.accruals.get c = some acc → 0 ≤ acc.amount
  claimed : ∀ c acc, v.accruals.get c = some acc → acc.claimed = v.claims.has c ∧
    acc.claimedAmount = if acc.claimed = true then acc.amount else 0
  unrecorded : v.record = none → v.accruals = .empty ∧ v.claims = .empty
  allocated : ∀ ce, v.record = some ce →
    ce.allocatedTotal = v.accruals.sum fun _ acc => acc.amount
  claimedTotal : ∀ ce, v.record = some ce →
    ce.claimedTotal = v.accruals.sum fun _ acc => acc.claimedAmount
  early : ∀ ce, v.record = some ce → ce.status ≠ .claimable → ce.status ≠ .expired →
    v.claims = .empty
  pool_nonneg : ∀ ce, v.record = some ce → 0 ≤ ce.pool

/-- A change of the record that keeps its totals. -/
theorem Ledger.update {ce' : CreatorEpoch} (h : v.Ledger) (hget : v.record = some ce)
    (hget' : v'.record = some ce') (haccruals : v'.accruals = v.accruals)
    (hclaims : v'.claims = v.claims) (halloc : ce'.allocatedTotal = ce.allocatedTotal)
    (hclaimed : ce'.claimedTotal = ce.claimedTotal) (hpool : ce.pool ≤ ce'.pool)
    (hearly : ce'.status ≠ .claimable → ce'.status ≠ .expired → v.claims = .empty) : v'.Ledger := by
  have hrecord : ∀ {ce₁ : CreatorEpoch}, v'.record = some ce₁ → ce₁ = ce' :=
    fun hget₁ => Option.some.inj (hget₁.symm.trans hget')
  refine ⟨?_, ?_, fun hnone => ?_, fun ce₁ hget₁ => ?_, fun ce₁ hget₁ => ?_,
    fun ce₁ hget₁ h₁ h₂ => ?_, fun ce₁ hget₁ => ?_⟩
  · rw [haccruals]
    exact h.amount_nonneg
  · rw [haccruals, hclaims]
    exact h.claimed
  · rw [hget'] at hnone
    cases hnone
  · rw [hrecord hget₁, haccruals, halloc]
    exact h.allocated ce hget
  · rw [hrecord hget₁, haccruals, hclaimed]
    exact h.claimedTotal ce hget
  · rw [hrecord hget₁] at h₁ h₂
    rw [hclaims]
    exact hearly h₁ h₂
  · rw [hrecord hget₁]
    exact (h.pool_nonneg ce hget).trans hpool

/-- The accruals of an epoch that does not pay out yet grow. -/
theorem Ledger.accrue {ce' : CreatorEpoch} {gain : ℤ}
    (h : v.Ledger) (hget : v.record = some ce) (hst : ce.status = .allocating) (hgain : 0 ≤ gain)
    (hget' : v'.record = some ce') (haccruals : v'.accruals = v.accrue e creator gain)
    (hclaims : v'.claims = v.claims) (halloc : ce'.allocatedTotal = ce.allocatedTotal + gain)
    (hclaimed : ce'.claimedTotal = ce.claimedTotal) (hpool : ce'.pool = ce.pool) : v'.Ledger := by
  have hrecord : ∀ {ce₁ : CreatorEpoch}, v'.record = some ce₁ → ce₁ = ce' :=
    fun hget₁ => Option.some.inj (hget₁.symm.trans hget')
  have hnone : v.claims = .empty := h.early ce hget (by rw [hst]; nofun) (by rw [hst]; nofun)
  -- the creator's accrual is new or unclaimed
  have hcases : ∀ c acc, v'.accruals.get c = some acc → v.accruals.get c = some acc ∨
      0 ≤ acc.amount ∧ acc.claimed = false ∧ acc.claimedAmount = 0 := by
    intro c acc hacc
    rw [haccruals] at hacc
    unfold EpochView.accrue at hacc
    split at hacc
    · rcases get_set_cases hacc with ⟨-, rfl⟩ | ⟨-, hacc⟩
      · refine .inr ?_
        cases hold : v.accruals.get creator with
        | none => exact ⟨add_nonneg le_rfl hgain, rfl, rfl⟩
        | some old =>
          obtain ⟨hflag, hamount⟩ := h.claimed creator old hold
          rw [hnone] at hflag
          have hfalse : old.claimed = false := hflag
          rw [hfalse] at hamount
          exact ⟨add_nonneg (h.amount_nonneg creator old hold) hgain, hfalse, hamount⟩
      · exact .inl hacc
    · exact .inl hacc
  refine ⟨fun c acc hacc => ?_, fun c acc hacc => ?_, fun hno => ?_, fun ce₁ hget₁ => ?_,
    fun ce₁ hget₁ => ?_, fun _ _ _ _ => hclaims.trans hnone, fun ce₁ hget₁ => ?_⟩
  · rcases hcases c acc hacc with hold | ⟨hnonneg, -⟩
    · exact h.amount_nonneg c acc hold
    · exact hnonneg
  · rcases hcases c acc hacc with hold | ⟨-, hflag, hamount⟩
    · rw [hclaims]
      exact h.claimed c acc hold
    · rw [hclaims, hnone, hflag]
      exact ⟨rfl, hamount⟩
  · rw [hget'] at hno
    cases hno
  · rw [hrecord hget₁, haccruals, v.sum_accrue e creator hgain, halloc, h.allocated ce hget]
  · rw [hrecord hget₁, haccruals, v.sum_accrue_claimed, hclaimed, h.claimedTotal ce hget]
  · rw [hrecord hget₁, hpool]
    exact h.pool_nonneg ce hget

theorem Ledger.claim {v : EpochView} {ctx : BlockCtx} {creator : Addr} {acc : CreatorAccrual}
    {ce : CreatorEpoch} (h : v.Ledger) (hclaim : v.Claimable ctx.time creator acc ce) :
    (v.claimed ctx creator acc ce).Ledger := by
  obtain ⟨-, hamount⟩ := h.claimed creator acc hclaim.accrual
  rw [hclaim.unclaimed] at hamount
  have hzero : acc.claimedAmount = 0 := hamount
  refine ⟨fun c acc' hacc => ?_, fun c acc' hacc => ?_, nofun, fun ce₁ hget₁ => ?_,
    fun ce₁ hget₁ => ?_, fun ce₁ hget₁ h₁ => ?_, fun ce₁ hget₁ => ?_⟩
  · rcases get_set_cases hacc with ⟨-, rfl⟩ | ⟨-, hacc⟩
    · exact h.amount_nonneg creator acc hclaim.accrual
    · exact h.amount_nonneg c acc' hacc
  · show acc'.claimed = (v.claims.set creator ()).has c ∧ _
    rw [OrderedMap.has, get_set]
    rcases get_set_cases hacc with ⟨heq, rfl⟩ | ⟨hne, hacc⟩
    · rw [if_pos heq]
      exact ⟨rfl, rfl⟩
    · rw [if_neg hne]
      exact h.claimed c acc' hacc
  · cases hget₁
    have hsum := sum_set_of_get (acc.paidOut ctx) (fun _ acc => acc.amount) hclaim.accrual
    exact (h.allocated ce hclaim.record).trans (add_right_cancel hsum).symm
  · cases hget₁
    have hsum := sum_set_of_get (acc.paidOut ctx) (fun _ acc => acc.claimedAmount)
      hclaim.accrual
    have htotal := h.claimedTotal ce hclaim.record
    have hpaid : (acc.paidOut ctx).claimedAmount = acc.amount := rfl
    show ce.claimedTotal + acc.amount =
      (v.accruals.set creator (acc.paidOut ctx)).sum fun _ acc => acc.claimedAmount
    rw [hpaid, hzero] at hsum
    linarith
  · cases hget₁
    exact absurd hclaim.status h₁
  · cases hget₁
    exact h.pool_nonneg ce hclaim.record

theorem gain_nonneg (v : EpochView) (ce : CreatorEpoch) (k : RecordKey) : 0 ≤ v.gain ce k := by
  unfold gain
  split <;> omega

/-- Every move keeps the ledger. -/
theorem Ledger.move {posts : OrderedMap Hash PostMetadata}
    (h : v.Ledger) (hmove : EpochMove posts e v v') : v'.Ledger := by
  have hearly : ∀ {ce : CreatorEpoch} {st : EpochStatus}, v.record = some ce → ce.status = st →
      st ≠ .claimable → st ≠ .expired → v.claims = .empty :=
    fun hget hst h₁ h₂ => h.early _ hget (hst ▸ h₁) (hst ▸ h₂)
  cases hmove with
  | @write ce pool gross endUnix engagements hopen hpool =>
    rcases hopen with ⟨hget, hst⟩ | ⟨hnone, start, stop, rfl⟩
    · exact h.update hget rfl rfl rfl rfl rfl hpool fun _ _ => hearly hget hst nofun nofun
    · obtain ⟨haccruals, hclaims⟩ := h.unrecorded hnone
      refine ⟨h.amount_nonneg, h.claimed, nofun, fun ce₁ hget₁ => ?_, fun ce₁ hget₁ => ?_,
        fun _ _ _ _ => hclaims, fun ce₁ hget₁ => ?_⟩
      · cases hget₁
        show (0 : ℤ) = v.accruals.sum _
        rw [haccruals]
        rfl
      · cases hget₁
        show (0 : ℤ) = v.accruals.sum _
        rw [haccruals]
        rfl
      · cases hget₁
        exact hpool
  | unengage =>
    exact ⟨h.amount_nonneg, h.claimed, h.unrecorded, h.allocated, h.claimedTotal, h.early,
      h.pool_nonneg⟩
  | close hget hst =>
    exact h.update hget rfl rfl rfl rfl rfl le_rfl fun _ _ => hearly hget hst nofun nofun
  | @count ce key valid hget hst =>
    obtain ⟨⟨counts, hv⟩, active, actor, n, hce⟩ := v.flushFor_keeps ce key.actor
    unfold EpochView.counted
    simp only [hv, hce]
    exact h.update hget rfl rfl rfl rfl rfl le_rfl fun _ _ => hearly hget hst nofun nofun
  | @countNone ce hget hst | @countDone ce hget hst =>
    obtain ⟨⟨counts, hv⟩, active, actor, n, hce⟩ := v.flush_keeps ce
    rw [hv, hce]
    exact h.update hget rfl rfl rfl rfl rfl le_rfl fun _ _ => hearly hget hst nofun nofun
  | pass hget hst =>
    exact h.update hget rfl rfl rfl rfl rfl le_rfl fun _ _ => hearly hget hst nofun nofun
  | @allocate ce key post te hget hst =>
    exact h.accrue hget hst (v.gain_nonneg ce key.record) rfl rfl rfl rfl rfl rfl
  | finishNone hget hst | finish hget hst =>
    exact h.update hget rfl rfl rfl rfl rfl le_rfl fun _ _ => hearly hget hst nofun nofun
  | claim hclaim => exact h.claim hclaim
  | expire hget => exact h.update hget rfl rfl rfl rfl rfl le_rfl fun _ hne => absurd rfl hne
  | prune hget hst hpruned =>
    rcases hpruned with rfl | rfl <;>
      exact h.update hget rfl rfl rfl rfl rfl le_rfl fun _ hne => absurd hst hne

/-- What is claimed is part of what was allocated. -/
theorem Ledger.claimed_le (h : v.Ledger)
    (hget : v.record = some ce) : ce.claimedTotal ≤ ce.allocatedTotal := by
  rw [h.claimedTotal ce hget, h.allocated ce hget]
  refine sum_le_sum fun c acc hacc => ?_
  rw [(h.claimed c acc hacc).2]
  split
  · exact le_rfl
  · exact h.amount_nonneg c acc hacc

/-- A claimed accrual stays as it is. -/
theorem Ledger.claim_kept {posts : OrderedMap Hash PostMetadata}
    {c : Addr} (h : v.Ledger) (hmove : EpochMove posts e v v') (hclaimed : v.claims.has c = true) :
    v'.claims.has c = true ∧ v'.accrued c = v.accrued c := by
  cases hmove with
  | write | unengage | close | pass | finishNone | finish | expire | prune =>
    exact ⟨hclaimed, rfl⟩
  | @count ce key valid =>
    obtain ⟨⟨counts, hv⟩, -⟩ := v.flushFor_keeps ce key.actor
    unfold EpochView.counted
    simp only [hv]
    exact ⟨hclaimed, rfl⟩
  | @countNone ce | @countDone ce =>
    obtain ⟨⟨counts, hv⟩, -⟩ := v.flush_keeps ce
    rw [hv]
    exact ⟨hclaimed, rfl⟩
  | @allocate ce _ _ _ hget hst =>
    have hnone := h.early ce hget (by rw [hst]; nofun) (by rw [hst]; nofun)
    rw [hnone] at hclaimed
    cases hclaimed
  | @claim ce creator acc ctx hclaim =>
    have hne : c ≠ creator := by
      rintro rfl
      rw [hclaim.noClaim] at hclaimed
      cases hclaimed
    constructor
    · show (v.claims.set creator ()).has c = true
      rw [OrderedMap.has, get_set_of_ne _ hne]
      exact hclaimed
    · show (((v.accruals.set creator (acc.paidOut ctx)).get c).map CreatorAccrual.amount).getD 0 = _
      rw [get_set_of_ne _ hne]
      rfl

/-- A claim pays the whole accrual. -/
theorem Ledger.claimed_paid {ctx : BlockCtx} {acc : CreatorAccrual} (h : v.Ledger)
    (hclaim : v.Claimable ctx.time creator acc ce) :
    (v.claimed ctx creator acc ce).claims.has creator = true ∧
      acc.amount - acc.claimedAmount = (v.claimed ctx creator acc ce).accrued creator := by
  obtain ⟨-, hamount⟩ := h.claimed creator acc hclaim.accrual
  rw [hclaim.unclaimed] at hamount
  constructor
  · show (v.claims.set creator ()).has creator = true
    rw [OrderedMap.has, get_set_self]
    rfl
  · show _ = (((v.accruals.set creator (acc.paidOut ctx)).get creator).map
      CreatorAccrual.amount).getD 0
    rw [get_set_self, hamount]
    exact sub_zero _

end EpochView

/-! ## 2. Payments -/

/-- A payment of an accrual, with the epoch's record as it was then. -/
structure Payment where
  creator : Addr
  epoch : ℤ
  amount : ℤ
  time : ℤ
  record : Option CreatorEpoch

/-- Whose accrual of which epoch was paid. -/
def Payment.key (pay : Payment) : Addr × ℤ := (pay.creator, pay.epoch)

/-- What a claim pays for each of its epochs. -/
def claimPayments (ctx : BlockCtx) (s : CreatorState) (creator : Addr)
    (items : List (ℤ × CreatorAccrual)) : List Payment :=
  items.map fun item =>
    ⟨creator, item.1, item.2.amount - item.2.claimedAmount, ctx.time, s.epochs.get item.1⟩

/-- The payments that an operation makes if it succeeds. -/
def CreatorOp.payments (ctx : BlockCtx) (s : CreatorState) : CreatorOp → List Payment
  | claim p creator epochs =>
    match claimItems p ctx.time s creator epochs with
    | .ok items => claimPayments ctx s creator items
    | .error _ => []
  | _ => []

/-- Runs an operation as a transaction, with the payments it makes. A failed
transaction is rolled back. -/
def CreatorOp.deliver (ctx : BlockCtx) (s : CreatorState) (op : CreatorOp) :
    CreatorState × List Payment :=
  match op.exec ctx s with
  | .error _ => (s, [])
  | .ok s' => (s', op.payments ctx s)

/-- The states that transactions lead to, successful or not, with the log of all
payments, the last ones first. -/
inductive PaidRun (s₀ : CreatorState) (t₀ : ℤ) : CreatorState → ℤ → List Payment → Prop
  | start : PaidRun s₀ t₀ s₀ t₀ []
  | step {s : CreatorState} {t : ℤ} {log : List Payment} (ctx : BlockCtx) (op : CreatorOp) :
      PaidRun s₀ t₀ s t log → t ≤ ctx.time → op.Admissible ctx.time s →
      PaidRun s₀ t₀ (op.deliver ctx s).1 ctx.time ((op.deliver ctx s).2 ++ log)

/-- What all payments made for one accrual add up to. -/
def paidTotal (log : List Payment) (creator : Addr) (epoch : ℤ) : ℤ :=
  ((log.filter fun pay => pay.key = (creator, epoch)).map Payment.amount).sum

/-- Every accrual is paid at most once and in full, by a payment in time; and the
records count what was claimed. -/
structure PaidOnce (s : CreatorState) (log : List Payment) : Prop where
  once : (log.map Payment.key).Nodup
  total : ∀ c e, paidTotal log c e = 0 ∨ paidTotal log c e = (s.view e).accrued c
  inTime : ∀ pay ∈ log, ∃ ce, pay.record = some ce ∧ ce.status = .claimable ∧
    pay.time < ce.claimDeadlineUnix
  claimed : ∀ c e acc, (s.view e).accruals.get c = some acc →
    (acc.claimed = true ↔ ∃ pay ∈ log, pay.key = (c, e))
  claimedTotal : ∀ e ce, s.epochs.get e = some ce → ce.claimedTotal = (s.view e).accruals.sum
    fun _ acc => if acc.claimed = true then acc.amount else 0
  claimed_le : ∀ e ce, s.epochs.get e = some ce → ce.claimedTotal ≤ ce.allocatedTotal

/-! ## 3. Along runs -/

theorem CreatorStep.ledger {now : ℤ} (hs : WellPlaced s)
    (h : CreatorStep now s s') (hledger : (s.view e).Ledger) : (s'.view e).Ledger :=
  (h.lives hs e).moves.induction (fun _ _ hmove hv => hv.move hmove) hledger

/-- Steps without a claim keep the claims and the accruals that were claimed. -/
theorem WorkSteps.claim_kept {now : ℤ} (hs : WellPlaced s) (hledger : ∀ e, (s.view e).Ledger)
    (h : WorkSteps now s s') :
    s'.claims = s.claims ∧ ∀ c e, (s.view e).claims.has c = true →
      (s'.view e).accrued c = (s.view e).accrued c := by
  suffices WellPlaced s' ∧ (∀ e, (s'.view e).Ledger) ∧ s'.claims = s.claims ∧
      ∀ c e, (s.view e).claims.has c = true → (s'.view e).accrued c = (s.view e).accrued c from
    this.2.2
  induction h with
  | refl => exact ⟨hs, hledger, rfl, fun _ _ _ => rfl⟩
  | @tail s₁ s₂ _ hstep ih =>
    obtain ⟨hs₁, hledger₁, hclaims₁, haccrued₁⟩ := ih
    have hstep' : CreatorStep now s₁ s₂ := .work hstep
    refine ⟨hs₁.step hstep', fun e => hstep'.ledger hs₁ (hledger₁ e),
      hstep.keeps.1.trans hclaims₁, fun c e hc => ?_⟩
    rw [← haccrued₁ c e hc]
    have hc₁ : (s₁.view e).claims.has c = true := by
      show (s₁.claims.slice e).has c = true
      rw [hclaims₁]
      exact hc
    have hmoves := (hstep.lives hs₁ e).moves.induction
      (P := fun v => v.Ledger ∧ v.claims.has c = true ∧ v.accrued c = (s₁.view e).accrued c)
      (fun v v' hmove ⟨hv, hhas, hacc⟩ =>
        let ⟨hhas', hacc'⟩ := hv.claim_kept hmove hhas
        ⟨hv.move hmove, hhas', hacc'.trans hacc⟩)
      ⟨hledger₁ e, hc₁, rfl⟩
    exact hmoves.2.2

/-- What the log says about a state: it has exactly one payment for each claim,
of the whole accrual. -/
structure Logged (s : CreatorState) (log : List Payment) : Prop where
  once : (log.map Payment.key).Nodup
  paid : ∀ pay ∈ log, (s.view pay.epoch).claims.has pay.creator = true ∧
    pay.amount = (s.view pay.epoch).accrued pay.creator
  claims : ∀ c e, (s.view e).claims.has c = true → ∃ pay ∈ log, pay.key = (c, e)
  inTime : ∀ pay ∈ log, ∃ ce, pay.record = some ce ∧ ce.status = .claimable ∧
    pay.time < ce.claimDeadlineUnix

theorem Logged.work {now : ℤ} (h : Logged s log) (hs : WellPlaced s)
    (hledger : ∀ e, (s.view e).Ledger) (hsteps : WorkSteps now s s') : Logged s' log := by
  obtain ⟨hclaims, haccrued⟩ := hsteps.claim_kept hs hledger
  have hsame : ∀ e, (s'.view e).claims = (s.view e).claims :=
    fun e => congrArg (OrderedMap.slice · e) hclaims
  refine ⟨h.once, fun pay hpay => ?_, fun c e hc => ?_, h.inTime⟩
  · obtain ⟨hhas, hamount⟩ := h.paid pay hpay
    rw [hsame, haccrued _ _ hhas]
    exact ⟨hhas, hamount⟩
  · rw [hsame] at hc
    exact h.claims c e hc

theorem Logged.claim {p : Params} {ctx : BlockCtx} {s s' : CreatorState} {log : List Payment}
    {creator : Addr} {epochs : List ℤ} (h : Logged s log) (hledger : ∀ e, (s.view e).Ledger)
    (hexec : claimCreatorRewards p ctx s creator epochs = .ok s') :
    Logged s' ((CreatorOp.claim p creator epochs).payments ctx s ++ log) := by
  obtain ⟨items, hitems, hsorted, hclaim, hviews⟩ := claimCreatorRewards_views hexec
  have hpayments : (CreatorOp.claim p creator epochs).payments ctx s =
      claimPayments ctx s creator items := by
    simp only [CreatorOp.payments, hitems]
  rw [hpayments]
  have hnew : ∀ pay ∈ claimPayments ctx s creator items, ∃ item ∈ items, pay =
      ⟨creator, item.1, item.2.amount - item.2.claimedAmount, ctx.time, s.epochs.get item.1⟩ := by
    intro pay hpay
    obtain ⟨item, hmem, rfl⟩ := mem_map.mp hpay
    exact ⟨item, hmem, rfl⟩
  refine ⟨?_, fun pay hpay => ?_, fun c e hc => ?_, fun pay hpay => ?_⟩
  · have hkeys : (claimPayments ctx s creator items).map Payment.key =
        (items.map Prod.fst).map (Prod.mk creator) := by
      simp only [claimPayments, map_map]
      rfl
    rw [map_append, nodup_append]
    refine ⟨?_, h.once, ?_⟩
    · rw [hkeys]
      exact (hsorted.imp fun hlt => ne_of_lt hlt).map _ fun _ _ hne heq =>
        hne (Prod.mk.inj heq).2
    · -- an earlier payment for the same accrual would have left a claim
      intro k hk k' hk' heq
      obtain ⟨pay, hpay, rfl⟩ := mem_map.mp hk
      obtain ⟨pay', hpay', rfl⟩ := mem_map.mp hk'
      obtain ⟨item, hmem, rfl⟩ := hnew pay hpay
      obtain ⟨ce, hce⟩ := hclaim item hmem
      obtain ⟨hcreator, hepoch⟩ := Prod.mk.inj heq
      have hhas := (h.paid pay' hpay').1
      rw [← hcreator, ← hepoch, hce.noClaim] at hhas
      cases hhas
  · rcases mem_append.mp hpay with hpay | hpay
    · obtain ⟨item, hmem, rfl⟩ := hnew pay hpay
      rcases hviews item.1 with ⟨hnot, -⟩ | ⟨acc, ce, hmem', hce, hview⟩
      · exact absurd (mem_map_of_mem hmem) hnot
      · obtain ⟨ce', hce'⟩ := hclaim item hmem
        obtain rfl : acc = item.2 := Option.some.inj (hce.accrual.symm.trans hce'.accrual)
        rw [hview]
        exact (hledger item.1).claimed_paid hce
    · obtain ⟨hhas, hamount⟩ := h.paid pay hpay
      rcases hviews pay.epoch with ⟨-, hview⟩ | ⟨acc, ce, -, hce, hview⟩
      · rw [hview]
        exact ⟨hhas, hamount⟩
      · rw [hview]
        obtain ⟨hhas', haccrued⟩ := (hledger pay.epoch).claim_kept
          (.claim hce : EpochMove s.posts pay.epoch _ _) hhas
        exact ⟨hhas', hamount.trans haccrued.symm⟩
  · rcases hviews e with ⟨-, hview⟩ | ⟨acc, ce, hmem, hce, hview⟩
    · rw [hview] at hc
      obtain ⟨pay, hpay, hkey⟩ := h.claims c e hc
      exact ⟨pay, mem_append_right _ hpay, hkey⟩
    · rw [hview] at hc
      have hset : ((s.view e).claims.set creator ()).has c = true := hc
      rw [OrderedMap.has, get_set] at hset
      split at hset
      · next heq =>
        exact ⟨_, mem_append_left _ (mem_map_of_mem hmem), by rw [heq]; rfl⟩
      · obtain ⟨pay, hpay, hkey⟩ := h.claims c e hset
        exact ⟨pay, mem_append_right _ hpay, hkey⟩
  · rcases mem_append.mp hpay with hpay | hpay
    · obtain ⟨item, hmem, rfl⟩ := hnew pay hpay
      obtain ⟨ce, hce⟩ := hclaim item hmem
      exact ⟨ce, hce.record, hce.status, hce.inTime⟩
    · exact h.inTime pay hpay

/-- A store in which nothing was settled or claimed. -/
structure Unclaimed (s : CreatorState) : Prop extends Unsettled s where
  claims : ∀ e, (s.view e).claims = .empty
  total : ∀ e ce, s.epochs.get e = some ce → ce.claimedTotal = 0

theorem Unclaimed.ledger (h : Unclaimed s) (e : ℤ) : (s.view e).Ledger := by
  have hempty := (h.blank e).accruals
  refine ⟨fun c acc hacc => ?_, fun c acc hacc => ?_, fun _ => ⟨hempty, h.claims e⟩,
    fun ce hget => ?_, fun ce hget => ?_, fun _ _ _ _ => h.claims e, fun ce hget => ?_⟩
  · rw [hempty] at hacc
    cases hacc
  · rw [hempty] at hacc
    cases hacc
  · rw [hempty, (h.record e ce hget).2.2.1]
    rfl
  · rw [hempty, h.total e ce hget]
    rfl
  · exact (h.record e ce hget).2.2.2

theorem Unclaimed.logged (h : Unclaimed s) : Logged s [] where
  once := nodup_nil
  paid := by simp
  claims := fun c e hc => by
    rw [h.claims e] at hc
    cases hc
  inTime := by simp

/-- A run of transactions keeps the placement, the ledgers and the log. -/
theorem PaidRun.logged {s₀ : CreatorState} {t₀ t : ℤ} (h : Unclaimed s₀)
    (hrun : PaidRun s₀ t₀ s t log) : WellPlaced s ∧ (∀ e, (s.view e).Ledger) ∧ Logged s log := by
  induction hrun with
  | start => exact ⟨h.placed, h.ledger, h.logged⟩
  | @step s t log ctx op _ _ hadm ih =>
    obtain ⟨hs, hledger, hlogged⟩ := ih
    unfold CreatorOp.deliver
    cases hexec : op.exec ctx s with
    | error err => exact ⟨hs, hledger, hlogged⟩
    | ok s' =>
      have hsteps := op.exec_steps hs.keyed hadm hexec
      have hkeeps : WellPlaced s' ∧ ∀ e, (s'.view e).Ledger := by
        clear hexec
        induction hsteps with
        | refl => exact ⟨hs, hledger⟩
        | tail _ hone ih =>
          exact ⟨ih.1.step hone, fun e => hone.ledger ih.1 (ih.2 e)⟩
      refine ⟨hkeeps.1, hkeeps.2, ?_⟩
      by_cases hop : ∀ p creator epochs, op ≠ .claim p creator epochs
      · have hnone : op.payments ctx s = [] := by
          cases op with
          | claim p creator epochs => exact absurd rfl (hop p creator epochs)
          | _ => rfl
        show Logged s' (op.payments ctx s ++ log)
        rw [hnone]
        exact hlogged.work hs hledger (op.exec_work hs.keyed hadm hexec hop)
      · simp only [ne_eq, not_forall, not_not] at hop
        obtain ⟨p, creator, epochs, rfl⟩ := hop
        exact hlogged.claim hledger hexec

/-- With at most one payment for each accrual, the total paid for one is nothing
or that payment. -/
theorem Logged.total (h : Logged s log) (c : Addr) (e : ℤ) :
    paidTotal log c e = 0 ∨ paidTotal log c e = (s.view e).accrued c := by
  have hsub : ((log.filter fun pay => pay.key = (c, e)).map Payment.key).Nodup :=
    (filter_sublist.map Payment.key).nodup h.once
  have hkey : ∀ pay ∈ log.filter fun pay => pay.key = (c, e), pay ∈ log ∧ pay.key = (c, e) := by
    intro pay hpay
    simpa using mem_filter.mp hpay
  unfold paidTotal
  cases hfilter : log.filter fun pay => pay.key = (c, e) with
  | nil => exact .inl rfl
  | cons pay rest =>
    rw [hfilter] at hsub hkey
    obtain ⟨hmem, hpay⟩ := hkey pay mem_cons_self
    have hrest : rest = [] := by
      rw [eq_nil_iff_forall_not_mem]
      intro pay' hpay'
      have hsame := (hkey pay' (mem_cons_of_mem _ hpay')).2.trans hpay.symm
      exact (nodup_cons.mp hsub).1 (hsame ▸ mem_map_of_mem hpay')
    obtain ⟨rfl, rfl⟩ : pay.creator = c ∧ pay.epoch = e := Prod.mk.inj hpay
    rw [hrest]
    exact .inr ((add_zero _).trans (h.paid pay hmem).2)

theorem Logged.paidOnce (h : Logged s log) (hledger : ∀ e, (s.view e).Ledger) : PaidOnce s log where
  once := h.once
  total := h.total
  inTime := h.inTime
  claimed := fun c e acc hacc => by
    rw [((hledger e).claimed c acc hacc).1]
    refine ⟨h.claims c e, fun ⟨pay, hpay, hkey⟩ => ?_⟩
    obtain ⟨rfl, rfl⟩ : pay.creator = c ∧ pay.epoch = e := Prod.mk.inj hkey
    exact (h.paid pay hpay).1
  claimedTotal := fun e ce hget => by
    rw [(hledger e).claimedTotal ce hget]
    exact sum_congr fun c acc hacc => ((hledger e).claimed c acc hacc).2
  claimed_le := fun e ce hget => (hledger e).claimed_le hget

/-! ## 4. What one call pays -/

theorem claimSum_payments (ctx : BlockCtx) (s : CreatorState) (creator : Addr)
    (items : List (ℤ × CreatorAccrual)) :
    ((claimPayments ctx s creator items).map Payment.amount).sum = claimSum items := by
  simp only [claimPayments, claimSum, map_map]
  rfl

/-- A successful call moves exactly its payments from the pool to the creator. -/
theorem claim_moves_payments {p : Params} {ctx : BlockCtx}
    {epochs : List ℤ} (h : claimCreatorRewards p ctx s creator epochs = .ok s') :
    let paid := (((CreatorOp.claim p creator epochs).payments ctx s).map Payment.amount).sum
    (s'.bank.creatorPool : ℤ) = s.bank.creatorPool - paid ∧
      (s'.bank.spendable creator : ℤ) = s.bank.spendable creator + paid := by
  obtain ⟨items, bank, hitems, rfl, -, hclaim, -, hpay, rfl⟩ := claimCreatorRewards_items h
  have hpaid : (((CreatorOp.claim p creator (items.map Prod.fst)).payments ctx s).map
      Payment.amount).sum = claimSum items := by
    simp only [CreatorOp.payments, hitems]
    exact claimSum_payments ctx s creator items
  have hnonneg : 0 ≤ claimSum items := by
    refine sum_nonneg fun x hx => ?_
    obtain ⟨item, hmem, rfl⟩ := mem_map.mp hx
    obtain ⟨ce, hce⟩ := hclaim item hmem
    exact hce.positive.le
  have hbank : (items.foldl (applyClaim ctx creator) s).bank = s.bank := by
    obtain ⟨_, _, _, hframe⟩ := foldl_applyClaim_frame ctx creator items s
    rw [hframe]
  rw [hbank] at hpay
  simp only [Bank.payFromCreatorPool, bind_eq_ok, failIf_eq_ok, exists_const, pure_eq_ok] at hpay
  obtain ⟨hfunds, rfl⟩ := hpay
  simp only [hpaid, Bank.spendable, get_set_self, Option.getD_some]
  omega

/-- A call that names an epoch it cannot pay, an unsorted list or too many epochs
fails before it writes anything. -/
theorem claimItems_fails {p : Params} {ctx : BlockCtx} {epochs : List ℤ}
    (h : epochs = [] ∨ p.maxCreatorClaimEpochs < epochs.length ∨ ¬ epochs.Pairwise (· < ·) ∨
      ∃ e ∈ epochs, ∀ acc ce, ¬ (s.view e).Claimable ctx.time creator acc ce) :
    ∃ err, claimItems p ctx.time s creator epochs = .error err := by
  cases hitems : claimItems p ctx.time s creator epochs with
  | error err => exact ⟨err, rfl⟩
  | ok items =>
    exfalso
    simp only [claimItems, bind_eq_ok, failIf_eq_ok, exists_const, not_not, not_or, not_lt]
      at hitems
    obtain ⟨⟨hmin, hmax⟩, hchain, hmap⟩ := hitems
    rcases h with rfl | hlong | hunsorted | ⟨e, hmem, hbad⟩
    · exact absurd hmin (by decide)
    · exact absurd hlong (not_lt.mpr hmax)
    · exact hunsorted hchain.pairwise
    · obtain ⟨item, hone⟩ := mapM_ok_of_mem hmap hmem
      obtain ⟨ce, hce⟩ := (claimableAccrual_eq_ok hone).2
      exact hbad item.2 ce hce

/-- Claims are paid once, in every run. For every creator and epoch at most one transaction paid
the creator's accrual of the epoch, in full, in time and while the epoch paid out; a successful
call moves exactly its payments out of the pool; and a failed call pays nothing. -/
theorem claims_paid_once {s₀ s : CreatorState} {t₀ t : ℤ} {log : List Payment} (h : Unclaimed s₀)
    (hrun : PaidRun s₀ t₀ s t log) :
    PaidOnce s log ∧ ∀ (ctx : BlockCtx) (p : Params) (creator : Addr) (epochs : List ℤ),
      (∀ s', claimCreatorRewards p ctx s creator epochs = .ok s' →
        let paid := (((CreatorOp.claim p creator epochs).payments ctx s).map Payment.amount).sum
        (s'.bank.creatorPool : ℤ) = s.bank.creatorPool - paid ∧
          (s'.bank.spendable creator : ℤ) = s.bank.spendable creator + paid) ∧
      (∀ err, claimCreatorRewards p ctx s creator epochs = .error err →
        (CreatorOp.claim p creator epochs).deliver ctx s = (s, [])) ∧
      ((epochs = [] ∨ p.maxCreatorClaimEpochs < epochs.length ∨ ¬ epochs.Pairwise (· < ·) ∨
          ∃ e ∈ epochs, ∀ acc ce, ¬ (s.view e).Claimable ctx.time creator acc ce) →
        ∃ err, claimCreatorRewards p ctx s creator epochs = .error err) := by
  obtain ⟨-, hledger, hlogged⟩ := hrun.logged h
  refine ⟨hlogged.paidOnce hledger, fun ctx p creator epochs =>
    ⟨fun s' hok => claim_moves_payments hok, fun err herr => ?_, fun hbad => ?_⟩⟩
  · have hexec : (CreatorOp.claim p creator epochs).exec ctx s = .error err := herr
    simp only [CreatorOp.deliver, hexec]
  · obtain ⟨err, herr⟩ := claimItems_fails hbad
    exact ⟨err, by simp only [claimCreatorRewards, herr, error_bind]⟩

theorem closedWithTwoUpvotes_unclaimed : Unclaimed closedWithTwoUpvotes where
  toUnsettled := closedWithTwoUpvotes_unsettled
  claims := fun _ => rfl
  total := fun e ce hget => by
    rw [closedWithTwoUpvotes_get] at hget
    split at hget
    · cases hget
      rfl
    · cases hget

/-- The epoch with two upvotes is settled; author 9 claims it and tries again. -/
def settledThenClaimed : (CreatorState × List Payment) × List Payment :=
  let settled := (CreatorOp.settle defaultParams).deliver ⟨2000, 1, 0⟩ closedWithTwoUpvotes
  let claimed := (CreatorOp.claim defaultParams 9 [5]).deliver ⟨2010, 2, 0⟩ settled.1
  let again := (CreatorOp.claim defaultParams 9 [5]).deliver ⟨2020, 3, 0⟩ claimed.1
  (again, claimed.2 ++ settled.2)

/-- The author is paid the whole accrual by the first call and nothing by the
second. -/
theorem claims_paid_once_claimedTwice :
    PaidOnce settledThenClaimed.1.1 (settledThenClaimed.1.2 ++ settledThenClaimed.2) ∧
      settledThenClaimed.1.2 = [] ∧ paidTotal settledThenClaimed.2 9 5 = 100 := by
  have hrun : PaidRun closedWithTwoUpvotes 2000 settledThenClaimed.1.1 2020
      (settledThenClaimed.1.2 ++ settledThenClaimed.2) := by
    have hsettled := PaidRun.step ⟨2000, 1, 0⟩ (.settle defaultParams)
      (.start : PaidRun closedWithTwoUpvotes 2000 _ _ _) (le_refl (2000 : ℤ)) trivial
    have hclaimed := hsettled.step ⟨2010, 2, 0⟩ (.claim defaultParams 9 [5]) (by decide) trivial
    have hagain := hclaimed.step ⟨2020, 3, 0⟩ (.claim defaultParams 9 [5]) (by decide) trivial
    rw [append_nil] at hagain
    exact hagain
  exact ⟨(claims_paid_once closedWithTwoUpvotes_unclaimed hrun).1, by decide +kernel,
    by decide +kernel⟩

end MirageNode
