import MirageNode.Settlement

/-!
# Claims, expiry and pruning

What happens to an epoch once its shares are allocated. Creators claim their
accruals until a deadline (`ClaimCreatorRewards` of `keeper/creator.go`). Then
the rest of the pool is burned and the epoch's engagement details are deleted,
some keys in each block (`keeper/creator_settle.go`).
-/

namespace MirageNode

open OrderedStore Fallible

/-! ## 1. Claims -/

/-- What a claim's first loop checks about one epoch: the creator's accrual is
still unclaimed and the epoch pays out. -/
def claimableAccrual (now : ℤ) (s : CreatorState) (creator : Addr) (epoch : ℤ) :
    Except CoreError (ℤ × CreatorAccrual) :=
  match s.accruals.get (toLex (epoch, creator)) with
  | none => .error (.claimNoAccrual epoch)
  | some acc =>
    match s.epochs.get epoch with
    | none => .error (.claimEpochMissing epoch)
    | some ce => do
      failIf (ce.status ≠ .claimable) (.claimNotClaimable epoch)
      failIf (now ≥ ce.claimDeadlineUnix) (.claimWindowClosed epoch)
      failIf (s.claims.has (toLex (epoch, creator)) = true) (.claimAlreadyClaimed epoch)
      failIf (acc.claimed = true) (.claimAlreadyClaimed epoch)
      failIf (¬ acc.amount - acc.claimedAmount > 0) (.claimNothing epoch)
      return (epoch, acc)

/-- An accrual after it was claimed. -/
def CreatorAccrual.paidOut (acc : CreatorAccrual) (ctx : BlockCtx) : CreatorAccrual :=
  { acc with
    claimedAmount := acc.amount
    claimed := true
    claimedHeight := ctx.height
    claimedTxhash := ctx.txBytes }

/-- Adds a claimed amount to the epoch's total. The first loop found the epoch. -/
def addClaimedTotal (s : CreatorState) (epoch amount : ℤ) : CreatorState :=
  match s.epochs.get epoch with
  | none => s
  | some ce =>
    { s with epochs := s.epochs.set epoch { ce with claimedTotal := ce.claimedTotal + amount } }

/-- One pass of a claim's second loop. -/
def applyClaim (ctx : BlockCtx) (creator : Addr) (s : CreatorState) (item : ℤ × CreatorAccrual) :
    CreatorState :=
  let key := toLex (item.1, creator)
  addClaimedTotal
    { s with
      accruals := s.accruals.set key (item.2.paidOut ctx)
      claims := s.claims.set key () }
    item.1 item.2.amount

/-- What a claim pays. -/
def claimSum (items : List (ℤ × CreatorAccrual)) : ℤ :=
  (items.map fun item => item.2.amount - item.2.claimedAmount).sum

/-- The first part of `ClaimCreatorRewards`: the accruals to pay, if all of them
can be paid. -/
def claimItems (p : Params) (now : ℤ) (s : CreatorState) (creator : Addr) (epochs : List ℤ) :
    Except CoreError (List (ℤ × CreatorAccrual)) := do
  failIf (epochs.length < 1 ∨ epochs.length > p.maxCreatorClaimEpochs)
    (.claimCount p.maxCreatorClaimEpochs)
  failIf (¬ epochs.IsChain (· < ·)) .claimNotIncreasing
  epochs.mapM (claimableAccrual now s creator)

def claimCreatorRewards (p : Params) (ctx : BlockCtx) (s : CreatorState) (creator : Addr)
    (epochs : List ℤ) : Except CoreError CreatorState := do
  let items ← claimItems p ctx.time s creator epochs
  let s ← addCreatorLiability (items.foldl (applyClaim ctx creator) s) (-claimSum items)
  let bank ← s.bank.payFromCreatorPool creator (claimSum items).toNat
  return { s with bank := bank }

/-! ## 2. Expiry -/

/-- An epoch's record once its claim window closed. -/
def CreatorEpoch.expire (ce : CreatorEpoch) : CreatorEpoch :=
  { ce with status := .expired, prunePending := true }

def expireClaimableEpoch (s : CreatorState) (epoch : ℤ) : Except CoreError CreatorState :=
  match s.epochs.get epoch with
  | none => .error (.creatorEpochMissing epoch)
  | some ce =>
    let deadlineIdx := s.deadlineIdx.erase (toLex (ce.claimDeadlineUnix, epoch))
    if ce.status ≠ .claimable then .ok { s with deadlineIdx := deadlineIdx }
    else do
      failIf (ce.pool - ce.claimedTotal < 0) (.claimedExceedsPool epoch ce.claimedTotal ce.pool)
      let s ← burnCreatorPool s (ce.pool - ce.claimedTotal)
      return { s with
        epochs := s.epochs.set epoch ce.expire
        deadlineIdx := deadlineIdx
        pruneIdx := s.pruneIdx.set epoch () }

/-- `processCreatorExpiries`, at block time `now`. -/
def processCreatorExpiries (p : Params) (now : ℤ) (s : CreatorState) :
    Except CoreError CreatorState :=
  let n := p.creatorEpochExpiriesPerBlock
  let due := ((s.deadlineIdx.entries.take (n + 1)).filter fun e => (ofLex e.1).1 ≤ now).take n
  (due.map fun e => (ofLex e.1).2).foldlM expireClaimableEpoch s

/-! ## 3. Pruning -/

/-- `deleteCreatorPrefixBudget`: deletes the first keys that `inPrefix` selects,
at most as many as the budget, and returns the budget that is left. -/
def deleteCreatorPrefixBudget {κ α : Type} [LinearOrder κ] (m : OrderedMap κ α)
    (inPrefix : κ → Bool) (budget : ℕ) : OrderedMap κ α × ℕ :=
  let records := (m.scan inPrefix).take budget
  (records.foldl (fun m r => m.erase r.1) m, budget - records.length)

/-- An epoch's record once its details are gone. -/
def CreatorEpoch.pruned (ce : CreatorEpoch) : CreatorEpoch :=
  { ce with prunePending := false, pruneComplete := true, settlementCursor := none }

/-- `pruneEpochDetails`: engagements, counts and marks in this order, as far as
the budget goes; with budget left the epoch is done. -/
def pruneEpochDetails (s : CreatorState) (epoch : ℤ) (budget : ℕ) : CreatorState × ℕ :=
  let (engagements, budget) :=
    deleteCreatorPrefixBudget s.engagements (fun k => k.epoch = epoch) budget
  let s := { s with engagements := engagements }
  if budget = 0 then (s, 0)
  else
    let (counts, budget) :=
      deleteCreatorPrefixBudget s.counts (fun k => (ofLex k).1 = epoch) budget
    let s := { s with counts := counts }
    if budget = 0 then (s, 0)
    else
      let (validMarks, budget) :=
        deleteCreatorPrefixBudget s.validMarks (fun k => k.epoch = epoch) budget
      let s := { s with validMarks := validMarks }
      if budget = 0 then (s, 0)
      else match s.epochs.get epoch with
        | none => (s, budget)
        | some ce =>
          ({ s with
            epochs := s.epochs.set epoch ce.pruned
            pruneIdx := s.pruneIdx.erase epoch }, budget)

/-- The number of epochs one block prunes. -/
def pruneEpochsPerBlock : ℕ := 8

/-- One pass of the loop in `processCreatorPruning`. -/
def pruneNext (st : CreatorState × ℕ) (epoch : ℤ) : CreatorState × ℕ :=
  if st.2 = 0 then st else pruneEpochDetails st.1 epoch st.2

def processCreatorPruning (p : Params) (s : CreatorState) : Except CoreError CreatorState := do
  failIf (p.creatorPruneKeysPerBlock < 1) .pruneBudget
  let epochs := (s.pruneIdx.entries.take pruneEpochsPerBlock).map Prod.fst
  return (epochs.foldl pruneNext (s, p.creatorPruneKeysPerBlock)).1

end MirageNode
