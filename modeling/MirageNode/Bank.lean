import MirageNode.SafeMath
import MirageNode.Lib.OrderedMap

/-!
# Coins

The bank keeper, as far as the core module uses it: the mint-denomination coins
of user accounts, of the creator pool and of the core module account. A call
moves exactly the requested amount or fails without effect.
-/

namespace MirageNode

open OrderedStore Fallible

/-- An account address, by the number its bytes spell. -/
abbrev Addr := ℕ

/-- Spendable account balances, the creator pool and the core module account. This stands for the
bank keeper of the SDK, of which it is assumed that a transfer, mint or burn moves exactly the
amount it is given or fails and moves nothing. -/
structure Bank where
  accounts : OrderedMap Addr ℕ
  creatorPool : ℕ
  core : ℕ

namespace Bank

/-- The spendable balance of an account. -/
def spendable (b : Bank) (addr : Addr) : ℕ := (b.accounts.get addr).getD 0

/-- Takes coins from an account, after the spendable-balance check. -/
def debit (b : Bank) (addr : Addr) (amount : ℕ) : Except CoreError Bank := do
  failIf (b.spendable addr < amount) (.insufficientFunds amount)
  return { b with accounts := b.accounts.set addr (b.spendable addr - amount) }

def burnCoinsTracked (b : Bank) (amount : ℕ) : Except CoreError Bank := do
  failIf (b.core < amount) (.bankUnexpectedFunds "burn_core_coins")
  return { b with core := b.core - amount }

def burnFromAccount (b : Bank) (addr : Addr) (amount : ℕ) : Except CoreError Bank :=
  if amount = 0 then .ok b
  else do
    let b ← b.debit addr amount
    burnCoinsTracked { b with core := b.core + amount } amount

def sendToCreatorPool (b : Bank) (payer : Addr) (amount : ℕ) : Except CoreError Bank := do
  let b ← b.debit payer amount
  return { b with creatorPool := b.creatorPool + amount }

/-- The transfer out of the creator pool in `burnCreatorPool`, and the burn. -/
def burnFromCreatorPool (b : Bank) (amount : ℕ) : Except CoreError Bank := do
  failIf (b.creatorPool < amount) (.bankUnexpectedFunds "creator_pool_to_core")
  burnCoinsTracked { b with creatorPool := b.creatorPool - amount, core := b.core + amount } amount

/-- The payment out of the creator pool in `ClaimCreatorRewards`. -/
def payFromCreatorPool (b : Bank) (creator : Addr) (amount : ℕ) : Except CoreError Bank := do
  failIf (b.creatorPool < amount) (.bankUnexpectedFunds "claim_creator_rewards")
  return { b with
    creatorPool := b.creatorPool - amount
    accounts := b.accounts.set creator (b.spendable creator + amount) }

end Bank

end MirageNode
