import SplitReserve.Fees

/-!
# The fee treasury

Fees come in, bonuses and withdrawals go out, and counters keep the totals of each: in all, by operation for the fees, and
for what was paid out.
-/

namespace SplitReserve

structure Treasury where
  balance : Nat
  collected : Nat
  mintF : Nat
  mintX : Nat
  redeemF : Nat
  redeemX : Nat
  bonuses : Nat
  withdrawn : Nat
  deriving DecidableEq, Inhabited

namespace Treasury

def empty : Treasury := ⟨0, 0, 0, 0, 0, 0, 0, 0⟩

/-- The fees that one kind of operation has paid. -/
def collectedBy (t : Treasury) : Operation → Nat
  | .mint .f => t.mintF
  | .mint .x => t.mintX
  | .redeem .f => t.redeemF
  | .redeem .x => t.redeemX

def setCollectedBy (t : Treasury) (op : Operation) (n : Nat) : Treasury :=
  match op with
  | .mint .f => { t with mintF := n }
  | .mint .x => { t with mintX := n }
  | .redeem .f => { t with redeemF := n }
  | .redeem .x => { t with redeemX := n }

/-- Bonuses are paid from what was there before the operation. -/
def ensureCovered (t : Treasury) (bonus : Nat) : Outcome Unit := require (bonus ≤ t.balance) .insufficientBonusFunds

/-- Book the fee of one operation. -/
def recordFee (t : Treasury) (op : Operation) (fee : Nat) : Outcome Treasury :=
  if fee = 0 then .ok t
  else do
    let balance ← demand .mathOverflow (word? (t.balance + fee))
    let collected ← demand .mathOverflow (word? (t.collected + fee))
    let n ← demand .mathOverflow (word? (t.collectedBy op + fee))
    return { t.setCollectedBy op n with balance, collected }

/-- Book the fee and pay the bonus of one operation. -/
def settle (t : Treasury) (op : Operation) (fee bonus : Nat) : Outcome Treasury := do
  t.ensureCovered bonus
  let t ← t.recordFee op fee
  let balance ← subtract t.balance bonus
  let bonuses ← demand .mathOverflow (word? (t.bonuses + bonus))
  return { t with balance, bonuses }

def withdraw (t : Treasury) (amount : Nat) : Outcome Treasury := do
  require (amount ≠ 0) .invalidAmount
  require (amount ≤ t.balance) .insufficientTreasury
  let withdrawn ← demand .mathOverflow (word? (t.withdrawn + amount))
  return { t with balance := t.balance - amount, withdrawn }

end Treasury

end SplitReserve
