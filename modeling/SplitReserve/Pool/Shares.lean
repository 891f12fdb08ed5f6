import SplitReserve.Amount

/-!
# Shares and rewards

A pool holds stable tokens for many depositors.  Deposits are counted in shares, whose worth is a common scale: a loss of the
pool shrinks the scale and touches no deposit.  Rewards go to an index, the reward per share since the beginning; a deposit
remembers the index at which it was last settled.

Shares are rounded against the depositor: down when they are issued, up when they are taken back.
-/

namespace SplitReserve

/-- The stable tokens that shares are worth. -/
def sharesToStable (shares scale : Nat) : Outcome Nat := do
  let product ← mulWide shares scale
  return product / shareScale

/-- The shares issued for stable tokens. -/
def sharesIssued (amount scale : Nat) : Option Nat := mulDivWide amount shareScale scale

/-- The shares taken back for stable tokens. -/
def sharesTaken (amount scale : Nat) : Option Nat := mulDivWideUp amount shareScale scale

/-- The reward of shares since the index stood at `snapshot`. -/
def pendingReward (shares index snapshot : Nat) : Outcome Nat := do
  let product ← mulWide shares (index - snapshot)
  return product / indexScale

/-- A single loss takes at most half of a pool, in basis points. -/
def maxLossShare : Nat := 5000

/-- The largest loss for a pool that holds `total` stable tokens. -/
def burnCap (total : Nat) : Nat := total * maxLossShare / bpsScale

end SplitReserve
