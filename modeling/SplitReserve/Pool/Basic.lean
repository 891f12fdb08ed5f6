import SplitReserve.Address
import SplitReserve.Pool.Loss
import SplitReserve.Table

/-!
# The stability pool

Depositors leave stable tokens in a pool.  Its controller may burn part of them for a payout in the reserve, and may add
rewards in the reserve; both reach the depositors through the scale and the index, and what the pool owes them is kept as one
sum.  Every act of a depositor first settles the deposit: rewards since the last settlement become claimable.

The operations here are those of the books alone.  They say how much is to be moved; moving tokens is the work of the chain.
-/

namespace SplitReserve

/-- A deposit: its shares, the index at its last settlement, and the rewards settled and not yet claimed. -/
structure Position where
  shares : Nat
  snapshot : Nat
  claimable : Nat
  deriving DecidableEq, Inhabited

structure Pool where
  owner : Address
  /-- The one contract that may share losses and index rewards. -/
  controller : Option Address
  /-- The stable token. -/
  token : Address
  scale : Nat
  /-- The shares of all positions. -/
  shares : Nat
  index : Nat
  /-- The reserve owed to depositors. -/
  owed : Nat
  positions : Table Address Position
  opened : Table Address Bool
  depositors : Nat
  /-- Stable tokens burned so far. -/
  burned : Nat
  /-- Rewards indexed so far. -/
  indexed : Nat
  /-- Rewards claimed so far. -/
  claimed : Nat

namespace Pool

/-- A new pool for a stable token. -/
def init (token creator : Address) : Pool where
  owner := creator
  controller := none
  token
  scale := shareScale
  shares := 0
  index := 0
  owed := 0
  positions := ∅
  opened := ∅
  depositors := 0
  burned := 0
  indexed := 0
  claimed := 0

/-- The position as it was last settled; one that never was is empty. -/
def position (p : Pool) (a : Address) : Position := p.positions.get a

def isOpen (p : Pool) (a : Address) : Bool := p.opened.get a

def setPosition (p : Pool) (a : Address) (s : Position) : Pool := { p with positions := p.positions.insert a s }

/-- The position with all rewards up to now made claimable. -/
def settled (p : Pool) (a : Address) : Outcome Position := do
  let s := p.position a
  let pending ← pendingReward s.shares p.index s.snapshot
  return { s with snapshot := p.index, claimable := clampWord (s.claimable + clampWord pending) }

/-! ### Depositors -/

/-- Open the position of `a` unless it is open. -/
def openPosition (p : Pool) (a : Address) : Pool :=
  if p.isOpen a then p
  else { p with opened := p.opened.insert a true, depositors := clampWord (p.depositors + 1) }

/-- Book a deposit; the answer is the shares issued. -/
def deposit (p : Pool) (depositor : Address) (amount : Nat) : Outcome (Pool × Nat) := do
  require (amount ≠ 0) .invalidAmount
  require (p.scale ≠ 0) .poolDepleted
  let s ← p.settled depositor
  let shares ← demand .mathOverflow (sharesIssued amount p.scale)
  require (shares ≠ 0) .invalidAmount
  let held ← demand .mathOverflow (wide? (s.shares + shares))
  let total ← demand .mathOverflow (wide? (p.shares + shares))
  return ({ (p.setPosition depositor { s with shares := held }).openPosition depositor with shares := total }, shares)

/-- Book a withdrawal; the answer is the shares taken back.  Whoever withdraws everything gives back every share. -/
def withdraw (p : Pool) (depositor : Address) (amount : Nat) : Outcome (Pool × Nat) := do
  require (amount ≠ 0) .invalidAmount
  let s ← p.settled depositor
  let worth ← sharesToStable s.shares p.scale
  let actual := clampWord worth
  require (amount ≤ actual) .insufficientPoolBalance
  let shares ←
    -- Rounding up may ask for more than there is, and must not leave a remainder worth nothing.
    if amount = actual then .ok s.shares
    else (demand .mathOverflow (sharesTaken amount p.scale)).map (min · s.shares)
  let left ← subtract s.shares shares
  return ({ p.setPosition depositor { s with shares := left } with shares := p.shares - shares }, shares)

/-- Book a claim of all rewards; the answer is the amount to pay.  An account that has never had a position has no rewards. -/
def claim (p : Pool) (depositor : Address) : Outcome (Pool × Nat) :=
  match p.positions.find? depositor with
  | none => .ok (p, 0)
  | some _ => do
    let s ← p.settled depositor
    let amount := s.claimable
    let p := p.setPosition depositor { s with claimable := 0 }
    if amount = 0 then return (p, 0)
    require (amount ≤ p.owed) .invariantViolation
    return ({ p with owed := p.owed - amount, claimed := clampWord (p.claimed + amount) }, amount)

/-- Close an empty position. -/
def close (p : Pool) (depositor : Address) : Outcome Pool := do
  require (p.isOpen depositor) .noPosition
  let s ← p.settled depositor
  require (s.shares = 0 ∧ s.claimable = 0) .positionNotEmpty
  return { p.setPosition depositor default with
    opened := p.opened.insert depositor false
    depositors := p.depositors - 1 }

/-! ### The controller -/

def setController (p : Pool) (caller controller : Address) : Outcome Pool := do
  require (caller = p.owner) .unauthorized
  return { p with controller := some controller }

def requireController (p : Pool) (caller : Address) : Outcome Unit := do
  let controller ← demand .notConfigured p.controller
  require (controller = caller) .unauthorized

/-- Let the pool bear a loss. -/
def bear (p : Pool) (caller : Address) (burn payout : Nat) : Outcome (Pool × Loss) := do
  p.requireController caller
  let loss ← Loss.share p.scale p.shares burn payout
  if loss.burn = 0 then return (p, loss)
  let index ← demand .mathOverflow (wide? (p.index + loss.indexDelta))
  let owed ← demand .mathOverflow (word? (p.owed + loss.payout))
  return ({ p with
    index
    owed
    scale := loss.scale
    burned := clampWord (p.burned + loss.burn)
    indexed := clampWord (p.indexed + loss.payout) }, loss)

/-- Spread rewards over all shares; the answer is the amount spread, which is nothing when there are no shares. -/
def indexRewards (p : Pool) (caller : Address) (amount : Nat) : Outcome (Pool × Nat) := do
  p.requireController caller
  if amount = 0 ∨ p.shares = 0 then return (p, 0)
  let delta ← demand .mathOverflow (mulDivWide amount indexScale p.shares)
  let index ← demand .mathOverflow (wide? (p.index + delta))
  let owed ← demand .mathOverflow (word? (p.owed + amount))
  return ({ p with index, owed, indexed := clampWord (p.indexed + amount) }, amount)

/-! ### Views -/

/-- The stable tokens that all shares are worth. -/
def total (p : Pool) : Outcome Nat := (sharesToStable p.shares p.scale).map clampWord

/-- The stable tokens that one position is worth. -/
def actual (p : Pool) (a : Address) : Outcome Nat := (sharesToStable (p.position a).shares p.scale).map clampWord

/-- The rewards that a claim would pay. -/
def pending (p : Pool) (a : Address) : Outcome Nat := (p.settled a).map Position.claimable

/-- The largest loss that the pool would bear now. -/
def lossCap (p : Pool) : Outcome Nat := p.total.map burnCap

/-- The shares that a deposit would be issued now. -/
def sharesFor (p : Pool) (amount : Nat) : Nat := (sharesIssued amount p.scale).getD 0

/-- A pool at a glance. -/
structure Stats where
  total : Nat
  shares : Nat
  scale : Nat
  index : Nat
  owed : Nat
  depositors : Nat
  burned : Nat
  indexed : Nat
  claimed : Nat
  deriving DecidableEq

def stats (p : Pool) : Outcome Stats := do
  let total ← p.total
  return ⟨total, p.shares, p.scale, p.index, p.owed, p.depositors, p.burned, p.indexed, p.claimed⟩

end Pool

end SplitReserve
