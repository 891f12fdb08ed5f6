import SplitReserve.Chain.Reply
import SplitReserve.Chain.Session

/-!
# Calls of pools

A deposit draws stable tokens from the depositor, a withdrawal pays them back, and a claim asks the controller to pay out of its
reserve.  The pool books each of them first; when the tokens cannot be moved, the whole call fails.
-/

namespace SplitReserve

open Work in
/-- Pay a claim out of the reserve of the protocol at `self`. -/
def Protocol.runPayClaim (self caller : Address) (p : Protocol) (recipient : Address) (amount : Nat) : Work Unit := do
  let p ← p.payClaim caller amount
  save self (.protocol p)
  pay p.reserveToken self recipient amount

/-- Ask the controller of the pool `self` to pay a claim. -/
def Work.askForPayment (controller self recipient : Address) (amount : Nat) : Work Unit := do
  match ← (← chain).callee controller with
  | .protocol p => Protocol.runPayClaim controller self p recipient amount
  | .token _ | .listing _ | .pool _ | .bench _ => throw (.noEntry .payClaim)

namespace Pool

open Work

def runDeposit (self caller : Address) (p : Pool) (amount : Nat) : Work Unit := do
  let (p, shares) ← p.deposit caller amount
  save self (.pool p)
  draw p.token self caller amount
  announce self [.deposited caller amount shares]

def runWithdraw (self caller : Address) (p : Pool) (amount : Nat) : Work Unit := do
  let (p, shares) ← p.withdraw caller amount
  save self (.pool p)
  pay p.token self caller amount
  announce self [.withdrawn caller amount shares]

/-- A claim of nothing is settled and paid by nobody. -/
def runClaim (self caller : Address) (p : Pool) : Work Nat := do
  let (p, amount) ← p.claim caller
  save self (.pool p)
  if amount = 0 then return 0
  let controller ← demand .notConfigured p.controller
  askForPayment controller self caller amount
  announce self [.claimed caller amount]
  return amount

def runClose (self caller : Address) (p : Pool) : Work Unit := do
  let p ← p.close caller
  commit self (.pool p) [.positionClosed caller]

/-- The answer is the stable tokens to burn and the reserve owed for them. -/
def runBear (self caller : Address) (p : Pool) (burn payout : Nat) : Work (Nat × Nat) := do
  let (p, loss) ← p.bear caller burn payout
  if loss.burn = 0 then return (0, 0)
  commit self (.pool p) [.lossShared loss.burn loss.payout loss.scale p.index]
  return (loss.burn, loss.payout)

def runIndexRewards (self caller : Address) (p : Pool) (amount : Nat) : Work Nat := do
  let (p, indexed) ← p.indexRewards caller amount
  if indexed = 0 then return 0
  commit self (.pool p) [.rewardsIndexed indexed p.index]
  return indexed

inductive Call
  | setController (controller : Address)
  | deposit (amount : Nat)
  | withdraw (amount : Nat)
  | claim
  | close
  | bear (burn payout : Nat)
  | indexRewards (amount : Nat)

/-- Carry out a call of the pool at `self`. -/
def Call.run (self caller : Address) (p : Pool) : Call → Work Reply
  | .setController controller => do
    let p ← p.setController caller controller
    save self (.pool p)
    return .nothing
  | .deposit amount => do
    runDeposit self caller p amount
    return .nothing
  | .withdraw amount => do
    runWithdraw self caller p amount
    return .nothing
  | .claim => return .amount (← runClaim self caller p)
  | .close => do
    runClose self caller p
    return .nothing
  | .bear burn payout => do
    let (burned, paid) ← runBear self caller p burn payout
    return .amounts burned paid
  | .indexRewards amount => return .amount (← runIndexRewards self caller p amount)

inductive Query
  | owed
  | total
  | scale
  | index
  | shares
  | position (depositor : Address)
  | isOpen (depositor : Address)
  | actual (depositor : Address)
  | pending (depositor : Address)
  | lossCap
  | sharesFor (amount : Nat)
  | stats
  | controller
  | token

def Query.answer (p : Pool) : Query → Outcome Reply
  | .owed => .ok (.amount p.owed)
  | .total => p.total.map .amount
  | .scale => .ok (.amount p.scale)
  | .index => .ok (.amount p.index)
  | .shares => .ok (.amount p.shares)
  | .position depositor => .ok (.position (p.position depositor))
  | .isOpen depositor => .ok (.flag (p.isOpen depositor))
  | .actual depositor => (p.actual depositor).map .amount
  | .pending depositor => (p.pending depositor).map .amount
  | .lossCap => p.lossCap.map .amount
  | .sharesFor amount => .ok (.amount (p.sharesFor amount))
  | .stats => p.stats.map .stats
  | .controller => .ok (.optional .address p.controller)
  | .token => .ok (.address p.token)

end Pool

end SplitReserve
