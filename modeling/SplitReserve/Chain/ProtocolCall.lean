import SplitReserve.Chain.PoolCall

/-!
# Calls of protocols

A user's operation draws or pays the reserve token and mints or burns the other one; a rebalance has the pool bear a loss and
burns its stable tokens; a harvest has the pool index what is drawn from the keeper.  As with pools, the books come first and a
failure anywhere undoes them.
-/

namespace SplitReserve

namespace Work

/-- Have the pool at `pool` bear a loss that its controller `self` asks for. -/
def askToBear (pool self : Address) (burn payout : Nat) : Work (Nat × Nat) := do
  match ← (← chain).callee pool with
  | .pool s => Pool.runBear pool self s burn payout
  | .token _ | .listing _ | .protocol _ | .bench _ => throw (.noEntry .bearLoss)

/-- Have the pool at `pool` index rewards that its controller `self` brings. -/
def askToIndex (pool self : Address) (amount : Nat) : Work Nat := do
  match ← (← chain).callee pool with
  | .pool s => Pool.runIndexRewards pool self s amount
  | .token _ | .listing _ | .protocol _ | .bench _ => throw (.noEntry .indexRewards)

end Work

namespace Protocol

open Work

/-! ### Users -/

def runMint (self caller : Address) (p : Protocol) (leg : Leg) (amount least : Nat) : Work Nat := do
  let c ← chain
  let (p, priced) ← p.mint c.now (c.owed p) leg amount least
  save self (.protocol p)
  draw p.reserveToken self caller amount
  Work.mint (p.token leg) self caller priced.out
  announce self
    [.minted caller (.mint leg) priced.level amount priced.out priced.charge.fee priced.charge.bonus]
  return priced.out

def runRedeem (self caller : Address) (p : Protocol) (leg : Leg) (amount least : Nat) : Work Nat := do
  let c ← chain
  let (p, priced) ← p.redeem c.now (c.owed p) leg amount least
  save self (.protocol p)
  burn (p.token leg) self caller amount
  pay p.reserveToken self caller priced.out
  announce self
    [.redeemed caller (.redeem leg) priced.level amount priced.out priced.charge.fee priced.charge.bonus]
  return priced.out

/-! ### Keepers -/

/-- The answer is the stable tokens burned and the reserve owed for them. -/
def runRebalance (self caller : Address) (p : Protocol) (target : Nat) : Work (Nat × Nat) := do
  p.roles.requireKeeper caller
  require (target ≠ 0) .invalidAmount
  let pool ← demand .notConfigured p.pool
  let c ← chain
  match ← p.planRebalance c.now (c.owed p) target with
  | none => return (0, 0)
  | some plan => do
    let (burned, payout) ← askToBear pool self plan.burn plan.payout
    if burned = 0 then return (0, 0)
    let supplyF ← subtract p.supplyF burned
    let p := { p with supplyF }
    save self (.protocol p)
    burn p.fToken self pool burned
    -- The loss that the pool has borne is owed to its depositors by now.
    let owed ← (← chain).owed p
    require (owed ≤ p.reserve) .insufficientReserve
    announce self
      [.rebalanced caller target burned payout
        (collateralRatio p.reserve owed plan.price p.supplyF stablePrice)]
    return (burned, payout)

/-- The answer is what the keeper keeps, which is nothing when there was nothing to index or nobody to index it for. -/
def runHarvest (self caller : Address) (p : Protocol) (amount : Nat) : Work Nat := do
  p.roles.requireKeeper caller
  require (amount ≠ 0) .invalidAmount
  let pool ← demand .notConfigured p.pool
  let share ← subtract amount (bounty amount)
  if share = 0 then return 0
  let indexed ← askToIndex pool self share
  if indexed = 0 then return 0
  let p ← p.addReserve indexed
  save self (.protocol p)
  draw p.reserveToken self caller indexed
  announce self [.yieldHarvested caller amount (bounty amount) indexed]
  return bounty amount

/-! ### Admins -/

def runWithdrawTreasury (self caller : Address) (p : Protocol) (recipient : Address) (amount : Nat) : Work Unit := do
  let p ← p.withdrawTreasury caller amount
  save self (.protocol p)
  pay p.reserveToken self recipient amount
  announce self [.treasuryWithdrawn recipient amount]

def runRecapitalize (self caller : Address) (p : Protocol) (amount : Nat) : Work Unit := do
  let p ← p.recapitalize caller amount
  save self (.protocol p)
  draw p.reserveToken self caller amount
  let owed ← (← chain).owed p
  announce self
    [.recapitalized caller amount (collateralRatio p.reserve owed p.feed.price p.supplyF stablePrice)]

def runBootstrap (self caller : Address) (p : Protocol) (amount : Nat) : Work Unit := do
  let p ← p.bootstrap caller (← chain).now amount
  save self (.protocol p)
  draw p.reserveToken self caller amount
  Work.mint p.fToken self caller p.supplyF
  Work.mint p.xToken self caller p.supplyX
  announce self [.bootstrapped caller amount p.supplyF p.supplyX]

/-! ### Entries -/

inductive Call
  | setPool (pool : Address)
  | grantRole (role : Nat) (account : Address)
  | revokeRole (role : Nat) (account : Address)
  | renounceRole (role : Nat)
  | setFees (fees : FeeSchedule)
  | setFeedConfig (config : FeedConfig)
  | withdrawTreasury (recipient : Address) (amount : Nat)
  | recapitalize (amount : Nat)
  | bootstrap (amount : Nat)
  | updatePrice (raw seen : Nat)
  | mint (leg : Leg) (amount least : Nat)
  | redeem (leg : Leg) (amount least : Nat)
  | rebalance (target : Nat)
  | harvest (amount : Nat)
  | payClaim (recipient : Address) (amount : Nat)

/-- Carry out an operation on the books alone. -/
def runOnBooks (self : Address) (result : Outcome (Protocol × List Event)) : Work Reply := do
  let (p, es) ← result
  commit self (.protocol p) es
  return .nothing

/-- Carry out a call of the protocol at `self`. -/
def Call.run (self caller : Address) (p : Protocol) : Call → Work Reply
  | .setPool pool => runOnBooks self ((p.setPool caller pool).map fun p => (p, []))
  | .grantRole role account => runOnBooks self (p.grantRole caller role account)
  | .revokeRole role account => runOnBooks self (p.revokeRole caller role account)
  | .renounceRole role => runOnBooks self (p.renounceRole caller role)
  | .setFees fees => runOnBooks self (p.setFees caller fees)
  | .setFeedConfig config => runOnBooks self ((p.setFeedConfig caller config).map fun p => (p, []))
  | .withdrawTreasury recipient amount => do
    runWithdrawTreasury self caller p recipient amount
    return .nothing
  | .recapitalize amount => do
    runRecapitalize self caller p amount
    return .nothing
  | .bootstrap amount => do
    runBootstrap self caller p amount
    return .nothing
  | .updatePrice raw seen => do
    let c ← chain
    runOnBooks self (p.updatePrice caller c.now raw seen)
  | .mint leg amount least => return .amount (← runMint self caller p leg amount least)
  | .redeem leg amount least => return .amount (← runRedeem self caller p leg amount least)
  | .rebalance target => do
    let (burned, payout) ← runRebalance self caller p target
    return .amounts burned payout
  | .harvest amount => return .amount (← runHarvest self caller p amount)
  | .payClaim recipient amount => do
    runPayClaim self caller p recipient amount
    return .nothing

inductive Query
  | state
  | owed
  | invariant
  | ratio
  | level
  | quote (op : Operation) (amount : Nat)
  | feedStatus
  | feedConfig
  | fees
  | breakdown
  | treasuryBalance
  | hasRole (role : Nat) (account : Address)
  | bootstrapped
  | supplyF
  | supplyX
  | reserve
  | time
  | pool
  | reserveToken
  | fToken
  | xToken

/-- Whether the books agree with the tokens: the reserve covers the debt to the pool, the supplies are those of the tokens, and
the reserve tokens held cover the reserve and the treasury. -/
def invariant (c : Chain) (self : Address) (p : Protocol) : Outcome Bool := do
  let owed ← c.owed p
  if p.reserve < owed then return false
  let supplyF ← c.supplyAt p.fToken
  if supplyF ≠ p.supplyF then return false
  let supplyX ← c.supplyAt p.xToken
  if supplyX ≠ p.supplyX then return false
  let held ← c.balanceAt p.reserveToken self
  let needed ← addWide p.reserve p.treasury.balance
  return decide (needed ≤ held)

/-- The price of an operation, without the operation. -/
def quote (c : Chain) (p : Protocol) (op : Operation) (amount : Nat) : Outcome Quote := do
  let priced ← p.price c.now (c.owed p) op amount
  return ⟨priced.out, priced.charge.fee, priced.charge.bonus, priced.level⟩

def Query.answer (c : Chain) (self : Address) (p : Protocol) : Query → Outcome Reply
  | .state => (c.owed p).map fun owed => .state (p.state owed)
  | .owed => (c.owed p).map .amount
  | .invariant => (p.invariant c self).map .flag
  | .ratio => (c.owed p).map fun owed => .amount (p.state owed).ratio
  | .level => (c.owed p).map fun owed => .level (p.state owed).level
  | .quote op amount => (p.quote c op amount).map .quote
  | .feedStatus => .ok (.status (p.feed.status c.now))
  | .feedConfig => .ok (.feedConfig p.feed.config)
  | .fees => .ok (.fees p.fees)
  | .breakdown => .ok (.treasury p.treasury)
  | .treasuryBalance => .ok (.amount p.treasury.balance)
  | .hasRole role account => .ok (.flag (p.roles.hasRole role account))
  | .bootstrapped => .ok (.flag p.bootstrapped)
  | .supplyF => .ok (.amount p.supplyF)
  | .supplyX => .ok (.amount p.supplyX)
  | .reserve => .ok (.amount p.reserve)
  | .time => .ok (.amount c.now)
  | .pool => .ok (.optional .address p.pool)
  | .reserveToken => .ok (.address p.reserveToken)
  | .fToken => .ok (.address p.fToken)
  | .xToken => .ok (.address p.xToken)

end Protocol

end SplitReserve
