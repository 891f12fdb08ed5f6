import SplitReserve.Protocol.Pricing

/-!
# Minting, redeeming, rebalancing

The books of the operations that move the two supplies.  A mint adds its net amount to the reserve and its fee to the treasury; a
redemption takes its gross amount from the reserve; the bonus of either comes from the treasury.  A rebalance, at the worst
level only, plans a burn of stable tokens held by the pool and a payout for them, which the pool may cut.
-/

namespace SplitReserve

namespace Protocol

/-- Price an operation that must give its user at least `least`, and settle its fee and bonus. -/
def settle (p : Protocol) (now : Nat) (owed : Outcome Nat) (op : Operation) (amount least : Nat) :
    Outcome (Protocol × Priced) := do
  let priced ← p.price now owed op amount
  require (least ≤ priced.out) .slippageExceeded
  let treasury ← p.treasury.settle op priced.charge.fee priced.charge.bonus
  return ({ p with treasury }, priced)

/-- Book the minting of tokens for `amount` of the reserve. -/
def mint (p : Protocol) (now : Nat) (owed : Outcome Nat) (leg : Leg) (amount least : Nat) :
    Outcome (Protocol × Priced) := do
  let (p, priced) ← p.settle now owed (.mint leg) amount least
  let p ← p.addReserve priced.charge.net
  let supply ← demand .mathOverflow (word? (p.supply leg + priced.out))
  return (p.setSupply leg supply, priced)

/-- Book the redemption of `amount` tokens. -/
def redeem (p : Protocol) (now : Nat) (owed : Outcome Nat) (leg : Leg) (amount least : Nat) :
    Outcome (Protocol × Priced) := do
  let (p, priced) ← p.settle now owed (.redeem leg) amount least
  let reserve ← subtract p.reserve priced.gross
  let supply ← subtract (p.supply leg) amount
  return ({ p with reserve }.setSupply leg supply, priced)

/-! ### Rebalancing -/

/-- One rebalance burns at most half of the stable tokens, in basis points. -/
def maxBurnShare : Nat := 5000

/-- The burn that a rebalance asks of the pool, the payout for it, and the price at which it was planned. -/
structure Plan where
  price : Nat
  burn : Nat
  payout : Nat
  deriving DecidableEq

/-- Plan a rebalance towards the ratio `target`; there is nothing to plan without a fresh price, above the worst level, or when
nothing is to be burned. -/
def planRebalance (p : Protocol) (now : Nat) (owed : Outcome Nat) (target : Nat) : Outcome (Option Plan) :=
  match p.feed.fresh now with
  | .error _ => .ok none
  | .ok price => do
    if p.supplyF = 0 then return none
    let owed ← owed
    if currentLevel p.reserve owed price p.supplyF stablePrice ≠ .l3 then return none
    let net := netReserve p.reserve owed
    let need := burnNeeded net price p.supplyF stablePrice target
    let burn := min need (p.supplyF * maxBurnShare / bpsScale)
    if burn = 0 then return none
    let payout ← demand .mathOverflow (toReserve burn stablePrice price)
    return some ⟨price, burn, min payout net⟩

/-! ### Harvesting -/

/-- The share of harvested yield that the keeper keeps, in basis points. -/
def bountyRate : Nat := 100

/-- The keeper's share of a yield. -/
def bounty (amount : Nat) : Nat := amount * bountyRate / bpsScale

end Protocol

end SplitReserve
