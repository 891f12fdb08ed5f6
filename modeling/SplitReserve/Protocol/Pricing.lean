import SplitReserve.Protocol.Basic

/-!
# Pricing

An operation of a user is priced at the level of stress before it.  `Protocol.price` finds everything about it without doing
it, so that a quote and the operation itself have one price.  What the pool is owed is an outcome: asking for it may fail, and it
is asked only once the price is known to be fresh.
-/

namespace SplitReserve

/-- A priced operation: the reserve moved before fees, the fees, and what the user gets. -/
structure Priced where
  level : Level
  gross : Nat
  charge : Charge
  out : Nat
  deriving DecidableEq

namespace Protocol

/-- Price an operation at a known price and a known debt to the pool, but for the treasury. -/
def priceAt (p : Protocol) (price owed : Nat) (op : Operation) (amount : Nat) : Outcome Priced :=
  let level := currentLevel p.reserve owed price p.supplyF stablePrice
  let px := xPrice p.reserve owed price p.supplyF p.supplyX
  match op with
  | .mint leg => do
    -- A token that is worth nothing has no price to be minted at; a stable one always has.
    require (leg.price px ≠ 0) .actionBlocked
    let charge ← p.fees.charge op level amount
    let out ← demand .mathOverflow (mulDiv charge.net price (leg.price px))
    require (p.supply leg + out < wordLimit) .mathOverflow
    return ⟨level, amount, charge, out⟩
  | .redeem leg => do
    require (amount ≤ p.supply leg) .insufficientTokenBalance
    let gross ← demand .mathOverflow (toReserve amount (leg.price px) price)
    let charge ← p.fees.charge op level gross
    -- The fee stays in the treasury, so all of `gross` leaves the reserve.
    require (gross ≤ netReserve p.reserve owed) .insufficientReserve
    return ⟨level, gross, charge, charge.net⟩

/-- Price an operation now. -/
def price (p : Protocol) (now : Nat) (owed : Outcome Nat) (op : Operation) (amount : Nat) : Outcome Priced := do
  require p.bootstrapped .notBootstrapped
  let price ← p.feed.fresh now
  let owed ← owed
  let priced ← p.priceAt price owed op amount
  require (priced.out ≠ 0) .invalidAmount
  p.treasury.ensureCovered priced.charge.bonus
  return priced

end Protocol

end SplitReserve
