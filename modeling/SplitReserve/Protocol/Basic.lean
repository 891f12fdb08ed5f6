import SplitReserve.Event
import SplitReserve.PriceFeed
import SplitReserve.Roles
import SplitReserve.Treasury

/-!
# The protocol

A protocol holds a reserve and keeps its books: how many stable and leveraged tokens are out, how much of the reserve backs
them, the fee treasury, the price feed, who holds which role, and which contracts are its tokens and its pool.  This module has
the books and the operations of its officers; `Protocol.Pricing` and `Protocol.Trade` have those of its users.

The books alone are changed here.  Moving tokens and asking the pool what it is owed is the work of the chain.
-/

namespace SplitReserve

structure Protocol where
  roles : Roles
  treasury : Treasury
  feed : PriceFeed
  fees : FeeSchedule
  reserveToken : Address
  fToken : Address
  xToken : Address
  /-- The stability pool, once there is one. -/
  pool : Option Address
  /-- Stable tokens that are out. -/
  supplyF : Nat
  /-- Leveraged tokens that are out. -/
  supplyX : Nat
  /-- The reserve behind both, with what is owed to the pool. -/
  reserve : Nat
  bootstrapped : Bool

namespace Protocol

/-- New books, with their creator as the first admin. -/
def init (creator reserveToken fToken xToken : Address) : Protocol where
  roles := Roles.first creator
  treasury := Treasury.empty
  feed := PriceFeed.start FeedConfig.standard
  fees := FeeSchedule.standard
  reserveToken
  fToken
  xToken
  pool := none
  supplyF := 0
  supplyX := 0
  reserve := 0
  bootstrapped := false

def supply (p : Protocol) : Leg → Nat
  | .f => p.supplyF
  | .x => p.supplyX

def setSupply (p : Protocol) (leg : Leg) (amount : Nat) : Protocol :=
  match leg with
  | .f => { p with supplyF := amount }
  | .x => { p with supplyX := amount }

def token (p : Protocol) : Leg → Address
  | .f => p.fToken
  | .x => p.xToken

/-! ### Officers -/

def setPool (p : Protocol) (caller pool : Address) : Outcome Protocol := do
  p.roles.requireAdmin caller
  return { p with pool := some pool }

/-- The event of a change of role, if there was one. -/
def roleEvents (role : Nat) (account : Address) (granted changed : Bool) : List Event :=
  if changed then [.roleChanged role account granted] else []

def grantRole (p : Protocol) (caller : Address) (role : Nat) (account : Address) : Outcome (Protocol × List Event) := do
  p.roles.requireAdmin caller
  let (roles, changed) ← p.roles.grant role account
  return ({ p with roles }, roleEvents role account true changed)

def revokeRole (p : Protocol) (caller : Address) (role : Nat) (account : Address) : Outcome (Protocol × List Event) := do
  p.roles.requireAdmin caller
  let (roles, changed) ← p.roles.revoke role account
  return ({ p with roles }, roleEvents role account false changed)

/-- Everyone may give up a role. -/
def renounceRole (p : Protocol) (caller : Address) (role : Nat) : Outcome (Protocol × List Event) := do
  let (roles, changed) ← p.roles.revoke role caller
  return ({ p with roles }, roleEvents role caller false changed)

def setFees (p : Protocol) (caller : Address) (fees : FeeSchedule) : Outcome (Protocol × List Event) := do
  p.roles.requireAdmin caller
  fees.validate
  return ({ p with fees }, [.feesChanged caller])

def setFeedConfig (p : Protocol) (caller : Address) (config : FeedConfig) : Outcome Protocol := do
  p.roles.requireAdmin caller
  let feed ← p.feed.configure config
  return { p with feed }

/-- Book a withdrawal from the treasury. -/
def withdrawTreasury (p : Protocol) (caller : Address) (amount : Nat) : Outcome Protocol := do
  p.roles.requireAdmin caller
  let treasury ← p.treasury.withdraw amount
  return { p with treasury }

def updatePrice (p : Protocol) (caller : Address) (now raw seen : Nat) : Outcome (Protocol × List Event) := do
  p.roles.requireOracle caller
  let feed ← p.feed.submit raw seen now
  return ({ p with feed }, [.priceUpdated p.feed.price feed.price seen])

/-! ### The reserve -/

/-- Book an addition to the reserve. -/
def addReserve (p : Protocol) (amount : Nat) : Outcome Protocol := do
  let reserve ← demand .mathOverflow (word? (p.reserve + amount))
  return { p with reserve }

/-- Book a gift to the reserve. -/
def recapitalize (p : Protocol) (caller : Address) (amount : Nat) : Outcome Protocol := do
  p.roles.requireAdmin caller
  require (amount ≠ 0) .invalidAmount
  p.addReserve amount

/-- Book the first reserve.  Half of its value goes to stable tokens, the rest to leveraged ones, both worth a dollar each. -/
def bootstrap (p : Protocol) (caller : Address) (now amount : Nat) : Outcome Protocol := do
  p.roles.requireAdmin caller
  require (p.bootstrapped = false) .alreadyBootstrapped
  require (amount ≠ 0) .invalidAmount
  let price ← p.feed.fresh now
  let value ← demand .mathOverflow (reserveToUsd amount price)
  let supplyF := value / 2
  let supplyX := value - supplyF
  require (supplyF ≠ 0 ∧ supplyX ≠ 0) .invalidAmount
  return { p with reserve := amount, supplyF, supplyX, bootstrapped := true }

/-- Book the payment of a claim, which only the pool may ask for. -/
def payClaim (p : Protocol) (caller : Address) (amount : Nat) : Outcome Protocol := do
  require (some caller = p.pool) .unauthorized
  require (amount ≤ p.reserve) .insufficientReserve
  return { p with reserve := p.reserve - amount }

/-! ### Views -/

/-- The books at a glance. -/
structure State where
  supplyF : Nat
  supplyX : Nat
  priceF : Nat
  priceX : Nat
  price : Nat
  reserve : Nat
  treasury : Nat
  owed : Nat
  seen : Nat
  ratio : Nat
  level : Level
  deriving DecidableEq

/-- The books, when the pool is owed `owed`. -/
def state (p : Protocol) (owed : Nat) : State :=
  let ratio := collateralRatio p.reserve owed p.feed.price p.supplyF stablePrice
  { supplyF := p.supplyF
    supplyX := p.supplyX
    priceF := stablePrice
    priceX := xPrice p.reserve owed p.feed.price p.supplyF p.supplyX
    price := p.feed.price
    reserve := p.reserve
    treasury := p.treasury.balance
    owed
    seen := p.feed.seen
    ratio
    level := Level.ofRatio ratio }

end Protocol

end SplitReserve
