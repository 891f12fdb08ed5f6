import SplitReserve.Amount

/-!
# The price feed

A feeder reports prices of the reserve, each with the time at which it was seen.  A report is accepted when it is fresh, not
older than the last accepted one, and not too far from the last accepted price.  Prices are read back only while they are
fresh.  All times are in seconds.
-/

namespace SplitReserve

/-- What can be said about a price. -/
inductive PriceStatus
  | ok
  | unavailable
  | stale
  | step
  deriving DecidableEq

/-- The limits of a feed: the age at which a price is stale, and the relative step, in basis points, that is too large. -/
structure FeedConfig where
  maxAge : Nat
  maxStep : Nat
  deriving DecidableEq

namespace FeedConfig

/-- An hour, and a step of a fifth. -/
def standard : FeedConfig := ⟨3600, 2000⟩

instance : Inhabited FeedConfig := ⟨standard⟩

/-- Both limits are positive, and no step takes a price to zero. -/
def Valid (c : FeedConfig) : Prop := c.maxAge ≠ 0 ∧ c.maxStep ≠ 0 ∧ c.maxStep < bpsScale

instance (c : FeedConfig) : Decidable c.Valid := by unfold Valid; infer_instance

def validate (c : FeedConfig) : Outcome Unit := require c.Valid .invalidConfig

end FeedConfig

/-- A price seen at `seen` is stale at `now` when it has reached the age `maxAge`, or comes from the future. -/
def checkAge (now seen maxAge : Nat) : PriceStatus :=
  if now < seen ∨ maxAge ≤ now - seen then .stale else .ok

/-- The distance between two numbers. -/
def distance (a b : Nat) : Nat := if a ≤ b then b - a else a - b

/-- The step from `old` to `new` is too large when it is at least `maxStep` basis points of `old`.  Without an old price every
step is in order. -/
def checkStep (new old maxStep : Nat) : PriceStatus :=
  if old = 0 then .ok
  else if maxStep * old ≤ distance new old * bpsScale then .step
  else .ok

/-- The price for a reported one. -/
def feedToPrice (raw : Nat) : Option Nat := word? (raw * feedFactor)

/-- The last accepted price, zero before the first, and the time at which it was seen. -/
structure PriceFeed where
  price : Nat
  seen : Nat
  config : FeedConfig
  deriving DecidableEq

namespace PriceFeed

/-- A feed without a price. -/
def start (config : FeedConfig) : PriceFeed := ⟨0, 0, config⟩

instance : Inhabited PriceFeed := ⟨start FeedConfig.standard⟩

/-- Accept a reported price. -/
def submit (f : PriceFeed) (raw seen now : Nat) : Outcome PriceFeed := do
  require (raw ≠ 0) .invalidAmount
  let price ← demand .mathOverflow (feedToPrice raw)
  require (checkAge now seen f.config.maxAge = .ok) .oracleStale
  require (f.seen ≤ seen) .oracleStale
  require (checkStep price f.price f.config.maxStep = .ok) .oracleStep
  return { f with price, seen }

def status (f : PriceFeed) (now : Nat) : PriceStatus :=
  if f.price = 0 then .unavailable else checkAge now f.seen f.config.maxAge

/-- The price, if operations may use it. -/
def fresh (f : PriceFeed) (now : Nat) : Outcome Nat :=
  match f.status now with
  | .ok => .ok f.price
  | .unavailable => refuse .oraclePriceUnavailable
  | .stale => refuse .oracleStale
  | .step => refuse .oracleStale

def configure (f : PriceFeed) (config : FeedConfig) : Outcome PriceFeed := do
  config.validate
  return { f with config }

end PriceFeed

end SplitReserve
