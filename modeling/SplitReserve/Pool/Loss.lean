import SplitReserve.Pool.Shares

/-!
# Sharing a loss

A loss burns stable tokens of a pool and pays for them in the reserve.  `Loss.share` cuts the burn to the cap and the payout in
the same proportion, and finds the scale and the index that spread both over all shares.  Scales are rounded down, so a coarse
scale would take more than the burn; when the excess passes a millionth of what is left, and a unit, nothing is burned.
-/

namespace SplitReserve

/-- What a loss does to a pool. -/
structure Loss where
  burn : Nat
  payout : Nat
  indexDelta : Nat
  scale : Nat
  deriving DecidableEq

namespace Loss

/-- The excess that rounding may take is one part in this many. -/
def tolerance : Nat := 1000000

/-- No loss. -/
def none (scale : Nat) : Loss := ⟨0, 0, 0, scale⟩

/-- What a pool with `shares` at `scale` bears of a burn, and of the payout for it. -/
def share (scale shares burn payout : Nat) : Outcome Loss := do
  let worth ← sharesToStable shares scale
  let total ← demand .mathOverflow (word? worth)
  if total = 0 ∨ burn = 0 then return none scale
  let allowed := min burn (burnCap total)
  if allowed = 0 then return none scale
  let paid ← demand .mathOverflow (mulDiv payout allowed burn)
  let indexDelta ← demand .mathOverflow (mulDivWide paid indexScale shares)
  let target ← subtract total allowed
  let newScale ← demand .mathOverflow (mulDiv scale target total)
  -- What the shares are worth at the new scale is at most `target`; the rest of it is lost to rounding.
  let worthAfter ← sharesToStable shares newScale
  let after ← demand .mathOverflow (word? worthAfter)
  let excess := target - after
  if newScale = 0 ∨ 1 < excess ∧ target / tolerance < excess then return none scale
  return ⟨allowed, paid, indexDelta, newScale⟩

end Loss

end SplitReserve
