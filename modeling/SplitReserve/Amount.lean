import SplitReserve.Failure

/-!
# Amounts

Every quantity is a natural number.  Money, prices and ratios are *words*, below `2 ^ 64`; token balances, pool shares and
the reward index are *wide*, below `2 ^ 256`.  An operation that must stay in range says so: `word?` and `wide?` give
nothing outside it, `clampWord` stops at the largest word, and `addWide`, `mulWide` and `subtract` are the plain operations,
which trap the call outside it.

A scaled quotient `a * b / c` is taken over the exact product.  `mulDiv` and `mulDivWide` round it down, `mulDivUp` and
`mulDivWideUp` round it up.
-/

namespace SplitReserve

/-! ### Scales -/

/-- Prices: one dollar. -/
def priceScale : Nat := 1000000000

/-- The price of the stable token, one dollar for good. -/
def stablePrice : Nat := priceScale

/-- Prices as a feeder reports them. -/
def feedScale : Nat := 1000000

/-- The factor from a reported price to a price. -/
def feedFactor : Nat := priceScale / feedScale

/-- Collateral ratios: one hundred percent. -/
def ratioScale : Nat := 1000000000

/-- The scale with which a pool begins. -/
def shareScale : Nat := 1000000000

/-- Rewards per share. -/
def indexScale : Nat := 1000000000000000000

/-- Basis points: one hundred percent. -/
def bpsScale : Nat := 10000

/-! ### Ranges -/

/-- `2 ^ 64`. -/
def wordLimit : Nat := 18446744073709551616

/-- `2 ^ 256`. -/
def wideLimit : Nat := 115792089237316195423570985008687907853269984665640564039457584007913129639936

def maxWord : Nat := wordLimit - 1

/-- `n`, if it is a word. -/
def word? (n : Nat) : Option Nat := if n < wordLimit then some n else none

/-- `n`, if it is wide. -/
def wide? (n : Nat) : Option Nat := if n < wideLimit then some n else none

/-- `n`, or the largest word if it is none. -/
def clampWord (n : Nat) : Nat := min n maxWord

def addWide (a b : Nat) : Outcome Nat := if a + b < wideLimit then .ok (a + b) else .error .trapped

def mulWide (a b : Nat) : Outcome Nat := if a * b < wideLimit then .ok (a * b) else .error .trapped

/-- Plain subtraction, which must not go below zero. -/
def subtract (a b : Nat) : Outcome Nat := if b ≤ a then .ok (a - b) else .error .trapped

/-! ### Scaled quotients -/

/-- The least `q` with `n ≤ q * d`, for `0 < d`. -/
def divUp (n d : Nat) : Nat := (n + (d - 1)) / d

def mulDiv (a b c : Nat) : Option Nat := if c = 0 then none else word? (a * b / c)

def mulDivUp (a b c : Nat) : Option Nat := if c = 0 then none else word? (divUp (a * b) c)

def mulDivWide (a b c : Nat) : Option Nat := if c = 0 then none else (wide? (a * b)).map (· / c)

def mulDivWideUp (a b c : Nat) : Option Nat := if c = 0 then none else (wide? (a * b)).map (divUp · c)

/-- A share in basis points, rounded down. -/
def bpsDown (amount bps : Nat) : Option Nat := mulDiv amount bps bpsScale

/-- A share in basis points, rounded up. -/
def bpsUp (amount bps : Nat) : Option Nat := mulDivUp amount bps bpsScale

/-- `units` whole tokens in base units. -/
def whole (units : Nat) : Outcome Nat :=
  if units * priceScale < wordLimit then .ok (units * priceScale) else .error .trapped

theorem divUp_eq (n : Nat) {d : Nat} (hd : 0 < d) : divUp n d = n / d + if n % d = 0 then 0 else 1 := by
  have e := Nat.div_add_mod n d
  have hm := Nat.mod_lt n hd
  unfold divUp
  split
  next h =>
    rw [Nat.add_zero]
    exact Nat.div_eq_of_lt_le (by rw [Nat.mul_comm]; omega) (by rw [Nat.mul_comm, Nat.mul_add]; omega)
  next h =>
    refine Nat.div_eq_of_lt_le ?_ ?_
    · rw [Nat.mul_comm, Nat.mul_add]; omega
    · rw [Nat.mul_comm, Nat.mul_add, Nat.mul_add]; omega

/-- Rounding up gives the least sufficient quotient. -/
theorem divUp_le_iff {n d q : Nat} (hd : 0 < d) : divUp n d ≤ q ↔ n ≤ q * d := by
  unfold divUp
  rw [← Nat.lt_succ_iff, Nat.div_lt_iff_lt_mul hd, Nat.succ_mul]
  omega

end SplitReserve
