import SplitReserve.Amount

/-!
# The balance sheet

A reserve, at a price, backs two tokens: a stable one (`f`), always worth `stablePrice`, and a leveraged one (`x`), worth
what is left.  Part of the reserve may be owed to others; the rest is the net reserve.  The collateral ratio is the value of
the net reserve over that of the stable tokens, and the ratio decides the level of stress.

All quotients are taken over exact products and rounded down; `Level.ofRatio`, `xPrice` and `burnNeeded` read them.
-/

namespace SplitReserve

/-- The levels of stress, from none to the worst. -/
inductive Level
  | normal
  | l1
  | l2
  | l3
  deriving DecidableEq

namespace Level

def rank : Level → Nat
  | normal => 0
  | l1 => 1
  | l2 => 2
  | l3 => 3

/-- A lower level is a calmer one. -/
instance : LT Level := ⟨fun a b => a.rank < b.rank⟩

instance (a b : Level) : Decidable (a < b) := inferInstanceAs (Decidable (a.rank < b.rank))

/-- The least ratio without stress. -/
def calmRatio : Nat := 1306000000

/-- The least ratio at level one. -/
def firstRatio : Nat := 1206000000

/-- The least ratio at level two. -/
def secondRatio : Nat := 1144000000

def ofRatio (ratio : Nat) : Level :=
  if calmRatio ≤ ratio then normal
  else if firstRatio ≤ ratio then l1
  else if secondRatio ≤ ratio then l2
  else l3

end Level

/-- The reserve that is not owed to anyone. -/
def netReserve (reserve owed : Nat) : Nat := reserve - owed

/-- The collateral ratio for a supply of stable tokens worth `face` each.  With none there is nothing to cover, and the
ratio is the largest word. -/
def collateralRatio (reserve owed price supply face : Nat) : Nat :=
  if supply = 0 ∨ face = 0 then maxWord
  else clampWord (netReserve reserve owed * price * ratioScale / (supply * face))

def currentLevel (reserve owed price supply face : Nat) : Level :=
  Level.ofRatio (collateralRatio reserve owed price supply face)

/-- The price of a leveraged token: what the net reserve is worth beyond the stable tokens, per leveraged token.  It is that
of a stable token while there is none, and zero once nothing is left. -/
def xPrice (reserve owed price supplyF supplyX : Nat) : Nat :=
  if supplyX = 0 then stablePrice
  else if netReserve reserve owed * price ≤ supplyF * stablePrice then 0
  else clampWord ((netReserve reserve owed * price - supplyF * stablePrice) / supplyX)

/-- The two tokens that a reserve backs: the stable one and the leveraged one. -/
inductive Leg
  | f
  | x
  deriving DecidableEq

/-- The price of a token, when that of a leveraged one is `px`. -/
def Leg.price : Leg → Nat → Nat
  | f, _ => stablePrice
  | x, px => px

/-- The stable tokens to retire, at the same net reserve, for the ratio to reach `target`. -/
def burnNeeded (net price supply face target : Nat) : Nat :=
  if target = 0 ∨ face = 0 then 0
  else supply - clampWord (net * price * ratioScale / (target * face))

/-- The reserve that is worth `amount` tokens at `unit` each. -/
def toReserve (amount unit price : Nat) : Option Nat := mulDiv amount unit price

/-- The value in dollars of `amount` of the reserve. -/
def reserveToUsd (amount price : Nat) : Option Nat := mulDiv amount price priceScale

end SplitReserve
