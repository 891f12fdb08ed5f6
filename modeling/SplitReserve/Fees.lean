import SplitReserve.Sheet

/-!
# Fees and bonuses

A schedule sets a fee for each operation at each level of stress, and one bonus rate for the operations that calm a level.
`FeeSchedule.charge` applies it to a gross amount: the fee is rounded up, the bonus down, and the net amount is what remains.
Stable tokens can be minted only without stress, whatever the schedule says.
-/

namespace SplitReserve

/-- The operations that users pay for: to mint a token against the reserve, and to redeem it. -/
inductive Operation
  | mint (leg : Leg)
  | redeem (leg : Leg)
  deriving DecidableEq

/-- The rates at one level, in basis points. -/
structure LevelFees where
  mintF : Nat
  mintX : Nat
  redeemF : Nat
  redeemX : Nat
  mintXBonus : Bool
  redeemFBonus : Bool
  deriving DecidableEq

namespace LevelFees

/-- No fee is above ten percent. -/
def maxFee : Nat := 1000

def fee (r : LevelFees) : Operation → Nat
  | .mint .f => r.mintF
  | .mint .x => r.mintX
  | .redeem .f => r.redeemF
  | .redeem .x => r.redeemX

/-- Minting stable tokens and redeeming leveraged ones never earn a bonus. -/
def earnsBonus (r : LevelFees) : Operation → Bool
  | .mint .f => false
  | .mint .x => r.mintXBonus
  | .redeem .f => r.redeemFBonus
  | .redeem .x => false

/-- Every fee is within its bound. -/
def Valid (r : LevelFees) : Prop := r.mintF ≤ maxFee ∧ r.mintX ≤ maxFee ∧ r.redeemF ≤ maxFee ∧ r.redeemX ≤ maxFee

instance (r : LevelFees) : Decidable r.Valid := by unfold Valid; infer_instance

end LevelFees

/-- The rates at every level, and the bonus rate. -/
structure FeeSchedule where
  normal : LevelFees
  l1 : LevelFees
  l2 : LevelFees
  l3 : LevelFees
  bonusRate : Nat
  deriving DecidableEq

/-- A gross amount after its fee and bonus. -/
structure Charge where
  net : Nat
  fee : Nat
  bonus : Nat
  deriving DecidableEq

namespace FeeSchedule

/-- The bonus is at most one percent. -/
def maxBonus : Nat := 100

/-- The rates at levels two and three until others are set. -/
def stressed : LevelFees := ⟨50, 50, 0, 50, true, true⟩

/-- The schedule in force until another is set. -/
def standard : FeeSchedule where
  normal := ⟨50, 50, 50, 50, false, false⟩
  l1 := { stressed with redeemX := 100, redeemFBonus := false }
  l2 := stressed
  l3 := stressed
  bonusRate := 10

instance : Inhabited FeeSchedule := ⟨standard⟩

def level (s : FeeSchedule) : Level → LevelFees
  | .normal => s.normal
  | .l1 => s.l1
  | .l2 => s.l2
  | .l3 => s.l3

def fee (s : FeeSchedule) (op : Operation) (level : Level) : Nat := (s.level level).fee op

def bonus (s : FeeSchedule) (op : Operation) (level : Level) : Nat :=
  if (s.level level).earnsBonus op then s.bonusRate else 0

/-- Every rate is within its bound. -/
def Valid (s : FeeSchedule) : Prop :=
  s.normal.Valid ∧ s.l1.Valid ∧ s.l2.Valid ∧ s.l3.Valid ∧ s.bonusRate ≤ maxBonus

instance (s : FeeSchedule) : Decidable s.Valid := by unfold Valid; infer_instance

/-- Refuse a schedule with a rate out of bounds. -/
def validate (s : FeeSchedule) : Outcome Unit := require s.Valid .invalidConfig

/-- Take the fee from a gross amount of the reserve and add the bonus. -/
def charge (s : FeeSchedule) (op : Operation) (level : Level) (gross : Nat) : Outcome Charge := do
  require (op = .mint .f → level = .normal) .actionBlocked
  require (gross ≠ 0) .invalidAmount
  let fee ← demand .mathOverflow (bpsUp gross (s.fee op level))
  let bonus ← demand .mathOverflow (bpsDown gross (s.bonus op level))
  require (fee ≤ gross) .mathOverflow
  let net ← demand .mathOverflow (word? (gross - fee + bonus))
  return ⟨net, fee, bonus⟩

theorem standard_valid : standard.Valid := by decide

end FeeSchedule

end SplitReserve
