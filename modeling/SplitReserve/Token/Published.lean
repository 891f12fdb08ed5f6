import SplitReserve.Address.Text
import SplitReserve.Table

/-!
# The published records of a token

Wallets read a token without calling it: its name, symbol, decimals and supply lie open under fixed keys, and the balances
and allowances in two dictionaries, under the item keys of the addresses they belong to.  A token writes these records
whenever it writes its own.
-/

namespace SplitReserve

structure Published where
  name : String
  symbol : String
  decimals : Nat
  supply : Nat
  balances : Table String Nat
  allowances : Table String Nat

namespace Published

def init (name symbol : String) (decimals : Nat) : Published := ⟨name, symbol, decimals, 0, ∅, ∅⟩

def setBalance (p : Published) (holder : Address) (amount : Nat) : Published :=
  { p with balances := p.balances.insert (Address.itemKey [holder]) amount }

def setAllowance (p : Published) (owner spender : Address) (amount : Nat) : Published :=
  { p with allowances := p.allowances.insert (Address.itemKey [owner, spender]) amount }

/-- The text under a key. -/
def text? (p : Published) (key : String) : Option String :=
  if key = "name" then some p.name
  else if key = "symbol" then some p.symbol
  else none

/-- The small number under a key. -/
def small? (p : Published) (key : String) : Option Nat :=
  if key = "decimals" then some p.decimals else none

/-- The amount under a key. -/
def amount? (p : Published) (key : String) : Option Nat :=
  if key = "total_supply" then some p.supply else none

/-- The amount under an item key of a dictionary. -/
def item? (p : Published) (dictionary key : String) : Option Nat :=
  if dictionary = "balances" then p.balances.find? key
  else if dictionary = "allowances" then p.allowances.find? key
  else none

end Published

end SplitReserve
