import SplitReserve.Amount
import SplitReserve.Event
import SplitReserve.Token.Published

/-!
# Tokens

A token keeps a balance for each holder and, for each owner, what the owner lets others spend.  Minters create and destroy
tokens; the owner of the token names the minters.  Each operation gives the new token and the events it announces, and every
write of a balance, an allowance or the supply goes to the published records too.
-/

namespace SplitReserve

structure Token where
  name : String
  symbol : String
  decimals : Nat
  supply : Nat
  balances : Table Address Nat
  /-- For each owner, the amounts that spenders may move. -/
  allowances : Table Address (Table Address Nat)
  owner : Address
  minters : Table Address Bool
  published : Published

namespace Token

/-- A new token, which belongs to the one who creates it. -/
def init (name symbol : String) (decimals : Nat) (creator : Address) : Token where
  name
  symbol
  decimals
  supply := 0
  balances := ∅
  allowances := ∅
  owner := creator
  minters := ∅
  published := Published.init name symbol decimals

def balance (t : Token) (holder : Address) : Nat := t.balances.get holder

def allowance (t : Token) (owner spender : Address) : Nat := (t.allowances.get owner).get spender

def isMinter (t : Token) (a : Address) : Bool := t.minters.get a

def setBalance (t : Token) (holder : Address) (amount : Nat) : Token :=
  { t with balances := t.balances.insert holder amount, published := t.published.setBalance holder amount }

def setAllowance (t : Token) (owner spender : Address) (amount : Nat) : Token :=
  { t with
    allowances := t.allowances.insert owner ((t.allowances.get owner).insert spender amount)
    published := t.published.setAllowance owner spender amount }

def setSupply (t : Token) (amount : Nat) : Token :=
  { t with supply := amount, published := { t.published with supply := amount } }

def requireOwner (t : Token) (caller : Address) : Outcome Unit := require (caller = t.owner) .unauthorized

def requireMinter (t : Token) (caller : Address) : Outcome Unit := require (t.isMinter caller) .unauthorized

/-- Move tokens from one holder to another, who may be the same. -/
def move (t : Token) (sender recipient : Address) (amount : Nat) : Outcome (Token × List Event) := do
  require (amount ≤ t.balance sender) .insufficientTokenBalance
  let t := t.setBalance sender (t.balance sender - amount)
  let received ← addWide (t.balance recipient) amount
  return (t.setBalance recipient received, [.transfer sender recipient amount])

def transfer (t : Token) (caller recipient : Address) (amount : Nat) : Outcome (Token × List Event) :=
  t.move caller recipient amount

/-- Let `spender` move up to `amount` of the caller's tokens, whatever was allowed before. -/
def approve (t : Token) (caller spender : Address) (amount : Nat) : Outcome (Token × List Event) :=
  .ok (t.setAllowance caller spender amount, [.approval caller spender amount])

/-- Move tokens of an owner who has allowed it; what is moved is no longer allowed. -/
def transferFrom (t : Token) (caller owner recipient : Address) (amount : Nat) : Outcome (Token × List Event) := do
  let allowed := t.allowance owner caller
  require (amount ≤ allowed) .insufficientAllowance
  let (t, moved) ← t.move owner recipient amount
  return (t.setAllowance owner caller (allowed - amount), moved ++ [.approval owner caller (allowed - amount)])

def mint (t : Token) (caller recipient : Address) (amount : Nat) : Outcome (Token × List Event) := do
  t.requireMinter caller
  let balance ← addWide (t.balance recipient) amount
  let supply ← addWide t.supply amount
  return ((t.setBalance recipient balance).setSupply supply, [.mint recipient amount])

/-- Destroy tokens of a holder. -/
def destroy (t : Token) (holder : Address) (amount : Nat) : Outcome (Token × List Event) := do
  require (amount ≤ t.balance holder) .insufficientTokenBalance
  let supply ← subtract t.supply amount
  return ((t.setBalance holder (t.balance holder - amount)).setSupply supply, [.burn holder amount])

def burn (t : Token) (caller : Address) (amount : Nat) : Outcome (Token × List Event) := t.destroy caller amount

def burnFrom (t : Token) (caller holder : Address) (amount : Nat) : Outcome (Token × List Event) := do
  t.requireMinter caller
  t.destroy holder amount

def addMinter (t : Token) (caller minter : Address) : Outcome (Token × List Event) := do
  t.requireOwner caller
  return ({ t with minters := t.minters.insert minter true }, [])

def removeMinter (t : Token) (caller minter : Address) : Outcome (Token × List Event) := do
  t.requireOwner caller
  return ({ t with minters := t.minters.insert minter false }, [])

def transferOwnership (t : Token) (caller owner : Address) : Outcome (Token × List Event) := do
  t.requireOwner caller
  return ({ t with owner }, [])

end Token

end SplitReserve
