import SplitReserve.Chain.Reply
import SplitReserve.Chain.Session

/-!
# Calls of tokens

The entries of a token, those that change it and those that only read it, and the published records of a listing.
-/

namespace SplitReserve

namespace Token

inductive Call
  | transfer (recipient : Address) (amount : Nat)
  | approve (spender : Address) (amount : Nat)
  | transferFrom (owner recipient : Address) (amount : Nat)
  | mint (recipient : Address) (amount : Nat)
  | burn (amount : Nat)
  | burnFrom (holder : Address) (amount : Nat)
  | addMinter (minter : Address)
  | removeMinter (minter : Address)
  | transferOwnership (owner : Address)

/-- Carry out a call; the answer of an entry that has none is nothing. -/
def Call.apply (t : Token) (caller : Address) : Call → Outcome (Token × List Event)
  | .transfer recipient amount => t.transfer caller recipient amount
  | .approve spender amount => t.approve caller spender amount
  | .transferFrom owner recipient amount => t.transferFrom caller owner recipient amount
  | .mint recipient amount => t.mint caller recipient amount
  | .burn amount => t.burn caller amount
  | .burnFrom holder amount => t.burnFrom caller holder amount
  | .addMinter minter => t.addMinter caller minter
  | .removeMinter minter => t.removeMinter caller minter
  | .transferOwnership owner => t.transferOwnership caller owner

/-- Those who move tokens or allow it are told that it worked. -/
def Call.reply : Call → Reply
  | .transfer .. | .approve .. | .transferFrom .. => .flag true
  | .mint .. | .burn .. | .burnFrom .. | .addMinter .. | .removeMinter .. | .transferOwnership .. => .nothing

/-- The entries that a listing has. -/
def Call.listed : Call → Bool
  | .transfer .. | .approve .. | .transferFrom .. | .mint .. | .burn .. | .burnFrom .. | .addMinter .. => true
  | .removeMinter .. | .transferOwnership .. => false

inductive Query
  | name
  | symbol
  | decimals
  | supply
  | balance (holder : Address)
  | allowance (owner spender : Address)
  | isMinter (account : Address)
  | ownedBy

def Query.answer (t : Token) : Query → Reply
  | .name => .text t.name
  | .symbol => .text t.symbol
  | .decimals => .number t.decimals
  | .supply => .amount t.supply
  | .balance holder => .amount (t.balance holder)
  | .allowance owner spender => .amount (t.allowance owner spender)
  | .isMinter account => .flag (t.isMinter account)
  | .ownedBy => .address t.owner

end Token

/-- A look at the published records of a token. -/
inductive Published.Query
  | text (key : String)
  | small (key : String)
  | amount (key : String)
  | item (dictionary key : String)

/-- A record that was never written answers nothing. -/
def Published.Query.answer (p : Published) : Published.Query → Reply
  | .text key => .optional .text (p.text? key)
  | .small key => .optional .number (p.small? key)
  | .amount key => .optional .amount (p.amount? key)
  | .item dictionary key => .optional .amount (p.item? dictionary key)

end SplitReserve
