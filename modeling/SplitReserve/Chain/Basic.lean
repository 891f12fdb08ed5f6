import SplitReserve.Bench
import SplitReserve.Pool.Basic
import SplitReserve.Protocol.Trade
import SplitReserve.Token.Basic

/-!
# Chains

A chain has a clock and the contracts deployed on it, in the order of their deployment.  The contracts call each other through
a few entries; whoever is called must be a contract (`Failure.notContract`) and have the entry (`Failure.noEntry`).

A protocol can stand in for a pool when another protocol asks what it is owed, and passes the question on to its own pool.
`Chain.owedAt` follows the question; a chain of protocols that comes back to itself never gets an answer.
-/

namespace SplitReserve

inductive Contract
  | token (t : Token)
  /-- A token that is read through its published records alone. -/
  | listing (t : Token)
  | protocol (p : Protocol)
  | pool (p : Pool)
  | bench (b : Bench)

structure Chain where
  /-- Milliseconds since the beginning. -/
  clock : Nat
  contracts : List (Address × Contract)

namespace Chain

/-- A chain on which nothing has happened. -/
def empty : Chain := ⟨0, []⟩

/-- The clock in seconds. -/
def now (c : Chain) : Nat := c.clock / 1000

def find? (c : Chain) (a : Address) : Option Contract := (c.contracts.find? fun e => e.1 = a).map Prod.snd

/-- Replace the contract at an address. -/
def set (c : Chain) (a : Address) (k : Contract) : Chain :=
  { c with contracts := c.contracts.map fun e => if e.1 = a then (a, k) else e }

/-- Deploy a contract. -/
def deploy (c : Chain) (k : Contract) : Chain :=
  { c with contracts := c.contracts ++ [(Address.ofOrdinal (c.contracts.length + 1), k)] }

/-- Let time pass. -/
def advance (c : Chain) (ms : Nat) : Outcome Chain :=
  if c.clock + ms < wordLimit then .ok { c with clock := c.clock + ms } else .error .trapped

/-- The contract at an address that is called. -/
def callee (c : Chain) (a : Address) : Outcome Contract :=
  match c.find? a with
  | some k => .ok k
  | none => .error .notContract

/-- What the contract at an address is owed, asked through at most `fuel` contracts. -/
def owedAt (c : Chain) (fuel : Nat) (a : Address) : Outcome Nat :=
  match fuel with
  | 0 => .error .trapped
  | fuel + 1 => do
    match ← c.callee a with
    | .pool p => return p.owed
    | .protocol p =>
      match p.pool with
      | some a => c.owedAt fuel a
      | none => return 0
    | .token _ | .listing _ | .bench _ => throw (.noEntry .owed)

/-- What the pool of a protocol is owed; asking passes no contract twice, so it passes no more than there are. -/
def owed (c : Chain) (p : Protocol) : Outcome Nat :=
  match p.pool with
  | some a => c.owedAt c.contracts.length a
  | none => .ok 0

/-- The supply of the token at an address. -/
def supplyAt (c : Chain) (a : Address) : Outcome Nat := do
  match ← c.callee a with
  | .token t => return t.supply
  | .listing _ | .protocol _ | .pool _ | .bench _ => throw (.noEntry .totalSupply)

/-- A balance of the token at an address. -/
def balanceAt (c : Chain) (a holder : Address) : Outcome Nat := do
  match ← c.callee a with
  | .token t => return t.balance holder
  | .listing _ | .protocol _ | .pool _ | .bench _ => throw (.noEntry .balanceOf)

end Chain

end SplitReserve
