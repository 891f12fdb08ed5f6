import SplitReserve.Pool.Basic
import SplitReserve.Protocol.Trade

/-!
# Replies

What an entry of a contract answers.
-/

namespace SplitReserve

/-- A price for an operation, as a user is told it. -/
structure Quote where
  out : Nat
  fee : Nat
  bonus : Nat
  level : Level
  deriving DecidableEq

inductive Reply
  | nothing
  | flag (b : Bool)
  | amount (n : Nat)
  | amounts (a b : Nat)
  /-- A small number: a count of members or of decimals. -/
  | number (n : Nat)
  | text (s : String)
  | address (a : Address)
  | level (l : Level)
  | status (s : PriceStatus)
  | quote (q : Quote)
  | fees (s : FeeSchedule)
  | feedConfig (c : FeedConfig)
  | treasury (t : Treasury)
  | state (s : Protocol.State)
  | position (s : Position)
  | stats (s : Pool.Stats)
  deriving DecidableEq

namespace Reply

/-- An answer that may be missing. -/
def optional {α : Type} (f : α → Reply) : Option α → Reply
  | some a => f a
  | none => nothing

end Reply

end SplitReserve
