/-!
# Failures

A call that does not succeed leaves no trace, so all there is to say about it is why it failed.  A `Fault` is one of the
reasons that the contracts give themselves, each with a code and a message.  The other ways to fail belong to the machine that
runs them: arithmetic that leaves its range, or calls without end (`trapped`), a contract that calls an entry which the callee
does not have (`noEntry`), a call made for another kind of contract (`wrongKind`), and a call of something that is no contract
(`notContract`).
-/

namespace SplitReserve

/-- The reasons for which a contract refuses a call. -/
inductive Fault
  | invalidAmount
  | actionBlocked
  | slippageExceeded
  | notBootstrapped
  | alreadyBootstrapped
  | oracleStale
  | oracleStep
  | oraclePriceUnavailable
  | insufficientReserve
  | insufficientBonusFunds
  | insufficientTreasury
  | invariantViolation
  | unauthorized
  | lastAdmin
  | insufficientTokenBalance
  | insufficientAllowance
  | insufficientPoolBalance
  | positionNotEmpty
  | poolDepleted
  | noPosition
  | invalidConfig
  | mathOverflow
  | notConfigured
  deriving DecidableEq

namespace Fault

/-- What is told about a fault. -/
structure Notice where
  code : Nat
  name : String
  message : String

/-- Codes are grouped by the hundred: operations, oracle, reserve and treasury, access, tokens, pool, and, from 900 on,
configuration and arithmetic. -/
def notice : Fault → Notice
  | invalidAmount => ⟨100, "InvalidAmount", "Invalid amount"⟩
  | actionBlocked => ⟨101, "ActionBlocked", "Action blocked at current CR level"⟩
  | slippageExceeded => ⟨102, "SlippageExceeded", "Output below minimum received"⟩
  | notBootstrapped => ⟨103, "NotBootstrapped", "Protocol not bootstrapped"⟩
  | alreadyBootstrapped => ⟨104, "AlreadyBootstrapped", "Protocol already bootstrapped"⟩
  | oracleStale => ⟨200, "OracleStale", "Oracle price stale"⟩
  | oracleStep => ⟨201, "OracleStep", "Oracle price step too large"⟩
  | oraclePriceUnavailable => ⟨202, "OraclePriceUnavailable", "Oracle price unavailable"⟩
  | insufficientReserve => ⟨300, "InsufficientReserve", "Insufficient free reserve"⟩
  | insufficientBonusFunds => ⟨301, "InsufficientBonusFunds", "Fee treasury cannot cover bonus"⟩
  | insufficientTreasury => ⟨302, "InsufficientTreasury", "Insufficient treasury balance"⟩
  | invariantViolation => ⟨303, "InvariantViolation", "Solvency invariant violated"⟩
  | unauthorized => ⟨400, "Unauthorized", "Unauthorized"⟩
  | lastAdmin => ⟨401, "LastAdmin", "Cannot remove the last admin"⟩
  | insufficientTokenBalance => ⟨500, "InsufficientTokenBalance", "Insufficient token balance"⟩
  | insufficientAllowance => ⟨501, "InsufficientAllowance", "Insufficient allowance"⟩
  | insufficientPoolBalance => ⟨600, "InsufficientSpBalance", "Stability pool: insufficient balance"⟩
  | positionNotEmpty => ⟨601, "SpPositionNotEmpty", "Stability pool: position not empty"⟩
  | poolDepleted => ⟨602, "SpDepleted", "Stability pool: scale depleted"⟩
  | noPosition => ⟨603, "SpNoPosition", "Stability pool: no position"⟩
  | invalidConfig => ⟨900, "InvalidConfig", "Invalid configuration parameter"⟩
  | mathOverflow => ⟨901, "MathOverflow", "Arithmetic overflow"⟩
  | notConfigured => ⟨902, "NotConfigured", "Contract address not configured"⟩

def code (f : Fault) : Nat := f.notice.code

def name (f : Fault) : String := f.notice.name

def message (f : Fault) : String := f.notice.message

def all : List Fault :=
  [invalidAmount, actionBlocked, slippageExceeded, notBootstrapped, alreadyBootstrapped, oracleStale, oracleStep,
    oraclePriceUnavailable, insufficientReserve, insufficientBonusFunds, insufficientTreasury, invariantViolation,
    unauthorized, lastAdmin, insufficientTokenBalance, insufficientAllowance, insufficientPoolBalance, positionNotEmpty,
    poolDepleted, noPosition, invalidConfig, mathOverflow, notConfigured]

/-- The fault with a given code. -/
def ofCode? (n : Nat) : Option Fault := all.find? fun f => f.code = n

/-- No two faults share a code. -/
theorem ofCode?_code (f : Fault) : ofCode? f.code = some f := by
  cases f <;> rfl

end Fault

/-- The entries through which contracts call each other. -/
inductive Entry
  | balanceOf
  | totalSupply
  | transfer
  | transferFrom
  | mint
  | burnFrom
  | bearLoss
  | indexRewards
  | owed
  | payClaim
  deriving DecidableEq

def Entry.name : Entry → String
  | balanceOf => "balance_of"
  | totalSupply => "total_supply"
  | transfer => "transfer"
  | transferFrom => "transfer_from"
  | mint => "mint"
  | burnFrom => "burn_from"
  | bearLoss => "controller_rebalance"
  | indexRewards => "index_rewards"
  | owed => "get_sp_obligation_amount"
  | payClaim => "pay_sp_claim"

/-- Why a call fails. -/
inductive Failure
  | fault (f : Fault)
  | trapped
  | noEntry (e : Entry)
  | wrongKind
  | notContract
  deriving DecidableEq

/-- The result of a computation that may fail. -/
abbrev Outcome (α : Type) := Except Failure α

def refuse {α : Type} (f : Fault) : Outcome α := .error (.fault f)

/-- Go on only if `p` holds. -/
def require (p : Prop) [Decidable p] (f : Fault) : Outcome Unit := if p then .ok () else refuse f

/-- Go on only with a value. -/
def demand {α : Type} (f : Fault) : Option α → Outcome α
  | some a => .ok a
  | none => refuse f

theorem require_eq_ok {p : Prop} [Decidable p] {f : Fault} {u : Unit} : require p f = .ok u ↔ p := by
  unfold require
  split
  next h => exact ⟨fun _ => h, fun _ => rfl⟩
  next h => exact ⟨fun e => (nomatch e), fun e => absurd e h⟩

theorem require_bind {α : Type} (p : Prop) [Decidable p] (f : Fault) (k : Unit → Outcome α) :
    (require p f >>= k) = if p then k () else refuse f := by
  unfold require
  split <;> rfl

theorem demand_eq_ok {α : Type} {f : Fault} {o : Option α} {a : α} : demand f o = .ok a ↔ o = some a := by
  cases o with
  | none => exact ⟨fun e => (nomatch e), fun e => (nomatch e)⟩
  | some b => exact ⟨fun e => congrArg some (Except.ok.inj e), fun e => congrArg Except.ok (Option.some.inj e)⟩

/-- Two computations in a row succeed when both do. -/
theorem Outcome.bind_eq_ok {α β : Type} {x : Outcome α} {k : α → Outcome β} {b : β} :
    x >>= k = .ok b ↔ ∃ a, x = .ok a ∧ k a = .ok b := by
  cases x with
  | ok a => exact ⟨fun h => ⟨a, rfl, h⟩, fun ⟨_, h, h'⟩ => Except.ok.inj h ▸ h'⟩
  | error e => exact ⟨fun h => (nomatch h), fun ⟨_, h, _⟩ => (nomatch h)⟩

theorem Outcome.map_eq_ok {α β : Type} {f : α → β} {x : Outcome α} {b : β} :
    x.map f = .ok b ↔ ∃ a, x = .ok a ∧ f a = b := by
  cases x with
  | ok a => exact ⟨fun h => ⟨a, rfl, Except.ok.inj h⟩, fun ⟨_, h, h'⟩ => Except.ok.inj h ▸ congrArg Except.ok h'⟩
  | error e => exact ⟨fun h => (nomatch h), fun ⟨_, h, _⟩ => (nomatch h)⟩

@[simp] theorem Outcome.ok_bind {α β : Type} (a : α) (k : α → Outcome β) : (Except.ok a >>= k) = k a := rfl

@[simp] theorem Outcome.map_ok {α β : Type} (f : α → β) (a : α) : (Except.ok a : Outcome α).map f = .ok (f a) := rfl

@[simp] theorem demand_some {α : Type} (f : Fault) (a : α) : demand f (some a) = .ok a := rfl

@[simp] theorem demand_none {α : Type} (f : Fault) : demand f (none : Option α) = refuse f := rfl

end SplitReserve
