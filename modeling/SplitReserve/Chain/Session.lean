import SplitReserve.Chain.Basic

/-!
# Sessions

A call runs in a session, which carries the chain as the call has left it so far and the events announced so far.  A failure
anywhere in the session ends it and drops both, so the chain is as before the call.
-/

namespace SplitReserve

structure Session where
  chain : Chain
  /-- Each event with the contract that announced it, the oldest first. -/
  events : List (Address × Event)

/-- A piece of work within a session. -/
abbrev Work (α : Type) := StateT Session (Except Failure) α

namespace Work

def chain : Work Chain := return (← get).chain

/-- Write a contract. -/
def save (a : Address) (k : Contract) : Work Unit := modify fun s => { s with chain := s.chain.set a k }

def announce (a : Address) (es : List Event) : Work Unit :=
  modify fun s => { s with events := s.events ++ es.map fun e => (a, e) }

/-- Save a contract after an operation and announce its events. -/
def commit (a : Address) (k : Contract) (es : List Event) : Work Unit := do
  save a k
  announce a es

/-- Call an entry of the token at `a`. -/
def onToken (entry : Entry) (a : Address) (act : Token → Outcome (Token × List Event)) : Work Unit := do
  match ← (← chain).callee a with
  | .token t => do
    let (t, es) ← act t
    commit a (.token t) es
  | .listing t => do
    let (t, es) ← act t
    commit a (.listing t) es
  | .protocol _ | .pool _ | .bench _ => throw (.noEntry entry)

/-- Pay tokens of the contract `self`. -/
def pay (token self recipient : Address) (amount : Nat) : Work Unit :=
  onToken .transfer token (·.transfer self recipient amount)

/-- Draw tokens of an owner who has allowed the contract `self` to. -/
def draw (token self owner : Address) (amount : Nat) : Work Unit :=
  onToken .transferFrom token (·.transferFrom self owner self amount)

/-- Mint tokens as the contract `self`. -/
def mint (token self recipient : Address) (amount : Nat) : Work Unit :=
  onToken .mint token (·.mint self recipient amount)

/-- Burn tokens of a holder as the contract `self`. -/
def burn (token self holder : Address) (amount : Nat) : Work Unit :=
  onToken .burnFrom token (·.burnFrom self holder amount)

/-- Two pieces of work in a row succeed when both do, the second in the session that the first has left. -/
theorem bind_eq_ok {α β : Type} {w : Work α} {k : α → Work β} {s : Session} {r : β × Session} :
    (w >>= k) s = .ok r ↔ ∃ a t, w s = .ok (a, t) ∧ k a t = .ok r := by
  change (w s >>= fun r => k r.1 r.2) = .ok r ↔ _
  rw [Outcome.bind_eq_ok]
  exact ⟨fun ⟨p, h, h'⟩ => ⟨p.1, p.2, h, h'⟩, fun ⟨a, t, h, h'⟩ => ⟨(a, t), h, h'⟩⟩

/-- A computation on its own leaves the session as it was. -/
theorem lift_eq_ok {α : Type} {x : Outcome α} {s : Session} {r : α × Session} :
    (liftM x : Work α) s = .ok r ↔ ∃ a, x = .ok a ∧ r = (a, s) := by
  cases x with
  | ok a =>
    constructor
    · intro h
      cases h
      exact ⟨a, rfl, rfl⟩
    · rintro ⟨_, h, rfl⟩
      cases h
      rfl
  | error e =>
    constructor
    · intro h
      cases h
    · rintro ⟨_, h, _⟩
      cases h

end Work

end SplitReserve
