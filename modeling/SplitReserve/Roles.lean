import SplitReserve.Failure
import SplitReserve.Address
import SplitReserve.Table

/-!
# Roles

Accounts hold roles, which calls refer to by number.  Each role keeps a count of its holders beside the table of who they are.
The last admin cannot lose the role.
-/

namespace SplitReserve

inductive Role
  | admin
  | keeper
  | oracle
  deriving DecidableEq

namespace Role

def number : Role → Nat
  | admin => 0
  | keeper => 1
  | oracle => 2

/-- How many roles there are. -/
def count : Nat := 3

def ofNumber? : Nat → Option Role
  | 0 => some admin
  | 1 => some keeper
  | 2 => some oracle
  | _ => none

theorem ofNumber?_eq_some_iff {n : Nat} {r : Role} : ofNumber? n = some r ↔ n = r.number := by
  constructor
  · intro h
    match n, h with
    | 0, h => cases h; rfl
    | 1, h => cases h; rfl
    | 2, h => cases h; rfl
  · rintro rfl
    cases r <;> rfl

end Role

/-- The holders of one role. -/
structure Office where
  holders : Table Address Bool
  size : Nat
  deriving Inhabited

namespace Office

/-- The largest number of holders, which is kept in 32 bits. -/
def capacity : Nat := 4294967295

def holds (o : Office) (a : Address) : Bool := o.holders.get a

/-- Let `a` hold the role. -/
def seat (o : Office) (a : Address) : Outcome Office :=
  if o.holds a then .ok o
  else if o.size < capacity then .ok ⟨o.holders.insert a true, o.size + 1⟩
  else .error .trapped

def unseat (o : Office) (a : Address) : Office :=
  if o.holds a then ⟨o.holders.insert a false, o.size - 1⟩ else o

end Office

/-- Who holds which role. -/
structure Roles where
  admin : Office
  keeper : Office
  oracle : Office
  deriving Inhabited

namespace Roles

def office (t : Roles) : Role → Office
  | .admin => t.admin
  | .keeper => t.keeper
  | .oracle => t.oracle

def setOffice (t : Roles) (r : Role) (o : Office) : Roles :=
  match r with
  | .admin => { t with admin := o }
  | .keeper => { t with keeper := o }
  | .oracle => { t with oracle := o }

def holds (t : Roles) (r : Role) (a : Address) : Bool := (t.office r).holds a

/-- Whether `a` holds the role with a given number; nobody holds a role that there is not. -/
def hasRole (t : Roles) (number : Nat) (a : Address) : Bool :=
  match Role.ofNumber? number with
  | some r => t.holds r a
  | none => false

/-- The count kept for the role with a given number. -/
def memberCount (t : Roles) (number : Nat) : Nat :=
  match Role.ofNumber? number with
  | some r => (t.office r).size
  | none => 0

/-- One admin, and nobody else with any role. -/
def first (a : Address) : Roles := ⟨⟨(∅ : Table Address Bool).insert a true, 1⟩, default, default⟩

/-- Make `a` an admin without being asked by one. -/
def init (t : Roles) (a : Address) : Outcome Roles := do
  let o ← t.admin.seat a
  return t.setOffice .admin o

/-- Give a role; the answer is whether that changed anything. -/
def grant (t : Roles) (number : Nat) (a : Address) : Outcome (Roles × Bool) :=
  match Role.ofNumber? number with
  | none => refuse .invalidConfig
  | some r =>
    if t.holds r a then .ok (t, false)
    else do
      let o ← (t.office r).seat a
      return (t.setOffice r o, true)

/-- Take a role away; the answer is whether that changed anything. -/
def revoke (t : Roles) (number : Nat) (a : Address) : Outcome (Roles × Bool) :=
  match Role.ofNumber? number with
  | none => .ok (t, false)
  | some r =>
    if t.holds r a then do
      require (r = .admin → 1 < t.admin.size) .lastAdmin
      return (t.setOffice r ((t.office r).unseat a), true)
    else .ok (t, false)

def requireAdmin (t : Roles) (a : Address) : Outcome Unit := require (t.holds .admin a) .unauthorized

/-- An admin may do what a keeper may. -/
def requireKeeper (t : Roles) (a : Address) : Outcome Unit :=
  require (t.holds .keeper a ∨ t.holds .admin a) .unauthorized

/-- An admin may do what an oracle may. -/
def requireOracle (t : Roles) (a : Address) : Outcome Unit :=
  require (t.holds .oracle a ∨ t.holds .admin a) .unauthorized

theorem init_default (a : Address) : (default : Roles).init a = .ok (first a) := rfl

@[simp] theorem office_setOffice_self (t : Roles) (r : Role) (o : Office) : (t.setOffice r o).office r = o := by
  cases r <;> rfl

theorem office_setOffice_of_ne (t : Roles) {r r' : Role} (h : r' ≠ r) (o : Office) :
    (t.setOffice r o).office r' = t.office r' := by
  cases r <;> cases r' <;> first
    | exact absurd rfl h
    | rfl

end Roles

end SplitReserve
