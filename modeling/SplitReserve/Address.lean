/-!
# Addresses

An address names an account or a contract by a hash of 256 bits.  Addresses are ordered by hash, an account before the
contract with the same hash; the order serves only to keep tables sorted.
-/

namespace SplitReserve

abbrev Hash : Type := BitVec 256

inductive Address
  | account (hash : Hash)
  | contract (hash : Hash)
  deriving DecidableEq

namespace Address

/-- The place of an address in the order. -/
def rank : Address → Nat
  | account h => 2 * h.toNat
  | contract h => 2 * h.toNat + 1

theorem rank_injective {a b : Address} (h : a.rank = b.rank) : a = b := by
  cases a <;> cases b <;> simp only [rank] at h <;> first
    | omega
    | exact congrArg _ (BitVec.eq_of_toNat_eq (by omega))

instance : Ord Address := ⟨fun a b => compare a.rank b.rank⟩

instance : Std.TransOrd Address where
  eq_swap := fun {a b} => (Std.OrientedCmp.eq_swap : compare a.rank b.rank = _)
  isLE_trans := fun {a b c} =>
    (Std.TransCmp.isLE_trans : (compare a.rank b.rank).isLE → (compare b.rank c.rank).isLE → (compare a.rank c.rank).isLE)

instance : Std.LawfulEqOrd Address where
  compare_self := fun {a} => (Std.ReflCmp.compare_self : compare a.rank a.rank = .eq)
  eq_of_compare := fun {a b} h => rank_injective (Nat.compare_eq_eq.1 (show compare a.rank b.rank = .eq from h))

/-- The address of the `n`-th contract on a chain, counted from one: the digit `n` and 63 zeros in base sixteen. -/
def ofOrdinal (n : Nat) : Address := contract (BitVec.ofNat 256 n <<< 252)

end Address

end SplitReserve
