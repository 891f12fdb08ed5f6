import Mathlib.Tactic.Linarith
import SplitReserve.Chain.ProtocolCall
import SplitReserve.Proofs.Fees
import SplitReserve.Proofs.PriceFeed
import SplitReserve.Proofs.Sheet
import SplitReserve.Proofs.Treasury

/-!
# The books of a protocol

What the operations of the officers do to the books of a protocol, when they succeed.  Most of them change nothing that is money
(`Call.onBooks_ok`); the others are given with all that they write.
-/

namespace SplitReserve

namespace Protocol

variable {p p' : Protocol} {caller : Address} {leg : Leg} {now owed amount least : Nat} {q : Priced} {es : List Event}

/-! ### Writes -/

@[simp] theorem supply_setSupply (p : Protocol) (l m : Leg) (n : Nat) :
    (p.setSupply l n).supply m = if m = l then n else p.supply m := by
  cases l <;> cases m <;> rfl

@[simp] theorem reserve_setSupply (p : Protocol) (l : Leg) (n : Nat) : (p.setSupply l n).reserve = p.reserve := by
  cases l <;> rfl

@[simp] theorem treasury_setSupply (p : Protocol) (l : Leg) (n : Nat) : (p.setSupply l n).treasury = p.treasury := by
  cases l <;> rfl

@[simp] theorem feed_setSupply (p : Protocol) (l : Leg) (n : Nat) : (p.setSupply l n).feed = p.feed := by
  cases l <;> rfl

@[simp] theorem roles_setSupply (p : Protocol) (l : Leg) (n : Nat) : (p.setSupply l n).roles = p.roles := by
  cases l <;> rfl

@[simp] theorem bootstrapped_setSupply (p : Protocol) (l : Leg) (n : Nat) :
    (p.setSupply l n).bootstrapped = p.bootstrapped := by
  cases l <;> rfl

@[simp] theorem reserveToken_setSupply (p : Protocol) (l : Leg) (n : Nat) :
    (p.setSupply l n).reserveToken = p.reserveToken := by
  cases l <;> rfl

@[simp] theorem token_setSupply (p : Protocol) (l m : Leg) (n : Nat) : (p.setSupply l n).token m = p.token m := by
  cases l <;> cases m <;> rfl

@[simp] theorem pool_setSupply (p : Protocol) (l : Leg) (n : Nat) : (p.setSupply l n).pool = p.pool := by
  cases l <;> rfl

/-! ### Officers -/

/-- The calls that change nothing but the books of the protocol, with what they make of them. -/
def Call.onBooks (now : Nat) (p : Protocol) (caller : Address) : Call → Option (Outcome (Protocol × List Event))
  | .setPool pool => some ((p.setPool caller pool).map fun p => (p, []))
  | .grantRole role account => some (p.grantRole caller role account)
  | .revokeRole role account => some (p.revokeRole caller role account)
  | .renounceRole role => some (p.renounceRole caller role)
  | .setFees fees => some (p.setFees caller fees)
  | .setFeedConfig config => some ((p.setFeedConfig caller config).map fun p => (p, []))
  | .updatePrice raw seen => some (p.updatePrice caller now raw seen)
  | .withdrawTreasury .. | .recapitalize _ | .bootstrap _ | .mint .. | .redeem .. | .rebalance _ | .harvest _
  | .payClaim .. => none

/-- Who may make such a call, and what it leaves and announces. -/
inductive Call.Books (now : Nat) (p : Protocol) (caller : Address) : Call → Protocol → List Event → Prop
  | setPool {a : Address} (hc : p.roles.holds .admin caller = true) :
      Books now p caller (.setPool a) { p with pool := some a } []
  | grantRole {role : Nat} {account : Address} {roles : Roles} {changed : Bool} (hc : p.roles.holds .admin caller = true)
      (hr : p.roles.grant role account = .ok (roles, changed)) :
      Books now p caller (.grantRole role account) { p with roles } (roleEvents role account true changed)
  | revokeRole {role : Nat} {account : Address} {roles : Roles} {changed : Bool} (hc : p.roles.holds .admin caller = true)
      (hr : p.roles.revoke role account = .ok (roles, changed)) :
      Books now p caller (.revokeRole role account) { p with roles } (roleEvents role account false changed)
  | renounceRole {role : Nat} {roles : Roles} {changed : Bool} (hr : p.roles.revoke role caller = .ok (roles, changed)) :
      Books now p caller (.renounceRole role) { p with roles } (roleEvents role caller false changed)
  | setFees {fees : FeeSchedule} (hc : p.roles.holds .admin caller = true) (hf : fees.validate = .ok ()) :
      Books now p caller (.setFees fees) { p with fees } [.feesChanged caller]
  | setFeedConfig {config : FeedConfig} (hc : p.roles.holds .admin caller = true) (hf : config.validate = .ok ()) :
      Books now p caller (.setFeedConfig config) { p with feed := { p.feed with config } } []
  | updatePrice {raw seen : Nat} {feed : PriceFeed} (hc : p.roles.holds .oracle caller ∨ p.roles.holds .admin caller)
      (hf : p.feed.submit raw seen now = .ok feed) :
      Books now p caller (.updatePrice raw seen) { p with feed } [.priceUpdated p.feed.price feed.price seen]

theorem Call.books_of_onBooks {c : Call} (h : c.onBooks now p caller = some (.ok (p', es))) :
    c.Books now p caller p' es := by
  cases c with
  | setPool a =>
    simp only [onBooks, Option.some.injEq] at h
    obtain ⟨q, hq, e⟩ := Outcome.map_eq_ok.1 h
    cases e
    simp only [Protocol.setPool, Roles.requireAdmin, Outcome.bind_eq_ok, require_eq_ok] at hq
    obtain ⟨-, hc, hq⟩ := hq
    cases hq
    exact .setPool hc
  | grantRole role account =>
    simp only [onBooks, Protocol.grantRole, Roles.requireAdmin, Option.some.injEq, Outcome.bind_eq_ok, require_eq_ok] at h
    obtain ⟨-, hc, ⟨roles, changed⟩, hr, h⟩ := h
    cases h
    exact .grantRole hc hr
  | revokeRole role account =>
    simp only [onBooks, Protocol.revokeRole, Roles.requireAdmin, Option.some.injEq, Outcome.bind_eq_ok, require_eq_ok] at h
    obtain ⟨-, hc, ⟨roles, changed⟩, hr, h⟩ := h
    cases h
    exact .revokeRole hc hr
  | renounceRole role =>
    simp only [onBooks, Protocol.renounceRole, Option.some.injEq, Outcome.bind_eq_ok] at h
    obtain ⟨⟨roles, changed⟩, hr, h⟩ := h
    cases h
    exact .renounceRole hr
  | setFees fees =>
    simp only [onBooks, Protocol.setFees, Roles.requireAdmin, Option.some.injEq, Outcome.bind_eq_ok, require_eq_ok] at h
    obtain ⟨-, hc, _, hf, h⟩ := h
    cases h
    exact .setFees hc hf
  | setFeedConfig config =>
    simp only [onBooks, Option.some.injEq] at h
    obtain ⟨q, hq, e⟩ := Outcome.map_eq_ok.1 h
    cases e
    simp only [Protocol.setFeedConfig, PriceFeed.configure, Roles.requireAdmin, Outcome.bind_eq_ok, require_eq_ok] at hq
    obtain ⟨-, hc, feed, ⟨_, hv, hf⟩, hq⟩ := hq
    cases hf
    cases hq
    exact .setFeedConfig hc hv
  | updatePrice raw seen =>
    simp only [onBooks, Protocol.updatePrice, Roles.requireOracle, Option.some.injEq, Outcome.bind_eq_ok, require_eq_ok] at h
    obtain ⟨-, hc, feed, hf, h⟩ := h
    cases h
    exact .updatePrice hc hf
  | withdrawTreasury | recapitalize | bootstrap | mint | redeem | rebalance | harvest | payClaim => cases h

/-- None of them but `setPool` changes anything besides the roles, the fees and the feed, and the price only changes by an
update. -/
theorem Call.onBooks_ok {c : Call} (h : c.onBooks now p caller = some (.ok (p', es))) (hc : ∀ a, c ≠ .setPool a) :
    ∃ roles feed fees, p' = { p with roles, feed, fees } ∧
      ((∀ raw seen, c ≠ .updatePrice raw seen) → feed.price = p.feed.price) := by
  cases books_of_onBooks h with
  | setPool => exact absurd rfl (hc _)
  | grantRole | revokeRole | renounceRole | setFees | setFeedConfig => exact ⟨_, _, _, rfl, fun _ => rfl⟩
  | updatePrice => exact ⟨_, _, _, rfl, fun hn => absurd rfl (hn _ _)⟩

theorem withdrawTreasury_ok (h : p.withdrawTreasury caller amount = .ok p') :
    p.roles.holds .admin caller = true ∧
      ∃ treasury, p.treasury.withdraw amount = .ok treasury ∧ p' = { p with treasury } := by
  simp only [withdrawTreasury, Roles.requireAdmin, Outcome.bind_eq_ok, require_eq_ok] at h
  obtain ⟨-, hr, treasury, ht, h⟩ := h
  cases h
  exact ⟨hr, treasury, ht, rfl⟩

theorem addReserve_ok (h : p.addReserve amount = .ok p') :
    p' = { p with reserve := p.reserve + amount } ∧ p.reserve + amount < wordLimit := by
  simp only [addReserve, Outcome.bind_eq_ok, demand_eq_ok, word?_eq_some] at h
  obtain ⟨reserve, ⟨hlt, rfl⟩, h⟩ := h
  cases h
  exact ⟨rfl, hlt⟩

theorem recapitalize_ok (h : p.recapitalize caller amount = .ok p') :
    amount ≠ 0 ∧ p' = { p with reserve := p.reserve + amount } := by
  simp only [recapitalize, Outcome.bind_eq_ok, require_eq_ok] at h
  obtain ⟨-, -, -, hn, h⟩ := h
  exact ⟨hn, (addReserve_ok h).1⟩

theorem payClaim_ok (h : p.payClaim caller amount = .ok p') :
    p.pool = some caller ∧ amount ≤ p.reserve ∧ p' = { p with reserve := p.reserve - amount } := by
  simp only [payClaim, Outcome.bind_eq_ok, require_eq_ok] at h
  obtain ⟨-, hc, -, hle, h⟩ := h
  cases h
  exact ⟨hc.symm, hle, rfl⟩

/-- The pool is paid what the reserve has. -/
theorem payClaim_of_le (hc : p.pool = some caller) (hle : amount ≤ p.reserve) :
    p.payClaim caller amount = .ok { p with reserve := p.reserve - amount } := by
  rw [payClaim, require, if_pos hc.symm, require, if_pos hle]
  rfl

theorem bounty_le (n : Nat) : bounty n ≤ n := by
  unfold bounty bountyRate bpsScale
  omega

/-- The first reserve is worth at least twice its stable tokens. -/
theorem bootstrap_ok (h : p.bootstrap caller now amount = .ok p') :
    p.bootstrapped = false ∧ 2 * p'.supplyF * priceScale ≤ amount * p.feed.price ∧ (∀ leg, p'.supply leg < wordLimit) ∧
      p' = { p with reserve := amount, supplyF := p'.supplyF, supplyX := p'.supplyX, bootstrapped := true } := by
  simp only [bootstrap, Outcome.bind_eq_ok, require_eq_ok, demand_eq_ok] at h
  obtain ⟨-, -, -, hb, -, -, price, hp, value, hv, -, -, h⟩ := h
  cases h
  obtain ⟨rfl, -⟩ := PriceFeed.fresh_ok hp
  obtain ⟨-, hlt, -⟩ := mulDiv_eq_some.1 hv
  have hle := mulDiv_mul_le hv
  have hvalue : value < wordLimit := (mulDiv_eq_some.1 hv).2.2 ▸ hlt
  refine ⟨hb, ?_, ?_, rfl⟩
  · refine le_trans (Nat.mul_le_mul_right _ ?_) hle
    simp only
    omega
  · intro leg
    cases leg <;> simp only [supply] <;> omega

end Protocol

end SplitReserve
