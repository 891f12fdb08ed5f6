import SplitReserve.Proofs.Failure
import SplitReserve.Proofs.Pool.Worth
import SplitReserve.Proofs.Protocol.Trade
import SplitReserve.Proofs.Roles
import SplitReserve.Proofs.Token

/-!
# What the books handle

Every operation of a protocol, of a pool in order and of a token in order succeeds or is refused for a fault: no subtraction
goes below zero, and no sum or product out of range.  Each plain operation is covered by a check made before it, or by what is
known of the books.  Divisions need no lemma: what is divided by is a constant, or has been tested for zero where it is divided
by.  The one operation that can be stopped is the grant of a role whose count is at its limit (`Protocol.grantRole_handled`).
-/

namespace SplitReserve

open Outcome

/-! ### Prices, charges and the treasury -/

theorem FeeSchedule.charge_handled (s : FeeSchedule) (op : Operation) (level : Level) (gross : Nat) :
    (s.charge op level gross).Handled := by
  simp [charge]

theorem PriceFeed.fresh_handled (f : PriceFeed) (now : Nat) : (f.fresh now).Handled := by
  unfold fresh
  split <;> simp

theorem PriceFeed.submit_handled (f : PriceFeed) (raw seen now : Nat) : (f.submit raw seen now).Handled := by
  simp [submit]

namespace Treasury

variable {t : Treasury} {op : Operation} {fee bonus amount : Nat}

theorem recordFee_handled : (t.recordFee op fee).Handled := by
  unfold recordFee
  split <;> simp

/-- The bonus is covered by what was there before the fee came in. -/
theorem settle_handled : (t.settle op fee bonus).Handled := by
  simp only [settle, ensureCovered, handled_bind, handled_require, handled_demand, handled_pure, require_eq_ok, recordFee_handled,
    implies_true, and_true, true_and]
  intro _ hbonus u hu
  have hle : bonus ≤ u.balance := by
    rw [(recordFee_ok hu).1]
    exact hbonus.trans (Nat.le_add_right _ _)
  exact handled_of_eq_ok (subtract_eq_ok.2 ⟨hle, rfl⟩)

theorem withdraw_handled : (t.withdraw amount).Handled := by
  simp [withdraw]

end Treasury

namespace Protocol

variable {p : Protocol} {caller : Address} {leg : Leg} {op : Operation} {now amount least : Nat} {owed : Outcome Nat}

/-! ### Officers -/

/-- Only the count of a role that is at its limit stops an admin's grant, and only when it is to count a new member. -/
theorem grantRole_handled {role : Nat} {a : Address}
    (h : ∀ r, Role.ofNumber? role = some r → p.roles.holds .admin caller = true → p.roles.holds r a = false →
      (p.roles.office r).size < Office.capacity) :
    (p.grantRole caller role a).Handled := by
  have hgrant : p.roles.holds .admin caller = true → (p.roles.grant role a).Handled := by
    intro hadmin
    unfold Roles.grant
    split
    next => exact handled_refuse _
    next r hr =>
      split
      next => exact handled_ok _
      next hnew =>
        simp only [handled_bind, handled_pure, implies_true, and_true]
        unfold Office.seat
        rw [if_pos (h r hr hadmin (by simpa using hnew))]
        split <;> exact handled_ok _
  simp only [grantRole, Roles.requireAdmin, handled_bind, handled_require, require_eq_ok, handled_pure, implies_true, and_true,
    true_and]
  exact fun _ => hgrant

theorem revoke_handled (t : Roles) (role : Nat) (a : Address) : (t.revoke role a).Handled := by
  unfold Roles.revoke
  split
  next => exact handled_ok _
  next => split <;> simp

/-! ### The reserve -/

theorem addReserve_handled : (p.addReserve amount).Handled := by
  simp [addReserve]

theorem recapitalize_handled : (p.recapitalize caller amount).Handled := by
  simp [recapitalize, Roles.requireAdmin, addReserve_handled]

theorem bootstrap_handled : (p.bootstrap caller now amount).Handled := by
  simp [bootstrap, Roles.requireAdmin, PriceFeed.fresh_handled]

theorem payClaim_handled : (p.payClaim caller amount).Handled := by
  simp [payClaim]

theorem withdrawTreasury_handled : (p.withdrawTreasury caller amount).Handled := by
  simp [withdrawTreasury, Roles.requireAdmin, Treasury.withdraw_handled]

/-! ### Trades -/

theorem price_handled (ho : owed.Handled) : (p.price now owed op amount).Handled := by
  have hpriceAt : ∀ price o, (p.priceAt price o op amount).Handled := by
    intro price o
    cases op <;> simp [priceAt, FeeSchedule.charge_handled]
  simp [price, PriceFeed.fresh_handled, ho, hpriceAt, Treasury.ensureCovered]

theorem settle_handled (ho : owed.Handled) : (p.settle now owed op amount least).Handled := by
  simp [settle, price_handled ho, Treasury.settle_handled]

theorem mint_handled (ho : owed.Handled) : (p.mint now owed leg amount least).Handled := by
  simp [mint, settle_handled ho, addReserve_handled]

/-- What a redemption takes from the reserve and from the supply was checked when it was priced. -/
theorem redeem_handled (o : Nat) : (p.redeem now (.ok o) leg amount least).Handled := by
  simp only [redeem, handled_bind, settle_handled (handled_ok o), handled_pure, implies_true, and_true, true_and]
  rintro ⟨p', q⟩ hs
  obtain ⟨hq, -, treasury, -, rfl⟩ := settle_ok hs
  obtain ⟨-, -, -, -, hle, -, hgross⟩ := price_redeem_ok hq
  have hreserve : q.gross ≤ p.reserve := hgross.trans (Nat.sub_le _ _)
  refine ⟨handled_of_eq_ok (subtract_eq_ok.2 ⟨hreserve, rfl⟩), fun _ _ => handled_of_eq_ok (subtract_eq_ok.2 ⟨?_, rfl⟩)⟩
  cases leg <;> exact hle

theorem planRebalance_handled (ho : owed.Handled) {target : Nat} : (p.planRebalance now owed target).Handled := by
  unfold planRebalance
  split
  · exact handled_ok _
  · split
    · simp
    · simp only [handled_bind, ho, true_and]
      intro o _
      split
      · simp
      · split <;> simp

end Protocol

/-! ### Tokens -/

namespace Token

variable {t : Token} {caller a b : Address} {n : Nat}

/-- A balance, with what comes in, is at most the supply. -/
theorem Whole.move_handled (h : t.Whole) : (t.move a b n).Handled := by
  by_cases hn : n ≤ t.balance a
  · obtain ⟨t', es, e⟩ := h.exists_move hn b
    exact handled_of_eq_ok e
  · rw [move, require, if_neg hn]
    exact handled_refuse _

theorem Whole.transferFrom_handled (h : t.Whole) : (t.transferFrom caller a b n).Handled := by
  simp [transferFrom, h.move_handled]

theorem Whole.mint_handled (h : t.Whole) (hn : t.supply + n < wideLimit) : (t.mint caller b n).Handled := by
  by_cases hc : t.isMinter caller = true
  · obtain ⟨t', es, e⟩ := h.exists_mint hc hn b
    exact handled_of_eq_ok e
  · rw [mint, requireMinter, require, if_neg hc]
    exact handled_refuse _

theorem Whole.burnFrom_handled (h : t.Whole) : (t.burnFrom caller a n).Handled := by
  simp only [burnFrom, requireMinter, destroy, handled_bind, handled_require, handled_pure, require_eq_ok, implies_true, and_true,
    true_and]
  intro _ _ _ hn
  exact handled_of_eq_ok (subtract_eq_ok.2 ⟨hn.trans (h.balance_le a), rfl⟩)

end Token

/-! ### Pools -/

namespace Pool

variable {p : Pool} {caller a : Address} {n : Nat}

theorem requireController_handled : (p.requireController caller).Handled := by
  simp [requireController]

theorem setController_handled : (p.setController caller a).Handled := by
  simp [setController]

theorem Sound.deposit_handled (hp : p.Sound) : (p.deposit a n).Handled := by
  simp [Pool.deposit, hp.settled]

theorem Sound.withdraw_handled (hp : p.Sound) (hf : p.Fits) : (p.withdraw a n).Handled := by
  simp only [Pool.withdraw, hp.settled, hf.toStable hp, handled_bind, handled_require, Outcome.ok_bind, true_and]
  intro _ _ _ _
  split
  next => simp [subtract]
  next =>
    simp only [handled_bind, handled_map, handled_demand, handled_pure, implies_true, and_true, true_and]
    intro k hk
    obtain ⟨k', -, rfl⟩ := Outcome.map_eq_ok.1 hk
    exact handled_of_eq_ok (subtract_eq_ok.2 ⟨Nat.min_le_right _ _, rfl⟩)

theorem Sound.close_handled (hp : p.Sound) : (p.close a).Handled := by
  simp [Pool.close, hp.settled]

/-- What the shares are worth fits at every smaller scale. -/
theorem Fits.share_handled (hf : p.Fits) (burn payout : Nat) : (Loss.share p.scale p.shares burn payout).Handled := by
  have hworth : ∀ scale ≤ p.scale, (sharesToStable p.shares scale).Handled := fun scale hle =>
    handled_of_eq_ok (sharesToStable_eq_ok.2 ⟨(Nat.mul_le_mul_left _ hle).trans_lt hf.product_lt, rfl⟩)
  simp only [Loss.share, handled_bind, hworth _ le_rfl, handled_demand, true_and]
  intro worth _ total _
  split
  next => exact handled_pure _
  next hz =>
    split
    next => exact handled_pure _
    next =>
      simp only [handled_bind, handled_demand, true_and]
      intro paid _ delta _
      have hcap : min burn (burnCap total) ≤ total := by
        refine (Nat.min_le_right _ _).trans ?_
        unfold burnCap maxLossShare bpsScale
        omega
      refine ⟨handled_of_eq_ok (subtract_eq_ok.2 ⟨hcap, rfl⟩), fun target htarget scale hscale => ⟨?_, fun _ _ _ _ => ?_⟩⟩
      · obtain ⟨-, rfl⟩ := subtract_eq_ok.1 htarget
        refine hworth scale ?_
        obtain ⟨-, -, rfl⟩ := mulDiv_eq_some.1 (demand_eq_ok.1 hscale)
        exact Nat.div_le_of_le_mul (by rw [Nat.mul_comm]; exact Nat.mul_le_mul_right _ (Nat.sub_le _ _))
      · split <;> exact handled_pure _

theorem Fits.bear_handled (hf : p.Fits) (burn payout : Nat) : (p.bear caller burn payout).Handled := by
  simp only [bear, handled_bind, requireController_handled, hf.share_handled, true_and]
  intro _ _ loss _
  split <;> simp

theorem indexRewards_handled : (p.indexRewards caller n).Handled := by
  simp only [indexRewards, handled_bind, requireController_handled, true_and]
  intro _ _
  split <;> simp

end Pool

end SplitReserve
