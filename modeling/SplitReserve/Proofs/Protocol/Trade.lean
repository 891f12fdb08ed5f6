import Mathlib.Algebra.Order.Ring.Int
import Mathlib.Tactic.Linarith
import Mathlib.Tactic.Positivity
import Mathlib.Tactic.Ring
import Mathlib.Tactic.Zify
import SplitReserve.Proofs.Protocol.Books

/-!
# The books of trades

What minting, redeeming and rebalancing do to the books of a protocol.  The `excess` is what the net reserve is worth beyond
the stable tokens, taken exactly.  All roundings favour it: tokens are minted and redeemed at no better than their price
(`Mints.fair`, `Redeems.fair`), so stable tokens never lower it and leveraged ones take at most their share.  Hence it cannot
fall below zero (`Fair.excess_le_or_nonneg`), nor can the price of the leveraged tokens fall (`Fair.unit_le`).

A rebalance is planned just when the protocol is `Strained`, and what is planned is then fixed (`planRebalance_of_strained`).
-/

namespace SplitReserve

namespace Protocol

variable {p p' : Protocol} {leg : Leg} {now owed amount least : Nat} {q : Priced}

/-- The worth of the net reserve less that of the stable tokens. -/
def excess (p : Protocol) (owed : Nat) : ℤ := ((p.reserve : ℤ) - owed) * p.feed.price - p.supplyF * stablePrice

/-- The price of a token of either kind. -/
def unit (p : Protocol) (owed : Nat) (leg : Leg) : Nat :=
  leg.price (xPrice p.reserve owed p.feed.price p.supplyF p.supplyX)

theorem unit_f (p : Protocol) (owed : Nat) : p.unit owed .f = stablePrice := rfl

/-- The fee and the bonus that `q` has are in order. -/
structure Charges (p : Protocol) (q : Priced) : Prop where
  gross_pos : q.gross ≠ 0
  fee_le : q.charge.fee ≤ q.gross
  net : q.charge.net = q.gross - q.charge.fee + q.charge.bonus
  bonus_le : q.charge.bonus ≤ p.treasury.balance

/-- `p'` is `p` after tokens were minted for `amount` of the reserve, priced by `q`. -/
structure Mints (p p' : Protocol) (owed : Nat) (leg : Leg) (amount : Nat) (q : Priced) : Prop where
  bootstrapped : p.bootstrapped = true
  gross : q.gross = amount
  charge : Charges p q
  out_le : q.out * p.unit owed leg ≤ q.charge.net * p.feed.price
  supply_lt : p.supply leg + q.out < wordLimit
  reserve_lt : p.reserve + q.charge.net < wordLimit
  settled : p.treasury.settle (.mint leg) q.charge.fee q.charge.bonus = .ok p'.treasury
  books : p' = { p with treasury := p'.treasury, reserve := p.reserve + q.charge.net }.setSupply leg (p.supply leg + q.out)

/-- `p'` is `p` after `amount` tokens were redeemed, priced by `q`. -/
structure Redeems (p p' : Protocol) (owed : Nat) (leg : Leg) (amount : Nat) (q : Priced) : Prop where
  bootstrapped : p.bootstrapped = true
  charge : Charges p q
  out : q.out = q.charge.net
  amount_le : amount ≤ p.supply leg
  gross_le : q.gross * p.feed.price ≤ amount * p.unit owed leg
  gross_le_net : q.gross ≤ p.reserve - owed
  settled : p.treasury.settle (.redeem leg) q.charge.fee q.charge.bonus = .ok p'.treasury
  books : p' = { p with treasury := p'.treasury, reserve := p.reserve - q.gross }.setSupply leg (p.supply leg - amount)

theorem price_ok {owed : Outcome Nat} {op : Operation} (h : p.price now owed op amount = .ok q) :
    p.bootstrapped = true ∧ p.feed.price ≠ 0 ∧ (∃ o, owed = .ok o ∧ p.priceAt p.feed.price o op amount = .ok q) ∧
      q.charge.bonus ≤ p.treasury.balance := by
  simp only [price, Treasury.ensureCovered, Outcome.bind_eq_ok, require_eq_ok] at h
  obtain ⟨-, hb, price, hp, o, ho, q', hq, -, -, -, hc, h⟩ := h
  cases h
  obtain ⟨rfl, hpos⟩ := PriceFeed.fresh_ok hp
  exact ⟨hb, hpos, ⟨o, ho, hq⟩, hc⟩

theorem settle_ok {owed : Outcome Nat} {op : Operation} (h : p.settle now owed op amount least = .ok (p', q)) :
    p.price now owed op amount = .ok q ∧ least ≤ q.out ∧
      ∃ treasury, p.treasury.settle op q.charge.fee q.charge.bonus = .ok treasury ∧ p' = { p with treasury } := by
  simp only [settle, Outcome.bind_eq_ok, require_eq_ok] at h
  obtain ⟨q', hq, -, hl, treasury, ht, h⟩ := h
  cases h
  exact ⟨hq, hl, treasury, ht, rfl⟩

/-- What the price of a mint promises. -/
theorem price_mint_ok (h : p.price now (.ok owed) (.mint leg) amount = .ok q) :
    p.bootstrapped = true ∧ p.feed.price ≠ 0 ∧ q.gross = amount ∧ Charges p q ∧
      q.out * p.unit owed leg ≤ q.charge.net * p.feed.price ∧ p.supply leg + q.out < wordLimit := by
  obtain ⟨hb, hpos, ⟨o, ho, hq⟩, hbonus⟩ := price_ok h
  cases ho
  simp only [priceAt, Outcome.bind_eq_ok, require_eq_ok, demand_eq_ok] at hq
  obtain ⟨-, -, charge, hcharge, out, hout, -, hfit, hq⟩ := hq
  cases hq
  obtain ⟨hz, hfee, hnet, -⟩ := FeeSchedule.charge_ok hcharge
  exact ⟨hb, hpos, rfl, ⟨hz, hfee, hnet, hbonus⟩, mulDiv_mul_le hout, hfit⟩

/-- What the price of a redemption promises. -/
theorem price_redeem_ok (h : p.price now (.ok owed) (.redeem leg) amount = .ok q) :
    p.bootstrapped = true ∧ p.feed.price ≠ 0 ∧ q.out = q.charge.net ∧ Charges p q ∧ amount ≤ p.supply leg ∧
      q.gross * p.feed.price ≤ amount * p.unit owed leg ∧ q.gross ≤ p.reserve - owed := by
  obtain ⟨hb, hpos, ⟨o, ho, hq⟩, hbonus⟩ := price_ok h
  cases ho
  simp only [priceAt, Outcome.bind_eq_ok, require_eq_ok, demand_eq_ok] at hq
  obtain ⟨-, hle, gross, hgross, charge, hcharge, -, hnetle, hq⟩ := hq
  cases hq
  obtain ⟨hz, hfee, hnet, -⟩ := FeeSchedule.charge_ok hcharge
  exact ⟨hb, hpos, rfl, ⟨hz, hfee, hnet, hbonus⟩, hle, mulDiv_mul_le hgross, hnetle⟩

theorem mint_ok (h : p.mint now (.ok owed) leg amount least = .ok (p', q)) :
    Mints p p' owed leg amount q ∧ p.feed.price ≠ 0 := by
  simp only [mint, Outcome.bind_eq_ok, demand_eq_ok, word?_eq_some] at h
  obtain ⟨⟨p₁, q₁⟩, hs, p₂, hr, supply, ⟨hlt, rfl⟩, h⟩ := h
  cases h
  obtain ⟨hprice, -, treasury, ht, rfl⟩ := settle_ok hs
  obtain ⟨rfl, hrlt⟩ := addReserve_ok hr
  obtain ⟨hb, hpos, hgross, hcharge, hout, hfit⟩ := price_mint_ok hprice
  exact ⟨⟨hb, hgross, hcharge, hout, hfit, hrlt, by simpa using ht, by cases leg <;> rfl⟩, hpos⟩

theorem redeem_ok (h : p.redeem now (.ok owed) leg amount least = .ok (p', q)) :
    Redeems p p' owed leg amount q ∧ p.feed.price ≠ 0 := by
  simp only [redeem, Outcome.bind_eq_ok, subtract_eq_ok] at h
  obtain ⟨⟨p₁, q₁⟩, hs, reserve, ⟨-, rfl⟩, supply, ⟨-, rfl⟩, h⟩ := h
  cases h
  obtain ⟨hprice, -, treasury, ht, rfl⟩ := settle_ok hs
  obtain ⟨hb, hpos, hout, hcharge, hle, hgross, hnetle⟩ := price_redeem_ok hprice
  exact ⟨⟨hb, hcharge, hout, hle, hgross, hnetle, by simpa using ht, by cases leg <;> rfl⟩, hpos⟩

/-! ### Plans -/

section Plans

variable {target : Nat} {plan : Plan}

/-- The stable tokens to burn, as far as the protocol is concerned. -/
def toBurn (p : Protocol) (owed target : Nat) : Nat :=
  min (burnNeeded (netReserve p.reserve owed) p.feed.price p.supplyF stablePrice target) (p.supplyF / 2)

/-- The face value of what is to be burned, in the reserve. -/
def faceValue (p : Protocol) (owed target : Nat) : Nat := p.toBurn owed target * stablePrice / p.feed.price

/-- The protocol has a price, is at the worst level, and has something to burn. -/
structure Strained (p : Protocol) (now owed target : Nat) : Prop where
  usable : p.feed.Usable now
  level : currentLevel p.reserve owed p.feed.price p.supplyF stablePrice = .l3
  toBurn : p.toBurn owed target ≠ 0

theorem Strained.supplyF_ne_zero (h : p.Strained now owed target) : p.supplyF ≠ 0 := by
  intro hz
  have := h.toBurn
  rw [Protocol.toBurn, hz] at this
  omega

theorem toBurn_eq (p : Protocol) (owed target : Nat) :
    min (burnNeeded (netReserve p.reserve owed) p.feed.price p.supplyF stablePrice target)
      (p.supplyF * maxBurnShare / bpsScale) = p.toBurn owed target := by
  have : p.supplyF * maxBurnShare / bpsScale = p.supplyF / 2 := by
    unfold maxBurnShare bpsScale
    omega
  rw [this, toBurn]

theorem planRebalance_of_not_strained (h : ¬ p.Strained now owed target) :
    p.planRebalance now (.ok owed) target = .ok none := by
  unfold planRebalance
  split
  next => rfl
  next price hfresh =>
    obtain ⟨hu, rfl⟩ := PriceFeed.fresh_eq_ok.1 hfresh
    split
    next => rfl
    next hsupply =>
      rw [Outcome.ok_bind]
      split
      next => rfl
      next hlevel =>
        dsimp only
        rw [toBurn_eq]
        split
        next => rfl
        next hburn => exact absurd ⟨hu, not_not.1 hlevel, hburn⟩ h

/-- The face value must be in range before it is cut to what nobody is owed. -/
theorem planRebalance_of_strained (h : p.Strained now owed target) : p.planRebalance now (.ok owed) target =
    if p.faceValue owed target < wordLimit then
      .ok (some ⟨p.feed.price, p.toBurn owed target, min (p.faceValue owed target) (netReserve p.reserve owed)⟩)
    else .error (.fault .mathOverflow) := by
  rw [planRebalance, PriceFeed.fresh_eq_ok.2 ⟨h.usable, rfl⟩]
  dsimp only
  rw [if_neg h.supplyF_ne_zero, Outcome.ok_bind, if_neg (not_not.2 h.level), toBurn_eq, if_neg h.toBurn, toReserve, mulDiv,
    if_neg h.usable.price]
  exact demand_word_bind _ _ _

theorem planRebalance_some (h : p.planRebalance now (.ok owed) target = .ok (some plan)) :
    p.Strained now owed target ∧ p.faceValue owed target < wordLimit ∧
      plan = ⟨p.feed.price, p.toBurn owed target, min (p.faceValue owed target) (netReserve p.reserve owed)⟩ := by
  by_cases hs : p.Strained now owed target
  · rw [planRebalance_of_strained hs] at h
    split at h
    next hface =>
      cases h
      exact ⟨hs, hface, rfl⟩
    next => cases h
  · rw [planRebalance_of_not_strained hs] at h
    cases h

/-- A plan burns at most half of the stable tokens, and pays at most what they are worth and at most the net reserve. -/
theorem planRebalance_ok (h : p.planRebalance now (.ok owed) target = .ok (some plan)) :
    plan.price = p.feed.price ∧ p.feed.price ≠ 0 ∧ p.supplyF ≠ 0 ∧ plan.burn ≠ 0 ∧ plan.burn * 2 ≤ p.supplyF ∧
      plan.payout * p.feed.price ≤ plan.burn * stablePrice ∧ plan.payout ≤ p.reserve - owed := by
  obtain ⟨hs, -, rfl⟩ := planRebalance_some h
  refine ⟨rfl, hs.usable.price, hs.supplyF_ne_zero, hs.toBurn, ?_, ?_, Nat.min_le_right _ _⟩
  · have : p.toBurn owed target ≤ p.supplyF / 2 := Nat.min_le_right _ _
    dsimp only
    omega
  · exact (Nat.mul_le_mul_right _ (Nat.min_le_left _ _)).trans (Nat.div_mul_le_self _ _)

end Plans

/-! ### Excess -/

/-- The excess when the net reserve has changed by `r` and the stable tokens by `n`, at the same price. -/
theorem excess_change {owed' : Nat} {r n : ℤ} (hr : (p'.reserve : ℤ) - owed' = p.reserve - owed + r)
    (hn : (p'.supplyF : ℤ) = p.supplyF + n) (hprice : p'.feed.price = p.feed.price) :
    p'.excess owed' = p.excess owed + (r * p.feed.price - n * stablePrice) := by
  rw [excess, excess, hr, hn, hprice]
  ring

/-- The excess does not fall when the net reserve gains the worth of the new stable tokens. -/
theorem excess_le {owed' : Nat} {r n : ℤ} (hr : (p'.reserve : ℤ) - owed' = p.reserve - owed + r)
    (hn : (p'.supplyF : ℤ) = p.supplyF + n) (hprice : p'.feed.price = p.feed.price)
    (hle : n * stablePrice ≤ r * p.feed.price) : p.excess owed ≤ p'.excess owed' := by
  rw [excess_change hr hn hprice]
  linarith

/-- A leveraged token is worth at least `k`, a word, just when the excess has that much for each of them. -/
theorem le_unit_iff {k : Nat} (howed : owed ≤ p.reserve) (hx : p.supplyX ≠ 0) (hk : k ≠ 0) :
    k ≤ p.unit owed .x ↔ k ≤ maxWord ∧ (k * p.supplyX : ℤ) ≤ p.excess owed := by
  have hworth : k * p.supplyX ≠ 0 := Nat.mul_ne_zero hk hx
  refine (le_xPrice_iff hx hk).trans (and_congr_right fun _ => ?_)
  have hadd : k * p.supplyX ≤ (p.reserve - owed) * p.feed.price - p.supplyF * stablePrice ↔
      k * p.supplyX + p.supplyF * stablePrice ≤ (p.reserve - owed) * p.feed.price := by omega
  rw [netReserve, hadd, excess, le_sub_iff_add_le]
  zify [howed]

/-- All leveraged tokens together are worth at most the excess, and nothing without one. -/
theorem mul_unit_le (howed : owed ≤ p.reserve) (hle : amount ≤ p.supplyX) (hpos : amount * p.unit owed .x ≠ 0) :
    (amount * p.unit owed .x : ℤ) ≤ p.excess owed := by
  obtain ⟨hamount, hunit⟩ := Nat.mul_ne_zero_iff.1 hpos
  have hworth := ((le_unit_iff howed (by omega) hunit).1 le_rfl).2
  refine le_trans ?_ hworth
  rw [mul_comm]
  exact_mod_cast Nat.mul_le_mul_left _ hle

/-- From `p` to `p'`, leveraged tokens come and go at no better than their price, and nothing else lowers the excess. -/
def Fair (p : Protocol) (owed : Nat) (p' : Protocol) (owed' : Nat) : Prop :=
  p.excess owed + ((p'.supplyX : ℤ) - p.supplyX) * p.unit owed .x ≤ p'.excess owed'

namespace Fair

variable {owed' : Nat}

theorem of_excess_le (hx : p'.supplyX = p.supplyX) (h : p.excess owed ≤ p'.excess owed') : Fair p owed p' owed' := by
  rwa [Fair, hx, sub_self, zero_mul, add_zero]

theorem excess_le_or_nonneg (h : Fair p owed p' owed') (howed : owed ≤ p.reserve) :
    p.excess owed ≤ p'.excess owed' ∨ 0 ≤ p'.excess owed' := by
  unfold Fair at h
  rcases le_total p.supplyX p'.supplyX with hgrow | hshrink
  · have : 0 ≤ ((p'.supplyX : ℤ) - p.supplyX) * p.unit owed .x := by
      have : (p.supplyX : ℤ) ≤ p'.supplyX := by exact_mod_cast hgrow
      exact mul_nonneg (by linarith) (by positivity)
    exact Or.inl (by linarith)
  · -- Those that go take their share of the excess, which is there.
    obtain ⟨amount, hamount⟩ := Nat.exists_eq_add_of_le hshrink
    have hdiff : (p'.supplyX : ℤ) - p.supplyX = -amount := by omega
    rw [hdiff] at h
    by_cases hz : amount * p.unit owed .x = 0
    · have : (amount * p.unit owed .x : ℤ) = 0 := by exact_mod_cast hz
      exact Or.inl (by linarith)
    · have := mul_unit_le howed (by omega) hz
      exact Or.inr (by linarith)

/-- The leveraged tokens that stay are worth no less. -/
theorem unit_le (h : Fair p owed p' owed') (howed : owed ≤ p.reserve) (howed' : owed' ≤ p'.reserve) (hx : p.supplyX ≠ 0)
    (hx' : p'.supplyX ≠ 0) : p.unit owed .x ≤ p'.unit owed' .x := by
  by_cases hz : p.unit owed .x = 0
  · rw [hz]
    exact Nat.zero_le _
  obtain ⟨hword, hworth⟩ := (le_unit_iff howed hx hz).1 le_rfl
  unfold Fair at h
  exact (le_unit_iff howed' hx' hz).2 ⟨hword, by linarith⟩

end Fair

/-- While there is an excess, the net reserve can pay for all stable tokens. -/
theorem gross_le_of_excess {gross : Nat} (howed : owed ≤ p.reserve) (hprice : p.feed.price ≠ 0) (hx : 0 ≤ p.excess owed)
    (hle : amount ≤ p.supplyF) (hg : gross * p.feed.price ≤ amount * stablePrice) : gross ≤ p.reserve - owed := by
  have hcover : p.supplyF * stablePrice ≤ (p.reserve - owed) * p.feed.price := by
    rw [excess] at hx
    zify [howed]
    linarith
  refine Nat.le_of_mul_le_mul_right (hg.trans ?_) (Nat.pos_of_ne_zero hprice)
  exact (Nat.mul_le_mul_right _ hle).trans hcover

theorem Mints.reserve (h : Mints p p' owed leg amount q) : p'.reserve = p.reserve + q.charge.net := by
  rw [h.books, reserve_setSupply]

theorem Mints.supply (h : Mints p p' owed leg amount q) (l : Leg) :
    p'.supply l = if l = leg then p.supply leg + q.out else p.supply l := by
  rw [h.books, supply_setSupply]
  cases l <;> rfl

theorem Mints.feed (h : Mints p p' owed leg amount q) : p'.feed = p.feed := by
  rw [h.books, feed_setSupply]

theorem Mints.bootstrapped_after (h : Mints p p' owed leg amount q) : p'.bootstrapped = true := by
  rw [h.books, bootstrapped_setSupply]
  exact h.bootstrapped

theorem Redeems.reserve (h : Redeems p p' owed leg amount q) : p'.reserve = p.reserve - q.gross := by
  rw [h.books, reserve_setSupply]

theorem Redeems.supply (h : Redeems p p' owed leg amount q) (l : Leg) :
    p'.supply l = if l = leg then p.supply leg - amount else p.supply l := by
  rw [h.books, supply_setSupply]
  cases l <;> rfl

theorem Redeems.feed (h : Redeems p p' owed leg amount q) : p'.feed = p.feed := by
  rw [h.books, feed_setSupply]

theorem Redeems.bootstrapped_after (h : Redeems p p' owed leg amount q) : p'.bootstrapped = true := by
  rw [h.books, bootstrapped_setSupply]
  exact h.bootstrapped

theorem Mints.excess (h : Mints p p' owed leg amount q) : p'.excess owed =
    p.excess owed + (q.charge.net * p.feed.price - ((p'.supplyF : ℤ) - p.supplyF) * stablePrice) := by
  refine excess_change ?_ (by ring) (by rw [h.feed])
  rw [h.reserve]
  push_cast
  ring

theorem Redeems.excess (h : Redeems p p' owed leg amount q) (howed : owed ≤ p.reserve) : p'.excess owed =
    p.excess owed + (-q.gross * p.feed.price - ((p'.supplyF : ℤ) - p.supplyF) * stablePrice) := by
  have hle := h.gross_le_net
  refine excess_change ?_ (by ring) (by rw [h.feed])
  rw [h.reserve]
  omega

/-- Minted tokens bring at least their price. -/
theorem Mints.fair (h : Mints p p' owed leg amount q) : Fair p owed p' owed := by
  have hout := h.out_le
  zify at hout
  rw [Fair, h.excess]
  cases leg with
  | f =>
    have hf : (p'.supplyF : ℤ) = p.supplyF + q.out := by exact_mod_cast h.supply .f
    have hx : p'.supplyX = p.supplyX := h.supply .x
    rw [unit_f] at hout
    rw [hf, hx]
    linarith
  | x =>
    have hf : p'.supplyF = p.supplyF := h.supply .f
    have hx : (p'.supplyX : ℤ) = p.supplyX + q.out := by exact_mod_cast h.supply .x
    rw [hf, hx]
    linarith

/-- Redeemed tokens take at most their price. -/
theorem Redeems.fair (h : Redeems p p' owed leg amount q) (howed : owed ≤ p.reserve) : Fair p owed p' owed := by
  have hgross := h.gross_le
  zify at hgross
  have hle := h.amount_le
  rw [Fair, h.excess howed]
  cases leg with
  | f =>
    have hf : (p'.supplyF : ℤ) = p.supplyF - amount := by
      have : p'.supplyF = p.supplyF - amount := h.supply .f
      change amount ≤ p.supplyF at hle
      omega
    have hx : p'.supplyX = p.supplyX := h.supply .x
    rw [unit_f] at hgross
    rw [hf, hx]
    linarith
  | x =>
    have hf : p'.supplyF = p.supplyF := h.supply .f
    have hx : (p'.supplyX : ℤ) = p.supplyX - amount := by
      have : p'.supplyX = p.supplyX - amount := h.supply .x
      change amount ≤ p.supplyX at hle
      omega
    rw [hf, hx]
    linarith

end Protocol

end SplitReserve
