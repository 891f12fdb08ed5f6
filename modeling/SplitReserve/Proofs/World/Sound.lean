import SplitReserve.Proofs.World.Move

/-!
# Sound worlds

The invariant of a wired launch.  A world is `Sound` when its tokens are in order, its pool and its treasury keep their books,
and what the books promise is there: the protocol holds its reserve and its treasury in reserve tokens, the reserve covers what
the pool is owed, and the pool holds the stable tokens that its shares are worth.  Every permitted move of an account keeps a
world sound (`Sound.move`).
-/

namespace SplitReserve

/-! ### Tokens in order -/

/-- The contract that keeps tokens of a kind for others. -/
def Coin.vault : Coin → Option Address
  | reserve => some Launch.protocol
  | f => some Launch.pool
  | x => none

/-- A token of a launch is in order: the protocol alone mints the two legs, and nobody may spend what the vault has. -/
structure Coin.InOrder (c : Coin) (t : Token) : Prop where
  whole : t.Whole
  minter : c ≠ .reserve → ∀ a, t.isMinter a = true → a = Launch.protocol
  closed : ∀ a, c.vault = some a → t.Closed a

namespace Coin.InOrder

variable {c : Coin} {t t' : Token} {caller a : Address} {n : Nat} {log : List Event}

/-- A flow that takes no allowance up keeps a token in order. -/
theorem flow (h : c.InOrder t) {source target : Option Address} (hf : t.Flow t' source target n)
    (ha : ∀ o s, t'.allowance o s ≤ t.allowance o s) : c.InOrder t' where
  whole := hf.whole h.whole
  minter hc a hm := h.minter hc a (by rwa [Token.isMinter, hf.minters] at hm)
  closed a hv s := Nat.le_zero.1 ((ha a s).trans_eq (h.closed a hv s))

/-- An account mints neither leg. -/
theorem not_minter (h : c.InOrder t) (hr : c ≠ .reserve) (hc : caller.IsAccount) : t.isMinter caller = false := by
  rw [← Bool.not_eq_true]
  intro hm
  exact hc.ne_protocol (h.minter hr caller hm)

/-- A permitted call of an account keeps a token in order, and takes nothing from its vault. -/
theorem call (h : c.InOrder t) (hc : caller.IsAccount) {call : Token.Call}
    (hn : (Call.token call).Permitted c.address) (ht : call.apply t caller = .ok (t', log)) :
    c.InOrder t' ∧ ∀ a, c.vault = some a → t.balance a ≤ t'.balance a := by
  obtain ⟨hmanaging, hburn⟩ := hn
  have hkept : ∀ a, c.vault = some a → t.balance a ≤ t'.balance a ∧ t'.Closed a := by
    intro a hv
    refine Token.Call.kept ht ?_ (h.closed a hv) ?_
    · rintro rfl
      cases c with
      | reserve => exact hc.ne_protocol (Option.some.inj hv).symm
      | f => exact hc.ne_pool (Option.some.inj hv).symm
      | x => cases hv
    · intro hm n
      cases c with
      | reserve =>
        cases hv
        exact hburn rfl n
      | f | x => exact absurd hm (by simp [h.not_minter (by decide) hc])
  refine ⟨⟨Token.Call.whole ht h.whole, fun hr a hm => ?_, fun a hv => (hkept a hv).2⟩, fun a hv => (hkept a hv).1⟩
  exact h.minter hr a (by rwa [Token.Call.isMinter hmanaging ht] at hm)

theorem transfer (h : c.InOrder t) {b : Address} (ht : t.transfer a b n = .ok (t', log)) : c.InOrder t' :=
  have ⟨hf, _, ha⟩ := Token.transfer_flow ht
  h.flow hf fun o s => (ha o s).le

theorem transferFrom (h : c.InOrder t) {b : Address} (ht : t.transferFrom caller a b n = .ok (t', log)) :
    c.InOrder t' := by
  obtain ⟨hf, -, hn, ha⟩ := Token.transferFrom_flow ht
  refine h.flow hf fun o s => ?_
  rw [ha]
  split
  next e => rw [e.1, e.2]; exact Nat.sub_le _ _
  next => exact le_rfl

theorem mint (h : c.InOrder t) (ht : t.mint caller a n = .ok (t', log)) : c.InOrder t' :=
  have ⟨hf, _, ha⟩ := Token.mint_flow ht
  h.flow hf fun o s => (ha o s).le

theorem burnFrom (h : c.InOrder t) (ht : t.burnFrom caller a n = .ok (t', log)) : c.InOrder t' :=
  have ⟨hf, _, _, ha⟩ := Token.burnFrom_flow ht
  h.flow hf fun o s => (ha o s).le

end Coin.InOrder

/-! ### The invariant -/

namespace World

structure Sound (w : World) : Prop where
  linked : w.Linked
  ordered : ∀ c : Coin, c.InOrder (w.coin c)
  pool : w.pool.Sound
  treasury : w.protocol.treasury.Balanced
  held : w.protocol.reserve + w.protocol.treasury.balance ≤ (w.coin .reserve).balance Launch.protocol
  owed_le : w.pool.owed ≤ w.protocol.reserve
  backed : w.pool.shares * w.pool.scale ≤ (w.coin .f).balance Launch.pool * shareScale
  supply_le : ∀ leg : Leg, (w.coin leg.coin).supply ≤ w.protocol.supply leg
  supply_lt : ∀ leg, w.protocol.supply leg < wordLimit
  /-- Before the first reserve there are no tokens of either leg, and no rewards. -/
  dormant : w.protocol.bootstrapped = false → w.pool.owed = 0 ∧ ∀ leg, w.protocol.supply leg = 0

variable {w w' : World} {caller : Address} {n k : Nat} {log : List Event}

theorem ordered_setCoin {c : Coin} {t : Token} (h : ∀ d : Coin, d.InOrder (w.coin d)) (ht : c.InOrder t) (d : Coin) :
    d.InOrder ((w.setCoin c t).coin d) := by
  rw [coin_setCoin]
  split
  next e => exact e ▸ ht
  next => exact h d

namespace Sound

/-- A pool that has never been able to have stable tokens has no shares. -/
theorem shares_eq_zero (hw : w.Sound) (h : w.protocol.bootstrapped = false) : w.pool.shares = 0 := by
  have hsupply : (w.coin .f).supply ≤ 0 := (hw.supply_le .f).trans_eq ((hw.dormant h).2 .f)
  have hbalance := (hw.ordered .f).whole.balance_le Launch.pool
  have hbacked := hw.backed
  have hzero : (w.coin .f).balance Launch.pool = 0 := by omega
  rw [hzero, Nat.zero_mul, Nat.le_zero, Nat.mul_eq_zero] at hbacked
  exact hbacked.resolve_right hw.pool.scale_pos.ne'

/-- What is drawn from an account comes on top of the reserve and the treasury. -/
theorem held_draw (hw : w.Sound) (hc : caller.IsAccount) {t : Token}
    (ht : (w.coin .reserve).transferFrom Launch.protocol caller Launch.protocol n = .ok (t, log)) :
    w.protocol.reserve + w.protocol.treasury.balance + n ≤ t.balance Launch.protocol := by
  have hin := (Token.transferFrom_flow ht).1.balance_target hc.ne_protocol
  have := hw.held
  omega

/-- Nothing but what is paid is missing. -/
theorem held_pay (hw : w.Sound) {recipient : Address} {t : Token}
    (ht : (w.coin .reserve).transfer Launch.protocol recipient n = .ok (t, log)) :
    w.protocol.reserve + w.protocol.treasury.balance ≤ t.balance Launch.protocol + n := by
  have hout := (Token.transfer_flow ht).1.le_balance_add Launch.protocol
  exact hw.held.trans hout

theorem token (hw : w.Sound) (hc : caller.IsAccount) {c : Coin} {call : Token.Call} {t : Token}
    (hn : (Call.token call).Permitted c.address) (ht : call.apply (w.coin c) caller = .ok (t, log)) :
    (w.setCoin c t).Sound := by
  obtain ⟨ho, hb⟩ := (hw.ordered c).call hc hn ht
  exact { hw with
    linked := ⟨hw.linked.protocol, hw.linked.pool⟩
    ordered := ordered_setCoin hw.ordered ho
    held := by
      rw [coin_setCoin]
      split
      next e => exact hw.held.trans (e ▸ hb _ (e ▸ rfl))
      next => exact hw.held
    backed := by
      rw [coin_setCoin]
      split
      next e => exact hw.backed.trans (Nat.mul_le_mul_right _ (e ▸ hb _ (e ▸ rfl)))
      next => exact hw.backed
    supply_le := by
      intro leg
      rw [coin_setCoin]
      split
      next e =>
        subst e
        have hminter := (hw.ordered leg.coin).not_minter (by cases leg <;> decide) hc
        exact (Token.Call.supply_le hminter ht).trans (hw.supply_le leg)
      next => exact hw.supply_le leg }

theorem books (hw : w.Sound) {c : Protocol.Call} {p : Protocol} (hn : ∀ a, c ≠ .setPool a)
    (hp : c.onBooks w.now w.protocol caller = some (.ok (p, log))) : (w.setProtocol p).Sound := by
  obtain ⟨roles, feed, fees, rfl, -⟩ := Protocol.Call.onBooks_ok hp hn
  obtain ⟨hprotocol, hpool⟩ := hw.linked
  exact { hw with linked := ⟨⟨hprotocol.reserveToken, hprotocol.token, hprotocol.pool⟩, hpool⟩ }

theorem withdrawTreasury (hw : w.Sound) {recipient : Address} {p : Protocol} {t : Token}
    (hp : w.protocol.withdrawTreasury caller n = .ok p)
    (ht : (w.coin .reserve).transfer Launch.protocol recipient n = .ok (t, log)) :
    ((w.setProtocol p).setCoin .reserve t).Sound := by
  obtain ⟨-, treasury, htreasury, rfl⟩ := Protocol.withdrawTreasury_ok hp
  obtain ⟨hprotocol, hpool⟩ := hw.linked
  exact { hw with
    linked := ⟨⟨hprotocol.reserveToken, hprotocol.token, hprotocol.pool⟩, hpool⟩
    ordered := ordered_setCoin hw.ordered ((hw.ordered .reserve).transfer ht)
    treasury := hw.treasury.withdraw_balanced htreasury
    held := by
      obtain ⟨-, hle, rfl⟩ := Treasury.withdraw_ok htreasury
      have := hw.held_pay ht
      change w.protocol.reserve + (w.protocol.treasury.balance - n) ≤ t.balance Launch.protocol
      omega
    supply_le := by
      intro leg
      rw [coin_setReserve]
      exact hw.supply_le leg }

theorem recapitalize (hw : w.Sound) (hc : caller.IsAccount) {p : Protocol} {t : Token}
    (hp : w.protocol.recapitalize caller n = .ok p)
    (ht : (w.coin .reserve).transferFrom Launch.protocol caller Launch.protocol n = .ok (t, log)) :
    ((w.setProtocol p).setCoin .reserve t).Sound := by
  obtain ⟨-, rfl⟩ := Protocol.recapitalize_ok hp
  obtain ⟨hprotocol, hpool⟩ := hw.linked
  exact { hw with
    linked := ⟨⟨hprotocol.reserveToken, hprotocol.token, hprotocol.pool⟩, hpool⟩
    ordered := ordered_setCoin hw.ordered ((hw.ordered .reserve).transferFrom ht)
    held := by
      have := hw.held_draw hc ht
      change w.protocol.reserve + n + w.protocol.treasury.balance ≤ t.balance Launch.protocol
      omega
    owed_le := hw.owed_le.trans (Nat.le_add_right _ _)
    supply_le := by
      intro leg
      rw [coin_setReserve]
      exact hw.supply_le leg }

theorem bootstrap (hw : w.Sound) (hc : caller.IsAccount) {p : Protocol} {t f x : Token} {logF logX : List Event}
    (hp : w.protocol.bootstrap caller w.now n = .ok p)
    (ht : (w.coin .reserve).transferFrom Launch.protocol caller Launch.protocol n = .ok (t, log))
    (hf : (w.coin .f).mint Launch.protocol caller p.supplyF = .ok (f, logF))
    (hx : (w.coin .x).mint Launch.protocol caller p.supplyX = .ok (x, logX)) :
    ((((w.setProtocol p).setCoin .reserve t).setCoin .f f).setCoin .x x).Sound := by
  obtain ⟨hb, -, hlt, e⟩ := Protocol.bootstrap_ok hp
  obtain ⟨howed, hzero⟩ := hw.dormant hb
  obtain ⟨hprotocol, hpool⟩ := hw.linked
  have htreasury : p.treasury = w.protocol.treasury := by rw [e]
  have hlinked : p.Linked := by
    rw [e]
    exact ⟨hprotocol.reserveToken, hprotocol.token, hprotocol.pool⟩
  have hreserve := ordered_setCoin hw.ordered ((hw.ordered .reserve).transferFrom ht)
  exact { hw with
    linked := ⟨hlinked, hpool⟩
    ordered := ordered_setCoin (ordered_setCoin hreserve ((hw.ordered .f).mint hf)) ((hw.ordered .x).mint hx)
    treasury := by
      change p.treasury.Balanced
      rw [htreasury]
      exact hw.treasury
    held := by
      have hbooked : p.reserve = n := by rw [e]
      have := hw.held_draw hc ht
      change p.reserve + p.treasury.balance ≤ t.balance Launch.protocol
      rw [hbooked, htreasury]
      omega
    owed_le := howed.trans_le (Nat.zero_le _)
    backed := hw.backed.trans (Nat.mul_le_mul_right _ ((Token.mint_flow hf).1.le_balance (by simp)))
    supply_le := by
      -- Neither token had a supply before.
      intro leg
      have hz := (hw.supply_le leg).trans_eq (hzero leg)
      cases leg with
      | f =>
        have : f.supply + 0 = (w.coin .f).supply + p.supplyF := (Token.mint_flow hf).1.supply
        change (w.coin .f).supply ≤ 0 at hz
        change f.supply ≤ p.supplyF
        omega
      | x =>
        have : x.supply + 0 = (w.coin .x).supply + p.supplyX := (Token.mint_flow hx).1.supply
        change (w.coin .x).supply ≤ 0 at hz
        change x.supply ≤ p.supplyX
        omega
    supply_lt := hlt
    dormant := by
      intro h
      change p.bootstrapped = false at h
      rw [e] at h
      cases h }

theorem mint (hw : w.Sound) (hc : caller.IsAccount) {leg : Leg} {least : Nat} {p : Protocol} {q : Priced}
    {t u : Token} {logU : List Event} (hp : w.protocol.mint w.now (.ok w.pool.owed) leg n least = .ok (p, q))
    (ht : (w.coin .reserve).transferFrom Launch.protocol caller Launch.protocol n = .ok (t, log))
    (hu : (w.coin leg.coin).mint Launch.protocol caller q.out = .ok (u, logU)) :
    (((w.setProtocol p).setCoin .reserve t).setCoin leg.coin u).Sound := by
  obtain ⟨hm, -⟩ := Protocol.mint_ok hp
  obtain ⟨hbonus, -, -⟩ := Treasury.settle_ok hm.settled
  have hreserve := ordered_setCoin hw.ordered ((hw.ordered .reserve).transferFrom ht)
  exact { hw with
    linked := ⟨hm.linked hw.linked.protocol, hw.linked.pool⟩
    ordered := ordered_setCoin hreserve ((hw.ordered _).mint hu)
    treasury := hw.treasury.settle hm.settled
    held := by
      -- What comes in is split between the reserve and the treasury.
      have := hw.held_draw hc ht
      have := hm.charge.net
      have := hm.charge.fee_le
      have := hm.gross
      rw [coin_setCoin, if_neg (leg.coin_ne_reserve).symm]
      change p.reserve + p.treasury.balance ≤ t.balance Launch.protocol
      rw [hm.reserve, Treasury.settle_balance hm.settled]
      omega
    owed_le := by
      change w.pool.owed ≤ p.reserve
      rw [hm.reserve]
      exact hw.owed_le.trans (Nat.le_add_right _ _)
    backed := by
      refine hw.backed.trans (Nat.mul_le_mul_right _ ?_)
      rw [coin_setCoin]
      split
      next e => exact e ▸ (Token.mint_flow hu).1.le_balance (by simp)
      next => exact le_rfl
    supply_le := by
      intro l
      have hsupply : u.supply + 0 = (w.coin leg.coin).supply + q.out := (Token.mint_flow hu).1.supply
      have := hw.supply_le leg
      change _ ≤ p.supply l
      rw [coin_setCoin, coin_setReserve, hm.supply]
      simp only [Leg.coin_inj]
      split
      · omega
      · exact hw.supply_le l
    supply_lt := by
      intro l
      have := hm.supply_lt
      have := hw.supply_lt l
      change p.supply l < wordLimit
      rw [hm.supply]
      split <;> omega
    dormant := by
      intro h
      change p.bootstrapped = false at h
      rw [hm.bootstrapped_after] at h
      cases h }

theorem redeem (hw : w.Sound) {leg : Leg} {least : Nat} (hc : caller.IsAccount) {p : Protocol} {q : Priced}
    {t u : Token} {logU : List Event} (hp : w.protocol.redeem w.now (.ok w.pool.owed) leg n least = .ok (p, q))
    (hu : (w.coin leg.coin).burnFrom Launch.protocol caller n = .ok (u, logU))
    (ht : (w.coin .reserve).transfer Launch.protocol caller q.out = .ok (t, log)) :
    (((w.setProtocol p).setCoin leg.coin u).setCoin .reserve t).Sound := by
  obtain ⟨hr, -⟩ := Protocol.redeem_ok hp
  obtain ⟨hbonus, -, -⟩ := Treasury.settle_ok hr.settled
  have hgross := hr.gross_le_net
  have howed := hw.owed_le
  have hleg := ordered_setCoin hw.ordered ((hw.ordered _).burnFrom hu)
  exact { hw with
    linked := ⟨hr.linked hw.linked.protocol, hw.linked.pool⟩
    ordered := ordered_setCoin hleg ((hw.ordered .reserve).transfer ht)
    treasury := hw.treasury.settle hr.settled
    held := by
      -- What goes out comes from the reserve, but for the fee, which stays, and the bonus.
      have := hw.held_pay ht
      have := hr.charge.net
      have := hr.charge.fee_le
      have := hr.out
      change p.reserve + p.treasury.balance ≤ t.balance Launch.protocol
      rw [hr.reserve, Treasury.settle_balance hr.settled]
      omega
    owed_le := by
      change w.pool.owed ≤ p.reserve
      rw [hr.reserve]
      omega
    backed := by
      refine hw.backed.trans (Nat.mul_le_mul_right _ ?_)
      rw [coin_setCoin, if_neg (by decide), coin_setCoin]
      split
      next e => exact e ▸ (Token.burnFrom_flow hu).1.le_balance (by simpa using hc.ne_pool)
      next => exact le_rfl
    supply_le := by
      intro l
      have hsupply : u.supply + n = (w.coin leg.coin).supply + 0 := (Token.burnFrom_flow hu).1.supply
      have := hw.supply_le leg
      change _ ≤ p.supply l
      rw [coin_setReserve, coin_setCoin, hr.supply]
      simp only [Leg.coin_inj]
      split
      · omega
      · exact hw.supply_le l
    supply_lt := by
      intro l
      have := hw.supply_lt l
      have := hw.supply_lt leg
      change p.supply l < wordLimit
      rw [hr.supply]
      split <;> omega
    dormant := by
      intro h
      change p.bootstrapped = false at h
      rw [hr.bootstrapped_after] at h
      cases h }

theorem rebalance (hw : w.Sound) {target : Nat} {plan : Protocol.Plan} {p : Pool} {loss : Loss} {f : Token}
    (hplan : w.protocol.planRebalance w.now (.ok w.pool.owed) target = .ok (some plan))
    (hp : w.pool.bear Launch.protocol plan.burn plan.payout = .ok (p, loss)) (hb : loss.burn ≠ 0)
    (hf : (w.coin .f).burnFrom Launch.protocol Launch.pool loss.burn = .ok (f, log)) (ho : p.owed ≤ w.protocol.reserve) :
    (((w.setPool p).setProtocol { w.protocol with supplyF := w.protocol.supplyF - loss.burn }).setCoin .f f).Sound := by
  obtain ⟨-, ⟨hz, -⟩ | ⟨-, hfits, ha, hscale⟩⟩ := Pool.bear_cases hp
  · exact absurd hz hb
  obtain ⟨hprotocol, hpool⟩ := hw.linked
  obtain ⟨hflow, -, -, -⟩ := Token.burnFrom_flow hf
  exact { hw with
    linked := ⟨⟨hprotocol.reserveToken, hprotocol.token, hprotocol.pool⟩, ha.linked hpool⟩
    ordered := ordered_setCoin hw.ordered ((hw.ordered .f).burnFrom hf)
    pool := hw.pool.bear hp
    owed_le := ho
    backed := by
      -- The shares lose at least what is burned.
      have hbalance : f.balance Launch.pool + loss.burn = (w.coin .f).balance Launch.pool := by
        have := hflow.balance Launch.pool
        simpa using this
      have hbacked := hw.backed
      have hworth := hfits.worth_le
      change p.shares * p.scale ≤ f.balance Launch.pool * shareScale
      rw [ha.shares, hscale]
      rw [← hbalance, Nat.add_mul] at hbacked
      omega
    supply_le := by
      intro leg
      have hsupply : f.supply + loss.burn = (w.coin .f).supply + 0 := hflow.supply
      cases leg with
      | f =>
        have : (w.coin .f).supply ≤ w.protocol.supplyF := hw.supply_le .f
        change f.supply ≤ w.protocol.supplyF - loss.burn
        omega
      | x => exact hw.supply_le .x
    supply_lt := by
      intro leg
      cases leg with
      | f => exact (Nat.sub_le _ _).trans_lt (hw.supply_lt .f)
      | x => exact hw.supply_lt .x
    dormant := by
      intro h
      obtain ⟨-, -, hpos, -⟩ := Protocol.planRebalance_ok hplan
      exact absurd ((hw.dormant h).2 .f) hpos }

theorem harvest (hw : w.Sound) (hc : caller.IsAccount) {s : Pool} {p : Protocol} {t : Token}
    (hi : w.pool.indexRewards Launch.protocol n = .ok (s, k)) (hk : k ≠ 0) (hp : w.protocol.addReserve k = .ok p)
    (ht : (w.coin .reserve).transferFrom Launch.protocol caller Launch.protocol k = .ok (t, log)) :
    (((w.setPool s).setProtocol p).setCoin .reserve t).Sound := by
  obtain ⟨rfl, -⟩ := Protocol.addReserve_ok hp
  obtain ⟨-, ⟨hz, -⟩ | ⟨-, rfl, ha, hscale⟩⟩ := Pool.indexRewards_cases hi
  · exact absurd hz hk
  obtain ⟨hprotocol, hpool⟩ := hw.linked
  exact { hw with
    linked := ⟨⟨hprotocol.reserveToken, hprotocol.token, hprotocol.pool⟩, ha.linked hpool⟩
    ordered := ordered_setCoin hw.ordered ((hw.ordered .reserve).transferFrom ht)
    pool := hw.pool.indexRewards hi
    held := by
      have := hw.held_draw hc ht
      change w.protocol.reserve + k + w.protocol.treasury.balance ≤ t.balance Launch.protocol
      omega
    owed_le := by
      change s.owed ≤ w.protocol.reserve + k
      rw [ha.owed]
      exact Nat.add_le_add_right hw.owed_le _
    backed := by
      change s.shares * s.scale ≤ (w.coin .f).balance Launch.pool * shareScale
      rw [ha.shares, hscale]
      exact hw.backed
    supply_le := by
      intro leg
      rw [coin_setReserve]
      exact hw.supply_le leg
    dormant := fun h => absurd (hw.shares_eq_zero h) ha.shares_pos }

theorem deposit (hw : w.Sound) (hc : caller.IsAccount) {p : Pool} {t : Token} (hp : w.pool.deposit caller n = .ok (p, k))
    (ht : (w.coin .f).transferFrom Launch.pool caller Launch.pool n = .ok (t, log)) :
    ((w.setPool p).setCoin .f t).Sound := by
  obtain ⟨hr, -, hk, hshares, howed⟩ := hw.pool.deposit_ok hp
  obtain ⟨hflow, -⟩ := Token.transferFrom_flow ht
  exact { hw with
    linked := ⟨hw.linked.protocol, hr.linked hw.linked.pool⟩
    ordered := ordered_setCoin hw.ordered ((hw.ordered .f).transferFrom ht)
    pool := hw.pool.deposit hp
    owed_le := howed.trans_le hw.owed_le
    backed := by
      have := hw.backed
      change p.shares * p.scale ≤ t.balance Launch.pool * shareScale
      rw [hflow.balance_target hc.ne_pool, hshares, hr.scale, Nat.add_mul, Nat.add_mul]
      omega
    supply_le := by
      intro leg
      cases leg with
      | f => exact (Nat.add_right_cancel hflow.supply).trans_le (hw.supply_le .f)
      | x => exact hw.supply_le .x
    dormant := fun h => ⟨howed.trans (hw.dormant h).1, (hw.dormant h).2⟩ }

theorem withdraw (hw : w.Sound) (hc : caller.IsAccount) {p : Pool} {t : Token}
    (hp : w.pool.withdraw caller n = .ok (p, k)) (ht : (w.coin .f).transfer Launch.pool caller n = .ok (t, log)) :
    ((w.setPool p).setCoin .f t).Sound := by
  obtain ⟨hr, -, hk, hworth, hshares, howed⟩ := hw.pool.withdraw_ok hp
  obtain ⟨hflow, -⟩ := Token.transfer_flow ht
  exact { hw with
    linked := ⟨hw.linked.protocol, hr.linked hw.linked.pool⟩
    ordered := ordered_setCoin hw.ordered ((hw.ordered .f).transfer ht)
    pool := hw.pool.withdraw hp
    owed_le := howed.trans_le hw.owed_le
    backed := by
      have hbacked := hw.backed
      rw [← hflow.balance_source hc.ne_pool.symm, Nat.add_mul] at hbacked
      change p.shares * p.scale ≤ t.balance Launch.pool * shareScale
      rw [hshares, hr.scale, Nat.sub_mul]
      omega
    supply_le := by
      intro leg
      cases leg with
      | f => exact (Nat.add_right_cancel hflow.supply).trans_le (hw.supply_le .f)
      | x => exact hw.supply_le .x
    dormant := fun h => ⟨howed.trans (hw.dormant h).1, (hw.dormant h).2⟩ }

/-- A claim changes what the pool is owed, and nothing else of what is counted here. -/
theorem claimed (hw : w.Sound) {s : Pool} (hs : w.pool.claim caller = .ok (s, n)) :
    s.Linked ∧ s.Sound ∧ s.owed + n = w.pool.owed ∧ s.shares = w.pool.shares ∧ s.scale = w.pool.scale := by
  obtain ⟨rfl, howed, hshares, r, hr, -⟩ := hw.pool.claim_ok hs
  have := hw.pool.due_le caller
  exact ⟨hr.linked hw.linked.pool, hw.pool.claim hs, by omega, hshares, hr.scale⟩

theorem claimNothing (hw : w.Sound) {p : Pool} (hp : w.pool.claim caller = .ok (p, 0)) : (w.setPool p).Sound := by
  obtain ⟨hl, hs, howed, hshares, hscale⟩ := hw.claimed hp
  exact { hw with
    linked := ⟨hw.linked.protocol, hl⟩
    pool := hs
    owed_le := howed.trans_le hw.owed_le
    backed := by
      change p.shares * p.scale ≤ _
      rw [hshares, hscale]
      exact hw.backed
    dormant := fun h => ⟨howed.trans (hw.dormant h).1, (hw.dormant h).2⟩ }

theorem claim (hw : w.Sound) {s : Pool} {p : Protocol} {t : Token} (hs : w.pool.claim caller = .ok (s, n))
    (hp : w.protocol.payClaim Launch.pool n = .ok p)
    (ht : (w.coin .reserve).transfer Launch.protocol caller n = .ok (t, log)) :
    (((w.setPool s).setProtocol p).setCoin .reserve t).Sound := by
  obtain ⟨hl, hsound, howed, hshares, hscale⟩ := hw.claimed hs
  obtain ⟨-, hle, rfl⟩ := Protocol.payClaim_ok hp
  obtain ⟨hprotocol, -⟩ := hw.linked
  exact { hw with
    linked := ⟨⟨hprotocol.reserveToken, hprotocol.token, hprotocol.pool⟩, hl⟩
    ordered := ordered_setCoin hw.ordered ((hw.ordered .reserve).transfer ht)
    pool := hsound
    held := by
      have := hw.held_pay ht
      change w.protocol.reserve - n + w.protocol.treasury.balance ≤ t.balance Launch.protocol
      omega
    owed_le := by
      have := hw.owed_le
      change s.owed ≤ w.protocol.reserve - n
      omega
    backed := by
      change s.shares * s.scale ≤ (w.coin .f).balance Launch.pool * shareScale
      rw [hshares, hscale]
      exact hw.backed
    supply_le := by
      intro leg
      rw [coin_setReserve]
      exact hw.supply_le leg
    dormant := by
      intro h
      have := (hw.dormant h).1
      refine ⟨?_, (hw.dormant h).2⟩
      change s.owed = 0
      omega }

theorem close (hw : w.Sound) {p : Pool} (hp : w.pool.close caller = .ok p) : (w.setPool p).Sound := by
  obtain ⟨hr, -, -, hshares, howed⟩ := hw.pool.close_ok hp
  exact { hw with
    linked := ⟨hw.linked.protocol, hr.linked hw.linked.pool⟩
    pool := hw.pool.close hp
    owed_le := howed.trans_le hw.owed_le
    backed := by
      change p.shares * p.scale ≤ _
      rw [hshares, hr.scale]
      exact hw.backed
    dormant := fun h => ⟨howed.trans (hw.dormant h).1, (hw.dormant h).2⟩ }

/-- Every permitted move of an account keeps a world sound. -/
theorem move (hw : w.Sound) (hc : caller.IsAccount) {target : Address} {call : Call} {reply : Reply}
    (hn : call.Permitted target) (hm : w.Move caller target call reply w') : w'.Sound := by
  cases hm with
  | token ht => exact hw.token hc hn ht
  | books hp => exact hw.books hn hp
  | withdrawTreasury hp ht => exact hw.withdrawTreasury hp ht
  | recapitalize hp ht => exact hw.recapitalize hc hp ht
  | bootstrap hp ht hf hx => exact hw.bootstrap hc hp ht hf hx
  | mint hp ht hu => exact hw.mint hc hp ht hu
  | redeem hp hu ht => exact hw.redeem hc hp hu ht
  | noRebalance | noHarvest => exact hw
  | rebalance hk ht hplan hp hb hle hf ho => exact hw.rebalance hplan hp hb hf ho
  | harvest hk hn hi hpos hp ht => exact hw.harvest hc hi hpos hp ht
  | deposit hp ht => exact hw.deposit hc hp ht
  | withdraw hp ht => exact hw.withdraw hc hp ht
  | claimNothing hp => exact hw.claimNothing hp
  | claim hs hpos hp ht => exact hw.claim hs hp ht
  | close hp => exact hw.close hp

end Sound

end World

end SplitReserve
