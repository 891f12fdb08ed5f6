import SplitReserve.Proofs.Failure
import SplitReserve.Proofs.PoolSide

/-!
# Cover

The excess of a world is what its net reserve is worth beyond the stable tokens.  Only a new price can make it negative, or
lower it while it is: every other move but the first is fair to the leveraged tokens (`Sound.fair_move`), so it keeps the excess
at least as large, or leaves it at least zero (`Sound.excess_move`).  And while it is not negative, the net reserve pays for every
redemption of stable tokens (`Sound.redeem_ne`).
-/

namespace SplitReserve

/-- The calls that set no price. -/
def Call.Priceless (c : Call) : Prop := ∀ raw seen, c ≠ .protocol (.updatePrice raw seen)

/-- The steps that set no price. -/
def Step.Priceless : Step → Prop
  | .call _ _ c => c.Priceless
  | .wait _ => True

namespace World

variable {w w' : World} {caller target : Address} {call : Call} {reply : Reply} {n least : Nat}

/-- The worth of the net reserve less that of the stable tokens. -/
def excess (w : World) : ℤ := w.protocol.excess w.pool.owed

/-- A shift is worth nothing to anyone. -/
theorem Shifts.fair (h : w.Shifts w') : w.protocol.Fair w.pool.owed w'.protocol w'.pool.owed := by
  obtain ⟨-, ⟨reserve, e⟩, hnet⟩ := h
  refine .of_excess_le (by rw [e]) ?_
  rw [Protocol.excess, Protocol.excess, hnet, e]

/-- Every move but a new price and the first reserve is fair, and the first reserve leaves an excess. -/
theorem Sound.fair_move (hw : w.Sound) (hn : call.Permitted target) (hp : call.Priceless)
    (hm : w.Move caller target call reply w') : w.protocol.Fair w.pool.owed w'.protocol w'.pool.owed ∨
      (w.protocol.bootstrapped = false ∧ 0 ≤ w'.excess) := by
  have howed := hw.owed_le
  by_cases hside : call.PoolSide
  · exact Or.inl (hw.shifts hside hm).fair
  cases hm with
  | noHarvest | harvest => exact absurd (.harvest _) hside
  | deposit => exact absurd (.deposit _) hside
  | withdraw => exact absurd (.withdraw _) hside
  | claimNothing | claim => exact absurd .claim hside
  | close => exact absurd .close hside
  | token | noRebalance => exact Or.inl (.of_excess_le rfl le_rfl)
  | books hb =>
    obtain ⟨roles, feed, fees, rfl, hprice⟩ := Protocol.Call.onBooks_ok hb hn
    have hprice : feed.price = w.protocol.feed.price := hprice fun raw seen e => hp raw seen (congrArg _ e)
    refine Or.inl (.of_excess_le rfl ?_)
    change w.excess ≤ Protocol.excess { w.protocol with roles, feed, fees } w.pool.owed
    rw [Protocol.excess, hprice]
    exact le_rfl
  | withdrawTreasury hb ht =>
    obtain ⟨-, treasury, -, rfl⟩ := Protocol.withdrawTreasury_ok hb
    exact Or.inl (.of_excess_le rfl le_rfl)
  | @recapitalize n p _ _ hb ht =>
    obtain ⟨-, rfl⟩ := Protocol.recapitalize_ok hb
    refine Or.inl (.of_excess_le rfl (Protocol.excess_le (r := n) (n := 0) ?_ (add_zero _).symm rfl (by positivity)))
    change ((w.protocol.reserve + n : Nat) : ℤ) - w.pool.owed = _
    push_cast
    ring
  | @bootstrap n p _ _ _ _ _ _ hb ht hf hx =>
    -- Nothing is owed yet, and half of the first reserve is worth all of the stable tokens.
    obtain ⟨hnew, hworth, -, e⟩ := Protocol.bootstrap_ok hb
    have hreserve : p.reserve = n := by rw [e]
    have hfeed : p.feed = w.protocol.feed := by rw [e]
    refine Or.inr ⟨hnew, ?_⟩
    change 0 ≤ p.excess w.pool.owed
    rw [Protocol.excess, (hw.dormant hnew).1, hreserve, hfeed]
    zify at hworth
    have : (0 : ℤ) ≤ p.supplyF * stablePrice := by positivity
    have hstable : (stablePrice : ℤ) = priceScale := rfl
    rw [hstable] at this ⊢
    push_cast
    linarith
  | mint hb ht hu => exact Or.inl (Protocol.mint_ok hb).1.fair
  | redeem hb hu ht => exact Or.inl ((Protocol.redeem_ok hb).1.fair howed)
  | @rebalance _ plan p loss _ _ hk ht hplan hs hb hle hf ho =>
    obtain ⟨-, ⟨hz, -⟩ | ⟨-, hfits, ha, -⟩⟩ := Pool.bear_cases hs
    · exact absurd hz hb
    obtain ⟨-, -, -, hburn, -, hplan, -⟩ := Protocol.planRebalance_ok hplan
    have hpaid := hfits.payout_mul_le hburn hplan
    refine Or.inl (.of_excess_le rfl
      (Protocol.excess_le (r := -loss.payout) (n := -loss.burn) ?_ ?_ rfl (by zify at hpaid; linarith)))
    · change (w.protocol.reserve : ℤ) - p.owed = _
      rw [ha.owed]
      push_cast
      ring
    · change ((w.protocol.supplyF - loss.burn : Nat) : ℤ) = _
      omega

/-- Every move but a new price keeps the excess at least as large, or leaves it at least zero. -/
theorem Sound.excess_move (hw : w.Sound) (hn : call.Permitted target) (hp : call.Priceless)
    (hm : w.Move caller target call reply w') : w.excess ≤ w'.excess ∨ 0 ≤ w'.excess :=
  (hw.fair_move hn hp hm).elim (fun hfair => hfair.excess_le_or_nonneg hw.owed_le) fun hfirst => Or.inr hfirst.2

end World

/-! ### Redemptions -/

theorem FeeSchedule.charge_ne {s : FeeSchedule} {op : Operation} {level : Level} {gross : Nat} :
    s.charge op level gross ≠ .error (.fault .insufficientReserve) := by
  simp [charge, Outcome.bind_eq_error, require_eq_error, demand_eq_error, pure, Except.pure]

theorem PriceFeed.fresh_ne {f : PriceFeed} {now : Nat} : f.fresh now ≠ .error (.fault .insufficientReserve) := by
  unfold fresh
  split <;> simp [refuse]

theorem Treasury.settle_ne {t : Treasury} {op : Operation} {fee bonus : Nat} :
    t.settle op fee bonus ≠ .error (.fault .insufficientReserve) := by
  have hrecord : t.recordFee op fee ≠ .error (.fault .insufficientReserve) := by
    unfold recordFee
    split
    · nofun
    · simp [Outcome.bind_eq_error, demand_eq_error, pure, Except.pure]
  simp [settle, ensureCovered, Outcome.bind_eq_error, require_eq_error, demand_eq_error, subtract_eq_error, hrecord,
    pure, Except.pure]

theorem Token.move_ne {t : Token} {a b : Address} {n : Nat} :
    t.move a b n ≠ .error (.fault .insufficientReserve) := by
  simp [move, Outcome.bind_eq_error, require_eq_error, addWide_eq_error, pure, Except.pure]

theorem Token.burnFrom_ne {t : Token} {caller a : Address} {n : Nat} :
    t.burnFrom caller a n ≠ .error (.fault .insufficientReserve) := by
  simp [burnFrom, destroy, requireMinter, Outcome.bind_eq_error, require_eq_error, subtract_eq_error, pure, Except.pure]

/-- While there is an excess, the books of a redemption of stable tokens always find the reserve for it. -/
theorem Protocol.redeem_ne {p : Protocol} {now owed n least : Nat} (howed : owed ≤ p.reserve) (hx : 0 ≤ p.excess owed) :
    p.redeem now (.ok owed) .f n least ≠ .error (.fault .insufficientReserve) := by
  intro h
  simp only [redeem, Protocol.settle, price, priceAt, Treasury.ensureCovered, Outcome.bind_eq_error, Outcome.bind_eq_ok,
    require_eq_error, require_eq_ok, demand_eq_error, demand_eq_ok, subtract_eq_error, FeeSchedule.charge_ne,
    PriceFeed.fresh_ne, Treasury.settle_ne, pure, Except.pure, reduceCtorEq, Failure.fault.injEq, and_false, false_or,
    or_false, exists_false] at h
  obtain ⟨-, -, price, hprice, o, ho, -, hle, gross, hgross, -, -, hshort, -⟩ := h
  cases ho
  obtain ⟨rfl, hpos⟩ := PriceFeed.fresh_ok hprice
  exact hshort (gross_le_of_excess howed hpos hx hle (mulDiv_mul_le hgross))

namespace World

variable {w : World} {caller : Address} {n least : Nat}

/-- While there is an excess, no redemption of stable tokens fails for want of reserve. -/
theorem Sound.redeem_ne (hw : w.Sound) (hx : 0 ≤ w.excess) :
    w.chain.call caller Launch.protocol (.protocol (.redeem .f n least)) ≠ .error (.fault .insufficientReserve) := by
  intro h
  simp only [Chain.call, StateT.run, Chain.run, Protocol.Call.run, Protocol.runRedeem, Work.burn, Work.pay,
    Work.bind_apply, Work.lift_apply, Work.chain_apply, Work.save_apply, Work.announce_apply, Work.pure_apply,
    callee_protocol, Outcome.ok_bind, bind_assoc, owed_eq w hw.linked.protocol.pool, set_protocol, Outcome.bind_eq_error,
    Protocol.redeem_ne hw.owed_le hx, false_or] at h
  obtain ⟨⟨p, q⟩, hp, h⟩ := h
  have hp' := (Protocol.redeem_ok hp).1.linked hw.linked.protocol
  simp only [hp'.token, hp'.reserveToken, onToken_apply, Outcome.bind_eq_error, Outcome.bind_eq_ok, Token.burnFrom_ne,
    reduceCtorEq, and_false, exists_false, false_or] at h
  obtain ⟨r, ⟨⟨u, log⟩, -, e⟩, h⟩ := h
  cases e
  simp only [Token.transfer, onToken_apply, Outcome.bind_eq_error, Token.move_ne, reduceCtorEq, and_false, exists_false,
    false_or, pure, Except.pure] at h

/-! ### Runs without a new price -/

/-- A world whose excess falls below zero only by a new price, and that pays for all stable tokens until then. -/
structure Covered (w : World) : Prop where
  state : w.chain.query Launch.protocol (.protocol .state) = .ok (.state (w.protocol.state w.pool.owed))
  excess_kept : ∀ (caller target : Address) (call : Call) (r : Receipt), caller.IsAccount → call.Permitted target →
    call.Priceless → w.chain.call caller target call = .ok r →
    ∃ v : World, r.chain = v.chain ∧ (0 ≤ w.excess → 0 ≤ v.excess) ∧ (w.excess < 0 → w.excess ≤ v.excess)
  /-- The steps in between may be any, redemptions among them. -/
  redeem_covered : 0 ≤ w.excess → ∀ steps : List Step, (∀ s ∈ steps, s.Wired ∧ s.Priceless) →
    ∃ v : World, w.chain.after steps = v.chain ∧ 0 ≤ v.excess ∧ ∀ (caller : Address) (n least : Nat),
      v.chain.call caller Launch.protocol (.protocol (.redeem .f n least)) ≠ .error (.fault .insufficientReserve)

theorem Sound.exists_after_priceless (hw : w.Sound) (hx : 0 ≤ w.excess) {steps : List Step}
    (hs : ∀ s ∈ steps, s.Wired ∧ s.Priceless) :
    ∃ v : World, w.chain.after steps = v.chain ∧ v.Sound ∧ 0 ≤ v.excess := by
  refine hw.exists_after (P := fun v => 0 ≤ v.excess) hx (fun s hm => (hs s hm).1) fun s hm v v' hv hn hp => ?_
  have hfree := (hs s hm).2
  cases hn with
  | refused => exact hp
  | move hc hperm hmove => exact (hv.excess_move hperm hfree hmove).elim hp.trans id
  | wait ms => exact hp

theorem Sound.covered (hw : w.Sound) : w.Covered where
  state := w.query_state hw.linked.protocol.pool
  excess_kept caller target call r hc hn hp h := by
    obtain ⟨v, hchain, hm⟩ := move_of_call hw.linked hw.pool hc hn h
    have := hw.excess_move hn hp hm
    exact ⟨v, hchain, by omega, by omega⟩
  redeem_covered hx steps hs := by
    obtain ⟨v, hchain, hv, hpos⟩ := hw.exists_after_priceless hx hs
    exact ⟨v, hchain, hpos, fun _ _ _ => hv.redeem_ne hpos⟩

/-- In every state of every wired run, only a new price can take the cover of the stable tokens away. -/
theorem covered_after_wired (steps : List Step) (hs : ∀ s ∈ steps, s.Wired) :
    ∃ w : World, Launch.wired.after steps = w.chain ∧ w.Covered := by
  obtain ⟨w, hchain, hw⟩ := exists_after_wired hs
  exact ⟨w, hchain, hw.covered⟩

theorem covered_after_firstTrades : (∀ s ∈ Launch.firstTrades, s.Wired) ∧
    ∃ w : World, Launch.wired.after Launch.firstTrades = w.chain ∧ w.Covered :=
  ⟨Launch.firstTrades_wired, covered_after_wired _ Launch.firstTrades_wired⟩

end World

end SplitReserve
