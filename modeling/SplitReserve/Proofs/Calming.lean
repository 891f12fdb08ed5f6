import SplitReserve.Proofs.Conservation

/-!
# Operations that calm

Minting leveraged tokens and redeeming stable ones earn a bonus at some levels of stress.  A mint adds to the net reserve and so
never lowers the collateral ratio (`Protocol.Mints.ratio_le`).  A redemption pays face value.  From one hundred percent on, that is
at most the part of the net reserve that backs the tokens redeemed, and the ratio does not fall; below, it is more than that part
unless rounding makes up for it, and the ratio falls although the bonus is paid (`World.ratio_falls_after_redeem`).  Main
statement: `World.ratio_after_calming`.
-/

namespace SplitReserve

namespace Protocol

variable {p p' : Protocol} {owed amount : Nat} {q : Priced}

theorem ratio_state (p : Protocol) (owed : Nat) :
    (p.state owed).ratio = collateralRatio p.reserve owed p.feed.price p.supplyF stablePrice := rfl

/-- Minting leveraged tokens adds to the reserve, and the stable tokens stay. -/
theorem Mints.ratio_le (h : Mints p p' owed .x amount q) : (p.state owed).ratio ≤ (p'.state owed).ratio := by
  have hsupply : p'.supplyF = p.supplyF := h.supply .f
  have hreserve : p.reserve ≤ p'.reserve := h.reserve ▸ Nat.le_add_right _ _
  rw [ratio_state, ratio_state, h.feed, hsupply]
  exact collateralRatio_mono hreserve le_rfl le_rfl le_rfl

namespace Redeems

/-- What a redemption of stable tokens leaves of the net reserve and of the stable tokens. -/
theorem sheet (h : Redeems p p' owed .f amount q) (hprice : p.feed.price ≠ 0) :
    p.supplyF ≠ 0 ∧ p'.supplyF + amount = p.supplyF ∧ netReserve p'.reserve owed + q.gross = netReserve p.reserve owed := by
  have hle : amount ≤ p.supplyF := h.amount_le
  have hsupply : p'.supplyF = p.supplyF - amount := h.supply .f
  have hgross := h.gross_le_net
  have hamount : amount ≠ 0 := by
    rintro rfl
    have hworth := h.gross_le
    rw [Nat.zero_mul, Nat.le_zero, Nat.mul_eq_zero] at hworth
    exact hworth.elim h.charge.gross_pos hprice
  rw [netReserve, netReserve, h.reserve]
  omega

/-- The ratio does not fall when the gross payment is at most the part of the net reserve that the redemption is of the stable
tokens, and it does not rise when it is at least that part and some stable tokens stay. -/
theorem ratio_cases (h : Redeems p p' owed .f amount q) (hprice : p.feed.price ≠ 0) :
    (q.gross * p.supplyF ≤ amount * netReserve p.reserve owed → (p.state owed).ratio ≤ (p'.state owed).ratio) ∧
    (p'.supplyF = 0 → (p.state owed).ratio ≤ (p'.state owed).ratio) ∧
    (p'.supplyF ≠ 0 → amount * netReserve p.reserve owed ≤ q.gross * p.supplyF →
      (p'.state owed).ratio ≤ (p.state owed).ratio) := by
  obtain ⟨hs, hsupply, hnet⟩ := h.sheet hprice
  rw [ratio_state, ratio_state, h.feed]
  -- The two sides of the comparison before and after differ by the same amount.
  have hcross : netReserve p.reserve owed * p'.supplyF + amount * netReserve p.reserve owed =
      netReserve p'.reserve owed * p.supplyF + q.gross * p.supplyF := by
    rw [← hnet, ← hsupply]
    ring
  have hnone : p'.supplyF = 0 → collateralRatio p.reserve owed p.feed.price p.supplyF stablePrice ≤
      collateralRatio p'.reserve owed p.feed.price p'.supplyF stablePrice := by
    intro hz
    rw [hz, collateralRatio_of_none]
    exact collateralRatio_le_maxWord _ _ _ _ _
  refine ⟨fun hle => ?_, hnone, fun hs' hle => collateralRatio_le hs' hs (by omega)⟩
  by_cases hz : p'.supplyF = 0
  · exact hnone hz
  · exact collateralRatio_le hs hz (by omega)

/-- From one hundred percent on, redeeming stable tokens does not lower the ratio. -/
theorem ratio_le (h : Redeems p p' owed .f amount q) (hprice : p.feed.price ≠ 0) (hfull : ratioScale ≤ (p.state owed).ratio) :
    (p.state owed).ratio ≤ (p'.state owed).ratio := by
  obtain ⟨hs, -, -⟩ := h.sheet hprice
  exact (h.ratio_cases hprice).1 (payout_share_le hprice h.gross_le (worth_le_of_ratioScale_le hs hfull))

end Redeems

end Protocol

namespace World

/-- In every state of every wired run: a mint of leveraged tokens that succeeds does not lower the ratio, whether it earns a bonus
or not, and neither does a redemption of stable tokens from one hundred percent on.  Below that it is the gross payment that
decides: it leaves the ratio as high when it is at most the part of the net reserve that the tokens redeemed are of all, or when
no stable token is left, and else no higher. -/
theorem ratio_after_calming (steps : List Step) (hs : ∀ s ∈ steps, s.Wired) (a : Address) (ha : a.IsAccount) (op : Operation)
    (hop : op = .mint .x ∨ op = .redeem .f) (amount least : Nat) (r : Receipt)
    (h : (Launch.wired.after steps).call a Launch.protocol (op.call amount least) = .ok r) :
    ∃ (s s' : Protocol.State) (q : Quote),
      (Launch.wired.after steps).query Launch.protocol (.protocol .state) = .ok (.state s) ∧
      (Launch.wired.after steps).query Launch.protocol (.protocol .ratio) = .ok (.amount s.ratio) ∧
      r.chain.query Launch.protocol (.protocol .state) = .ok (.state s') ∧
      r.chain.query Launch.protocol (.protocol .ratio) = .ok (.amount s'.ratio) ∧
      r.events.getLast? = some (Launch.protocol, op.event a amount q) ∧
      (op = .mint .x → s.ratio ≤ s'.ratio) ∧
      (op = .redeem .f →
        (ratioScale ≤ s.ratio → s.ratio ≤ s'.ratio) ∧
        ((q.out + q.fee - q.bonus) * s.supplyF ≤ amount * netReserve s.reserve s.owed → s.ratio ≤ s'.ratio) ∧
        (s'.supplyF = 0 → s.ratio ≤ s'.ratio) ∧
        (s'.supplyF ≠ 0 → amount * netReserve s.reserve s.owed ≤ (q.out + q.fee - q.bonus) * s.supplyF →
          s'.ratio ≤ s.ratio)) := by
  obtain ⟨w, hchain, hw⟩ := exists_after_wired hs
  rw [hchain] at h ⊢
  have hlinked := hw.linked.protocol
  rcases hop with rfl | rfl
  · obtain ⟨p, q, t, u, hp, -, rfl⟩ := hw.mint_receipt ha h
    obtain ⟨hm, -⟩ := Protocol.mint_ok hp
    have hlinked' : (w.settled p t .x u).protocol.pool = some Launch.pool := (hm.linked hlinked).pool
    refine ⟨_, _, q.quote, w.query_state hlinked.pool, w.query_ratio hlinked.pool, query_state _ hlinked',
      query_ratio _ hlinked', rfl, fun _ => hm.ratio_le, ?_⟩
    rintro ⟨⟩
  · obtain ⟨p, q, t, u, hp, -, rfl⟩ := hw.redeem_receipt ha h
    obtain ⟨hm, hprice⟩ := Protocol.redeem_ok hp
    have hlinked' : (w.settled p t .f u).protocol.pool = some Launch.pool := (hm.linked hlinked).pool
    have hgross : q.quote.out + q.quote.fee - q.quote.bonus = q.gross := by
      have := hm.out
      have := hm.charge.fee_le
      have := hm.charge.net
      change q.out + q.charge.fee - q.charge.bonus = q.gross
      omega
    refine ⟨_, _, q.quote, w.query_state hlinked.pool, w.query_ratio hlinked.pool, query_state _ hlinked',
      query_ratio _ hlinked', rfl, ?_, fun _ => ⟨hm.ratio_le hprice, ?_⟩⟩
    · rintro ⟨⟩
    · rw [hgross]
      exact hm.ratio_cases hprice

/-- A redemption at the worst level, but above one hundred percent. -/
theorem ratio_rises_after_redeem : (∀ s ∈ Launch.fallingTrades 1100000, s.Wired) ∧ Launch.admin.IsAccount ∧
    ∃ (r : Receipt) (s s' : Protocol.State),
      (Launch.wired.after (Launch.fallingTrades 1100000)).call Launch.admin Launch.protocol
        (.protocol (.redeem .f (10 * priceScale) 0)) = .ok r ∧
      r.events.getLast? = some (Launch.protocol,
        .redeemed Launch.admin (.redeem .f) .l3 (10 * priceScale) 9099999999 0 9090909) ∧
      (Launch.wired.after (Launch.fallingTrades 1100000)).query Launch.protocol (.protocol .ratio) = .ok (.amount s.ratio) ∧
      r.chain.query Launch.protocol (.protocol .ratio) = .ok (.amount s'.ratio) ∧ s.ratio = 1008715596 ∧ s.ratio ≤ s'.ratio := by
  have hcall : ((Launch.wired.after (Launch.fallingTrades 1100000)).call Launch.admin Launch.protocol
      (.protocol (.redeem .f (10 * priceScale) 0))).map (fun r => r.events.getLast?) = .ok (some (Launch.protocol,
        .redeemed Launch.admin (.redeem .f) .l3 (10 * priceScale) 9099999999 0 9090909)) := by
    decide +kernel
  have hbefore : (Launch.wired.after (Launch.fallingTrades 1100000)).query Launch.protocol (.protocol .ratio) =
      .ok (.amount 1008715596) := by
    decide +kernel
  obtain ⟨r, hr, hlast⟩ := Outcome.map_eq_ok.1 hcall
  have hadmin : Launch.admin.IsAccount := trivial
  obtain ⟨s, s', q, -, hq, -, hq', -, -, hredeem⟩ := ratio_after_calming _ (Launch.fallingTrades_wired 1100000) _ hadmin
    (.redeem .f) (Or.inr rfl) _ _ r hr
  have hratio : s.ratio = 1008715596 := Reply.amount.inj (Except.ok.inj (hq.symm.trans hbefore))
  exact ⟨Launch.fallingTrades_wired _, hadmin, r, s, s', hr, hlast, hq, hq', hratio, (hredeem rfl).1 (by rw [hratio]; decide)⟩

/-- At ninety-five percent a redemption that earns a bonus lowers the ratio. -/
theorem ratio_falls_after_redeem : (∀ s ∈ Launch.fallingTrades 1036000, s.Wired) ∧ Launch.admin.IsAccount ∧
    ∃ r : Receipt, (Launch.wired.after (Launch.fallingTrades 1036000)).call Launch.admin Launch.protocol
        (.protocol (.redeem .f (10 * priceScale) 0)) = .ok r ∧
      r.events.getLast? = some (Launch.protocol,
        .redeemed Launch.admin (.redeem .f) .l3 (10 * priceScale) 9662162161 0 9652509) ∧
      (Launch.wired.after (Launch.fallingTrades 1036000)).query Launch.protocol (.protocol .ratio) = .ok (.amount 950026688) ∧
      r.chain.query Launch.protocol (.protocol .ratio) = .ok (.amount 949606391) := by
  have hcall : ((Launch.wired.after (Launch.fallingTrades 1036000)).call Launch.admin Launch.protocol
      (.protocol (.redeem .f (10 * priceScale) 0))).map
        (fun r => (r.events.getLast?, r.chain.query Launch.protocol (.protocol .ratio))) =
      .ok (some (Launch.protocol, .redeemed Launch.admin (.redeem .f) .l3 (10 * priceScale) 9662162161 0 9652509),
        .ok (.amount 949606391)) := by
    decide +kernel
  obtain ⟨r, hr, e⟩ := Outcome.map_eq_ok.1 hcall
  obtain ⟨hlast, hafter⟩ := Prod.mk.inj e
  exact ⟨Launch.fallingTrades_wired _, trivial, r, hr, hlast, by decide +kernel, hafter⟩

end World

end SplitReserve
