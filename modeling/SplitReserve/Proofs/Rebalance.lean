import Mathlib.Tactic.Linarith
import SplitReserve.Proofs.World.Run

/-!
# Rebalances

A rebalance burns stable tokens of the pool and owes their face value for them.  While the net reserve is worth the stable
tokens or more, that is at most their part of it, and the ratio of what is left does not fall.  Below one hundred percent the
face value is more than their part, and the ratio falls (`World.ratio_falls_after_fallingTrades` is a case); but at least half
of the stable tokens stay, so what is missing at most doubles.  Main statement: `World.ratio_after_rebalance`.
-/

namespace SplitReserve

/-! ### The ratio -/

private theorem quotient_le_quotient {a b c d : Nat} (hb : 0 < b) (hd : 0 < d) (h : a * d ≤ c * b) : a / b ≤ c / d := by
  refine (Nat.le_div_iff_mul_le hd).2 (Nat.le_of_mul_le_mul_right ?_ hb)
  calc a / b * d * b = a / b * b * d := Nat.mul_right_comm _ _ _
    _ ≤ a * d := Nat.mul_le_mul_right _ (Nat.div_mul_le_self _ _)
    _ ≤ c * b := h

theorem collateralRatio_eq {reserve owed price supply : Nat} (hs : supply ≠ 0) :
    collateralRatio reserve owed price supply stablePrice =
      clampWord (netReserve reserve owed * price * ratioScale / (supply * stablePrice)) := by
  rw [collateralRatio, if_neg]
  rintro (h | h)
  · exact hs h
  · cases h

/-- The ratio grows with the net reserve for each stable token. -/
theorem collateralRatio_le {reserve owed reserve' owed' price supply supply' : Nat} (hs : supply ≠ 0) (hs' : supply' ≠ 0)
    (h : netReserve reserve owed * supply' ≤ netReserve reserve' owed' * supply) :
    collateralRatio reserve owed price supply stablePrice ≤ collateralRatio reserve' owed' price supply' stablePrice := by
  rw [collateralRatio_eq hs, collateralRatio_eq hs']
  have hface : 0 < stablePrice := by decide
  refine clampWord_mono (quotient_le_quotient (Nat.mul_pos (Nat.pos_of_ne_zero hs) hface)
    (Nat.mul_pos (Nat.pos_of_ne_zero hs') hface) ?_)
  calc netReserve reserve owed * price * ratioScale * (supply' * stablePrice)
      = netReserve reserve owed * supply' * (price * ratioScale * stablePrice) := by ring
    _ ≤ netReserve reserve' owed' * supply * (price * ratioScale * stablePrice) := Nat.mul_le_mul_right _ h
    _ = netReserve reserve' owed' * price * ratioScale * (supply * stablePrice) := by ring

/-- From one hundred percent on, the net reserve is worth the stable tokens. -/
theorem worth_le_of_ratioScale_le {reserve owed price supply : Nat} (hs : supply ≠ 0)
    (h : ratioScale ≤ collateralRatio reserve owed price supply stablePrice) :
    supply * stablePrice ≤ netReserve reserve owed * price := by
  rw [collateralRatio_eq hs] at h
  have hpos : 0 < supply * stablePrice := Nat.mul_pos (Nat.pos_of_ne_zero hs) (by decide)
  have hle := (Nat.le_div_iff_mul_le hpos).1 (h.trans (clampWord_le _))
  rw [Nat.mul_comm] at hle
  exact Nat.le_of_mul_le_mul_right hle (by decide)

/-- While the net reserve is worth the stable tokens, the face value of some of them is at most their part of it. -/
theorem payout_share_le {net price supply burned payout : Nat} (hprice : price ≠ 0)
    (hpaid : payout * price ≤ burned * stablePrice) (hfull : supply * stablePrice ≤ net * price) :
    payout * supply ≤ burned * net := by
  refine Nat.le_of_mul_le_mul_right ?_ (Nat.pos_of_ne_zero hprice)
  calc payout * supply * price
      = payout * price * supply := Nat.mul_right_comm _ _ _
    _ ≤ burned * stablePrice * supply := Nat.mul_le_mul_right _ hpaid
    _ = burned * (supply * stablePrice) := by ring
    _ ≤ burned * (net * price) := Nat.mul_le_mul_left _ hfull
    _ = burned * net * price := (Nat.mul_assoc _ _ _).symm

/-- Below one hundred percent, face value for at most half of the stable tokens at most doubles what is missing. -/
theorem shortfall_le {reserve owed reserve' owed' price supply supply' burned paid : Nat} (hs' : supply' ≠ 0)
    (hsupply : supply' + burned = supply) (hhalf : burned * 2 ≤ supply)
    (hnet : netReserve reserve' owed' + paid = netReserve reserve owed) (hpaid : paid * price ≤ burned * stablePrice)
    (h : collateralRatio reserve owed price supply stablePrice < ratioScale) :
    2 * collateralRatio reserve owed price supply stablePrice ≤
      collateralRatio reserve' owed' price supply' stablePrice + ratioScale := by
  have hs : supply ≠ 0 := by omega
  have hpos : 0 < supply * stablePrice := Nat.mul_pos (Nat.pos_of_ne_zero hs) (by decide)
  have hpos' : 0 < supply' * stablePrice := Nat.mul_pos (Nat.pos_of_ne_zero hs') (by decide)
  rw [collateralRatio_eq hs] at h ⊢
  rw [collateralRatio_eq hs']
  have hfloor := Nat.div_mul_le_self (netReserve reserve owed * price * ratioScale) (supply * stablePrice)
  generalize netReserve reserve owed * price * ratioScale / (supply * stablePrice) = ratio at *
  have hratio : clampWord ratio = ratio := clampWord_eq_of_lt (by decide) h
  rw [hratio] at h ⊢
  -- What is missing is `d`; when twice that is more than everything, there is nothing to show.
  obtain ⟨d, hd⟩ := Nat.exists_eq_add_of_lt h
  rcases Nat.lt_or_ge ratioScale (2 * (d + 1)) with hlt | hge
  · omega
  obtain ⟨k, hk⟩ := Nat.exists_eq_add_of_le hge
  have hleast : k ≤ netReserve reserve' owed' * price * ratioScale / (supply' * stablePrice) := by
    refine (Nat.le_div_iff_mul_le hpos').2 ?_
    have hsplit : k * supply' + burned * ratioScale ≤ ratio * supply := by
      have : burned * (d + 1) ≤ supply' * (d + 1) := Nat.mul_le_mul_right _ (by omega)
      rw [hk, show ratio = k + (d + 1) by omega, ← hsupply]
      linarith
    have hvalue : netReserve reserve owed * price * ratioScale ≤
        netReserve reserve' owed' * price * ratioScale + burned * ratioScale * stablePrice := by
      calc netReserve reserve owed * price * ratioScale
          = netReserve reserve' owed' * price * ratioScale + paid * price * ratioScale := by rw [← hnet]; ring
        _ ≤ netReserve reserve' owed' * price * ratioScale + burned * stablePrice * ratioScale :=
            Nat.add_le_add_left (Nat.mul_le_mul_right _ hpaid) _
        _ = netReserve reserve' owed' * price * ratioScale + burned * ratioScale * stablePrice := by ring
    have hall := Nat.mul_le_mul_right stablePrice hsplit
    rw [Nat.add_mul] at hall
    rw [← Nat.mul_assoc] at hfloor ⊢
    omega
  have : k ≤ clampWord (netReserve reserve' owed' * price * ratioScale / (supply' * stablePrice)) := by
    have hword : k ≤ maxWord := (Nat.le_of_lt_succ (by omega : k < ratioScale + 1)).trans (by decide)
    exact Nat.le_min.2 ⟨hleast, hword⟩
  omega

namespace World

variable {w w' : World} {caller : Address} {target burned payout : Nat}

/-- What a rebalance that burns something leaves: at most half of the stable tokens is burned, for at most their worth, and the
payout comes out of the net reserve. -/
theorem Move.rebalanced {a : Address}
    (hm : w.Move caller a (.protocol (.rebalance target)) (.amounts burned payout) w') (hb : burned ≠ 0) :
    w.protocol.supplyF ≠ 0 ∧ w.protocol.feed.price ≠ 0 ∧ burned * 2 ≤ w.protocol.supplyF ∧
      payout * w.protocol.feed.price ≤ burned * stablePrice ∧ w'.protocol.feed.price = w.protocol.feed.price ∧
      w'.protocol.supplyF + burned = w.protocol.supplyF ∧
      netReserve w'.protocol.reserve w'.pool.owed + payout = netReserve w.protocol.reserve w.pool.owed := by
  cases hm with
  | noRebalance => exact absurd rfl hb
  | @rebalance _ plan p loss _ _ hk ht hplan hs _ hle hf ho =>
    obtain ⟨-, hprice, hsupply, hburn, hhalf, hworth, -⟩ := Protocol.planRebalance_ok hplan
    obtain ⟨-, ⟨hz, -⟩ | ⟨-, hfits, ha, -⟩⟩ := Pool.bear_cases hs
    · exact absurd hz hb
    refine ⟨hsupply, hprice, (Nat.mul_le_mul_right 2 hfits.burn_le).trans hhalf, hfits.payout_mul_le hburn hworth, rfl,
      Nat.sub_add_cancel hle, ?_⟩
    have howed : p.owed = w.pool.owed + loss.payout := ha.owed
    change w.protocol.reserve - p.owed + loss.payout = w.protocol.reserve - w.pool.owed
    omega

/-- In every state of every wired run, for every keeper and every target: a rebalance that burns something raises the ratio when
the payout is at most the part of the net reserve that the burn is of the stable tokens, and lowers it when it is at least that
part; so from one hundred percent on the ratio does not fall, and below that what is missing at most doubles. -/
theorem ratio_after_rebalance (steps : List Step) (hs : ∀ s ∈ steps, s.Wired) (caller : Address) (target burned payout : Nat)
    (r : Receipt) (hc : caller.IsAccount)
    (h : (Launch.wired.after steps).call caller Launch.protocol (.protocol (.rebalance target)) = .ok r)
    (hr : r.reply = .amounts burned payout) (hb : burned ≠ 0) :
    ∃ s s' : Protocol.State,
      (Launch.wired.after steps).query Launch.protocol (.protocol .state) = .ok (.state s) ∧
      (Launch.wired.after steps).query Launch.protocol (.protocol .ratio) = .ok (.amount s.ratio) ∧
      r.chain.query Launch.protocol (.protocol .state) = .ok (.state s') ∧
      r.chain.query Launch.protocol (.protocol .ratio) = .ok (.amount s'.ratio) ∧
      (payout * s.supplyF ≤ burned * netReserve s.reserve s.owed → s.ratio ≤ s'.ratio) ∧
      (burned * netReserve s.reserve s.owed ≤ payout * s.supplyF → s'.ratio ≤ s.ratio) ∧
      (ratioScale ≤ s.ratio → s.ratio ≤ s'.ratio) ∧
      (s.ratio < ratioScale → 2 * s.ratio ≤ s'.ratio + ratioScale) := by
  obtain ⟨w, hchain, hw⟩ := exists_after_wired hs
  rw [hchain] at h ⊢
  have hperm : Call.Permitted Launch.protocol (.protocol (.rebalance target)) := fun _ => Protocol.Call.noConfusion
  obtain ⟨w', hchain', hm⟩ := move_of_call hw.linked hw.pool hc hperm h
  have hlinked := hw.linked.protocol.pool
  have hlinked' := (hw.move hc hperm hm).linked.protocol.pool
  rw [hr] at hm
  obtain ⟨hsupply, hprice, hhalf, hworth, hfeed, hsub, hnet⟩ := hm.rebalanced hb
  have hsupply' : w'.protocol.supplyF ≠ 0 := by omega
  -- The two sides of the comparison before and after differ by the same amount.
  have hcross : netReserve w.protocol.reserve w.pool.owed * w'.protocol.supplyF + burned * netReserve w.protocol.reserve w.pool.owed =
      netReserve w'.protocol.reserve w'.pool.owed * w.protocol.supplyF + payout * w.protocol.supplyF := by
    rw [← hnet, ← hsub]
    ring
  have hrise : payout * w.protocol.supplyF ≤ burned * netReserve w.protocol.reserve w.pool.owed →
      (w.protocol.state w.pool.owed).ratio ≤ (w'.protocol.state w'.pool.owed).ratio := by
    intro hle
    change collateralRatio _ _ _ _ _ ≤ collateralRatio _ _ w'.protocol.feed.price _ _
    rw [hfeed]
    exact collateralRatio_le hsupply hsupply' (by omega)
  have hquery : ∀ v : World, v.protocol.pool = some Launch.pool →
      v.chain.query Launch.protocol (.protocol .ratio) = .ok (.amount (v.protocol.state v.pool.owed).ratio) := by
    intro v hv
    rw [query_protocol, Protocol.Query.answer, owed_eq v hv, Outcome.map_ok]
  rw [hchain']
  refine ⟨_, _, w.query_state hlinked, hquery w hlinked, w'.query_state hlinked', hquery w' hlinked', hrise, ?_, ?_, ?_⟩
  · intro hle
    change collateralRatio _ _ w'.protocol.feed.price _ _ ≤ collateralRatio _ _ _ _ _
    rw [hfeed]
    refine collateralRatio_le hsupply' hsupply ?_
    change burned * netReserve w.protocol.reserve w.pool.owed ≤ payout * w.protocol.supplyF at hle
    omega
  · intro hfull
    exact hrise (payout_share_le hprice hworth (worth_le_of_ratioScale_le hsupply hfull))
  · intro hshort
    change 2 * collateralRatio _ _ _ _ _ ≤ collateralRatio _ _ w'.protocol.feed.price _ _ + _
    rw [hfeed]
    exact shortfall_le hsupply' hsub hhalf hnet hworth hshort

end World

/-! ### A falling price -/

namespace Launch

/-- A depositor mints stable tokens and leaves them all in the pool; then the price falls, in the end to `last`. -/
def fallingTrades (last : Nat) : List Step :=
  [.call admin protocol (.protocol (.bootstrap firstReserve)),
    .call alice protocol (.protocol (.mint .f (100 * priceScale) 0)),
    .call alice pool (.pool (.deposit (199 * priceScale)))] ++
    [1650000, 1400000, 1180000, last].map fun raw => .call oracle protocol (.protocol (.updatePrice raw 0))

theorem fallingTrades_wired (last : Nat) : ∀ s ∈ fallingTrades last, s.Wired := by
  simp [fallingTrades, Step.Wired, Call.Permitted, admin, alice, oracle, Address.IsAccount]

end Launch

theorem World.ratio_rises_after_fallingTrades : ∃ (r : Receipt) (s s' : Protocol.State),
    (Launch.wired.after (Launch.fallingTrades 1100000)).call Launch.keeper Launch.protocol
      (.protocol (.rebalance Level.calmRatio)) = .ok r ∧ r.reply = .amounts 99500000000 90454545454 ∧
    (Launch.wired.after (Launch.fallingTrades 1100000)).query Launch.protocol (.protocol .ratio) = .ok (.amount s.ratio) ∧
    r.chain.query Launch.protocol (.protocol .ratio) = .ok (.amount s'.ratio) ∧ s.ratio = 1008715596 ∧ s.ratio ≤ s'.ratio := by
  have hreply : ((Launch.wired.after (Launch.fallingTrades 1100000)).call Launch.keeper Launch.protocol
      (.protocol (.rebalance Level.calmRatio))).map Receipt.reply = .ok (.amounts 99500000000 90454545454) := by
    decide +kernel
  have hbefore : (Launch.wired.after (Launch.fallingTrades 1100000)).query Launch.protocol (.protocol .ratio) =
      .ok (.amount 1008715596) := by
    decide +kernel
  obtain ⟨r, hr, hreply⟩ := Outcome.map_eq_ok.1 hreply
  have hkeeper : Launch.keeper.IsAccount := trivial
  obtain ⟨s, s', -, hq, -, hq', -, -, hfull, -⟩ := ratio_after_rebalance _ (Launch.fallingTrades_wired 1100000) _ _ _ _ r
    hkeeper hr hreply (by decide)
  have hratio : s.ratio = 1008715596 := Reply.amount.inj (Except.ok.inj (hq.symm.trans hbefore))
  exact ⟨r, s, s', hr, hreply, hq, hq', hratio, hfull (by rw [hratio]; decide)⟩

/-- At ninety-five percent a rebalance lowers the ratio. -/
theorem World.ratio_falls_after_fallingTrades : (∀ s ∈ Launch.fallingTrades 1036000, s.Wired) ∧
    ∃ r : Receipt, (Launch.wired.after (Launch.fallingTrades 1036000)).call Launch.keeper Launch.protocol
        (.protocol (.rebalance Level.calmRatio)) = .ok r ∧ r.reply = .amounts 99500000000 96042471042 ∧
      (Launch.wired.after (Launch.fallingTrades 1036000)).query Launch.protocol (.protocol .ratio) = .ok (.amount 950026688) ∧
      r.chain.query Launch.protocol (.protocol .ratio) = .ok (.amount 945504320) := by
  have hreplies : ((Launch.wired.after (Launch.fallingTrades 1036000)).call Launch.keeper Launch.protocol
      (.protocol (.rebalance Level.calmRatio))).map (fun r => (r.reply, r.chain.query Launch.protocol (.protocol .ratio))) =
      .ok (.amounts 99500000000 96042471042, .ok (.amount 945504320)) := by
    decide +kernel
  obtain ⟨r, hr, e⟩ := Outcome.map_eq_ok.1 hreplies
  obtain ⟨hreply, hafter⟩ := Prod.mk.inj e
  exact ⟨Launch.fallingTrades_wired _, r, hr, hreply, by decide +kernel, hafter⟩

end SplitReserve
