import SplitReserve.Proofs.RebalanceOutcomes

/-!
# Rebalances and their targets

What a rebalance needs to burn is found for the net reserve as it is.  When just that is burned, the ratio of that net reserve to
the stable tokens that are left reaches the target (`target_le_of_burnNeeded`).  But what is burned is paid for, and the
payout is owed to the pool: it leaves the net reserve, and the ratio stays below the target unless the payout is worth less than
one stable token per unit of rounding (`World.target_missed_after_rebalance` is a case).  Main statement:
`World.target_after_rebalance`.
-/

namespace SplitReserve

variable {net price supply left need target payout : Nat}

/-! ### The burn that is needed -/

/-- When something is needed, what it leaves is the supply at which the net reserve has the target ratio, rounded down. -/
theorem left_eq_of_burnNeeded (hsupply : supply ≤ maxWord) (hpos : need ≠ 0) (hneed : need = burnNeeded net price supply stablePrice target)
    (hleft : left + need = supply) : left = net * price * ratioScale / (target * stablePrice) := by
  rw [burnNeeded] at hneed
  split at hneed
  · exact absurd hneed hpos
  · have hlt : clampWord (net * price * ratioScale / (target * stablePrice)) < supply := by omega
    rw [clampWord_eq_of_lt le_rfl (hlt.trans_le hsupply)] at hneed hlt
    omega

/-- At the same net reserve the target is reached, and with any more stable tokens it would not be. -/
theorem target_le_of_burnNeeded (ht : target ≠ 0) (h : left = net * price * ratioScale / (target * stablePrice)) :
    target * (left * stablePrice) ≤ net * price * ratioScale ∧
      net * price * ratioScale < target * (left * stablePrice) + target * stablePrice := by
  have hpos : 0 < target * stablePrice := Nat.mul_pos (Nat.pos_of_ne_zero ht) (by decide)
  have hfloor := Nat.div_mul_le_self (net * price * ratioScale) (target * stablePrice)
  have hceil : net * price * ratioScale < _ := Nat.lt_div_mul_add hpos
  rw [← h, Nat.mul_left_comm] at hfloor hceil
  exact ⟨hfloor, hceil⟩

/-! ### The payout -/

section Payout

variable {reserve' owed' : Nat}

/-- The ratio after a payout reaches the target when the net reserve covers both. -/
theorem target_le_iff (ht : target ≤ maxWord) (hnet : netReserve reserve' owed' + payout = net) :
    target ≤ collateralRatio reserve' owed' price left stablePrice ↔
      target * (left * stablePrice) + payout * price * ratioScale ≤ net * price * ratioScale := by
  rw [le_collateralRatio_iff ht, ← hnet, Nat.add_mul, Nat.add_mul]
  omega

/-- A payout lowers a ratio by its own part, and a unit of rounding. -/
theorem target_le_add (hs : left ≠ 0) (ht : target ≤ maxWord) (hnet : netReserve reserve' owed' + payout = net)
    (h : target * (left * stablePrice) ≤ net * price * ratioScale) :
    target ≤ collateralRatio reserve' owed' price left stablePrice + payout * price * ratioScale / (left * stablePrice) + 1 := by
  have hpos : 0 < left * stablePrice := Nat.mul_pos (Nat.pos_of_ne_zero hs) (by decide)
  rw [← hnet, Nat.add_mul, Nat.add_mul] at h
  rw [collateralRatio_eq hs]
  have hrest : netReserve reserve' owed' * price * ratioScale < _ := Nat.lt_div_mul_add hpos
  have hpaid : payout * price * ratioScale < _ := Nat.lt_div_mul_add hpos
  generalize netReserve reserve' owed' * price * ratioScale / (left * stablePrice) = rest at *
  generalize payout * price * ratioScale / (left * stablePrice) = paid at *
  have hlt : target < rest + paid + 2 := by
    refine Nat.lt_of_mul_lt_mul_right (a := left * stablePrice) ?_
    rw [Nat.add_mul, Nat.add_mul]
    omega
  unfold clampWord
  omega

end Payout

/-! ### Rebalances -/

namespace World

variable {w w' : World} {caller : Address} {burned : Nat} {l : Loss}

private theorem Move.asked {a : Address} {reply : Reply}
    (hm : w.Move caller a (.protocol (.rebalance target)) reply w') :
    w.protocol.roles.requireKeeper caller = .ok () ∧ target ≠ 0 := by
  cases hm with
  | books hb => cases hb
  | noRebalance hk ht => exact ⟨hk, ht⟩
  | rebalance hk ht => exact ⟨hk, ht⟩

/-- A call that burns something is a rebalance with all that goes with it. -/
theorem Sound.exists_rebalanced (hw : w.Sound) (hm : w.Minting) (hc : caller.IsAccount) {r : Receipt}
    (h : w.chain.call caller Launch.protocol (.protocol (.rebalance target)) = .ok r) (hr : r.reply = .amounts burned payout)
    (hb : burned ≠ 0) : ∃ (l : Loss) (w' : World),
      w.Rebalanced target l w' ∧ burned = l.burn ∧ payout = l.payout ∧ r.chain = w'.chain := by
  have hperm : Call.Permitted Launch.protocol (.protocol (.rebalance target)) := fun _ => Protocol.Call.noConfusion
  obtain ⟨_, -, hmove⟩ := move_of_call hw.linked hw.pool hc hperm h
  obtain ⟨hk, ht⟩ := hmove.asked
  have houtcome := hw.rebalances hm hk ht
  rw [h] at houtcome
  cases houtcome with
  | nothing =>
    cases hr
    exact absurd rfl hb
  | @burned l w' hrebalanced =>
    cases hr
    exact ⟨l, w', hrebalanced, rfl, rfl, rfl⟩

namespace Rebalanced

/-- At least half of the stable tokens stay. -/
theorem supply_ne_zero (h : w.Rebalanced target l w') : w'.protocol.supplyF ≠ 0 := by
  have hsupply := h.supply
  have hhalf := h.burn_le_supply
  have hpos := h.strained.supplyF_ne_zero
  omega

theorem reserve_eq (h : w.Rebalanced target l w') : w'.protocol.reserve = w.protocol.reserve := by rw [h.protocol]

theorem feed_eq (h : w.Rebalanced target l w') : w'.protocol.feed = w.protocol.feed := by rw [h.protocol]

/-- The payout comes out of the net reserve. -/
theorem netReserve_add (h : w.Rebalanced target l w') :
    netReserve w'.protocol.reserve w'.pool.owed + l.payout = netReserve w.protocol.reserve w.pool.owed := by
  have hle := h.payout_le
  have howed := h.owed
  rw [netReserve, netReserve, h.reserve_eq]
  omega

theorem ratio_eq (h : w.Rebalanced target l w') : (w'.protocol.state w'.pool.owed).ratio =
    collateralRatio w'.protocol.reserve w'.pool.owed w.protocol.feed.price w'.protocol.supplyF stablePrice := by
  rw [← h.feed_eq]
  rfl

/-- A burn that nothing cuts is paid its face value, or all there is. -/
theorem payout_of_needed (h : w.Rebalanced target l w')
    (hneed : l.burn = burnNeeded (netReserve w.protocol.reserve w.pool.owed) w.protocol.feed.price w.protocol.supplyF stablePrice target) :
    l.payout = min (l.burn * stablePrice / w.protocol.feed.price) (netReserve w.protocol.reserve w.pool.owed) := by
  have hle : w.protocol.toBurn w.pool.owed target ≤ l.burn := hneed ▸ Nat.min_le_left _ _
  have hburn : l.burn = w.protocol.toBurn w.pool.owed target := le_antisymm h.shared.burn_le hle
  have hpos := Nat.pos_of_ne_zero h.burn_pos
  rw [h.shared.payout_eq, ← hburn, Nat.mul_div_cancel _ hpos, Protocol.faceValue, ← hburn]

end Rebalanced

/-- In every state of every wired run, for every keeper and every target: when a rebalance burns just what it needs, the ratio
of the net reserve before it to the stable tokens after it reaches the target.  The payout, the face value of the burn, is taken
from that net reserve, so the ratio after the rebalance reaches the target just when the net reserve covers both; it misses it
when the payout is worth what one stable token is at the target, or more, and by its part of the ratio at most. -/
theorem target_after_rebalance (steps : List Step) (hs : ∀ s ∈ steps, s.Wired) (caller : Address) (hc : caller.IsAccount)
    (target burned payout : Nat) (ht : target < wordLimit) (r : Receipt) (s : Protocol.State)
    (h : (Launch.wired.after steps).call caller Launch.protocol (.protocol (.rebalance target)) = .ok r)
    (hr : r.reply = .amounts burned payout) (hb : burned ≠ 0)
    (hq : (Launch.wired.after steps).query Launch.protocol (.protocol .state) = .ok (.state s))
    (hneed : burned = burnNeeded (netReserve s.reserve s.owed) s.price s.supplyF stablePrice target) :
    ∃ s' : Protocol.State,
      r.chain.query Launch.protocol (.protocol .state) = .ok (.state s') ∧
      r.chain.query Launch.protocol (.protocol .ratio) = .ok (.amount s'.ratio) ∧
      s'.price = s.price ∧ s'.reserve = s.reserve ∧ s'.owed = s.owed + payout ∧ s'.supplyF + burned = s.supplyF ∧
      payout = min (burned * stablePrice / s.price) (netReserve s.reserve s.owed) ∧
      target ≤ collateralRatio s.reserve s.owed s.price s'.supplyF stablePrice ∧
      (target ≤ s'.ratio ↔ target * (s'.supplyF * stablePrice) + payout * s.price * ratioScale ≤
        netReserve s.reserve s.owed * s.price * ratioScale) ∧
      (target * stablePrice ≤ payout * s.price * ratioScale → s'.ratio < target) ∧
      target ≤ s'.ratio + payout * s.price * ratioScale / (s'.supplyF * stablePrice) + 1 := by
  obtain ⟨w, hchain, hw, hm⟩ := exists_after_wired_minting hs
  rw [hchain] at h hq
  rw [w.query_state hw.linked.protocol.pool] at hq
  cases hq
  obtain ⟨l, w', hrebalanced, rfl, rfl, hchain'⟩ := hw.exists_rebalanced hm hc h hr hb
  have hlinked : w'.protocol.pool = some Launch.pool := by
    rw [hrebalanced.protocol]
    exact hw.linked.protocol.pool
  have hleft := hrebalanced.supply_ne_zero
  have hnet := hrebalanced.netReserve_add
  have hword : target ≤ maxWord := Nat.le_pred_of_lt ht
  have htarget : target ≠ 0 := by
    rintro rfl
    exact hb hneed
  have hsupply : w.protocol.supplyF ≤ maxWord := Nat.le_pred_of_lt (hw.supply_lt .f)
  obtain ⟨hreached, hmost⟩ := target_le_of_burnNeeded htarget (left_eq_of_burnNeeded hsupply hb hneed hrebalanced.supply)
  rw [hchain']
  refine ⟨_, w'.query_state hlinked, w'.query_ratio hlinked, congrArg PriceFeed.price hrebalanced.feed_eq, hrebalanced.reserve_eq,
    hrebalanced.owed, hrebalanced.supply, hrebalanced.payout_of_needed hneed,
    (le_collateralRatio_iff hword).2 hreached, ?_, ?_, ?_⟩
  · rw [hrebalanced.ratio_eq]
    exact target_le_iff hword hnet
  · intro hworth
    rw [hrebalanced.ratio_eq, ← Nat.not_le, target_le_iff hword hnet]
    exact Nat.not_le.2 (hmost.trans_le (Nat.add_le_add_left hworth _))
  · rw [hrebalanced.ratio_eq]
    exact target_le_add hleft hword hnet hreached

/-- At one hundred and thirteen percent nothing cuts the burn, and the payout keeps the ratio below the target. -/
theorem target_reached_by_netReserve : (∀ s ∈ Launch.fallingTrades 1232200, s.Wired) ∧ Launch.keeper.IsAccount ∧
    Level.secondRatio < wordLimit ∧
    ∃ (r : Receipt) (s s' : Protocol.State),
      (Launch.wired.after (Launch.fallingTrades 1232200)).call Launch.keeper Launch.protocol
        (.protocol (.rebalance Level.secondRatio)) = .ok r ∧ r.reply = .amounts 14730856644 11954923424 ∧
      (Launch.wired.after (Launch.fallingTrades 1232200)).query Launch.protocol (.protocol .state) = .ok (.state s) ∧
      14730856644 = burnNeeded (netReserve s.reserve s.owed) s.price s.supplyF stablePrice Level.secondRatio ∧
      r.chain.query Launch.protocol (.protocol .state) = .ok (.state s') ∧
      Level.secondRatio ≤ collateralRatio s.reserve s.owed s.price s'.supplyF stablePrice ∧ s'.ratio < Level.secondRatio := by
  have hreply : ((Launch.wired.after (Launch.fallingTrades 1232200)).call Launch.keeper Launch.protocol
      (.protocol (.rebalance Level.secondRatio))).map Receipt.reply = .ok (.amounts 14730856644 11954923424) := by
    decide +kernel
  have hbefore : (Launch.wired.after (Launch.fallingTrades 1232200)).query Launch.protocol (.protocol .state) =
      .ok (.state ⟨1199000000000, 1000000000000, 1000000000, 155803900, 1232200000, 1099500000000, 500000000, 0, 0,
        1129944870, .l3⟩) := by
    decide +kernel
  have hneed : 14730856644 = burnNeeded (netReserve 1099500000000 0) 1232200000 1199000000000 stablePrice Level.secondRatio := by
    decide +kernel
  obtain ⟨r, hr, hreply⟩ := Outcome.map_eq_ok.1 hreply
  have hkeeper : Launch.keeper.IsAccount := trivial
  obtain ⟨s', hafter, -, -, -, -, -, -, hreached, -, hmissed, -⟩ := target_after_rebalance _
    (Launch.fallingTrades_wired 1232200) _ hkeeper _ _ _ (by decide) r _ hr hreply (by decide) hbefore hneed
  exact ⟨Launch.fallingTrades_wired _, hkeeper, by decide, r, _, s', hr, hreply, hbefore, hneed, hafter, hreached,
    hmissed (by decide)⟩

/-- The ratio that is asked for is not reached although all that is needed is burned. -/
theorem target_missed_after_rebalance : (∀ s ∈ Launch.fallingTrades 1232200, s.Wired) ∧ Launch.keeper.IsAccount ∧
    ∃ (r : Receipt) (s : Protocol.State),
      (Launch.wired.after (Launch.fallingTrades 1232200)).query Launch.protocol (.protocol .state) = .ok (.state s) ∧
      s.level = .l3 ∧
      burnNeeded (netReserve s.reserve s.owed) s.price s.supplyF stablePrice Level.secondRatio = 14730856644 ∧
      (Launch.wired.after (Launch.fallingTrades 1232200)).call Launch.keeper Launch.protocol
        (.protocol (.rebalance Level.secondRatio)) = .ok r ∧ r.reply = .amounts 14730856644 11954923424 ∧
      r.chain.query Launch.protocol (.protocol .ratio) = .ok (.amount 1131561225) ∧ 1131561225 < Level.secondRatio := by
  have hreplies : ((Launch.wired.after (Launch.fallingTrades 1232200)).call Launch.keeper Launch.protocol
      (.protocol (.rebalance Level.secondRatio))).map (fun r => (r.reply, r.chain.query Launch.protocol (.protocol .ratio))) =
      .ok (.amounts 14730856644 11954923424, .ok (.amount 1131561225)) := by
    decide +kernel
  have hbefore : (Launch.wired.after (Launch.fallingTrades 1232200)).query Launch.protocol (.protocol .state) =
      .ok (.state ⟨1199000000000, 1000000000000, 1000000000, 155803900, 1232200000, 1099500000000, 500000000, 0, 0,
        1129944870, .l3⟩) := by
    decide +kernel
  obtain ⟨r, hr, e⟩ := Outcome.map_eq_ok.1 hreplies
  obtain ⟨hreply, hafter⟩ := Prod.mk.inj e
  exact ⟨Launch.fallingTrades_wired _, trivial, r, _, hbefore, rfl, by decide +kernel, hr, hreply, hafter, by decide⟩

end World

end SplitReserve
