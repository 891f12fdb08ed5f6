import SplitReserve.Proofs.Cover

/-!
# Dilution

Those who hold leveraged tokens lose to a new price at most, never to what others do: a call that sets no price leaves the price
of the leveraged tokens at least as high, as long as there are some before and after it.  All moves but the first reserve are
fair, and there are no leveraged tokens before that.
-/

namespace SplitReserve.World

variable {w w' : World} {caller target : Address} {call : Call} {reply : Reply}

/-- While there are leveraged tokens, only a new price lowers theirs. -/
theorem Sound.unit_le_move (hw : w.Sound) (hc : caller.IsAccount) (hn : call.Permitted target) (hp : call.Priceless)
    (hm : w.Move caller target call reply w') (hx : w.protocol.supplyX ≠ 0) (hx' : w'.protocol.supplyX ≠ 0) :
    w.protocol.unit w.pool.owed .x ≤ w'.protocol.unit w'.pool.owed .x := by
  obtain hfair | ⟨hnew, -⟩ := hw.fair_move hn hp hm
  · exact hfair.unit_le hw.owed_le (hw.move hc hn hm).owed_le hx hx'
  · exact absurd ((hw.dormant hnew).2 .x) hx

/-- In every state of every wired run, no call but one that sets a price lowers the price of the leveraged tokens, as the
protocol reports it before and after. -/
theorem priceX_le_after_wired (steps : List Step) (hs : ∀ s ∈ steps, s.Wired) (caller target : Address) (call : Call)
    (r : Receipt) (hc : caller.IsAccount) (hn : call.Permitted target) (hp : call.Priceless)
    (h : (Launch.wired.after steps).call caller target call = .ok r) :
    ∃ s s' : Protocol.State,
      (Launch.wired.after steps).query Launch.protocol (.protocol .state) = .ok (.state s) ∧
      r.chain.query Launch.protocol (.protocol .state) = .ok (.state s') ∧
      (s.supplyX ≠ 0 → s'.supplyX ≠ 0 → s.priceX ≤ s'.priceX) := by
  obtain ⟨w, hchain, hw⟩ := exists_after_wired hs
  rw [hchain] at h ⊢
  obtain ⟨w', hchain', hm⟩ := move_of_call hw.linked hw.pool hc hn h
  have hlinked := (hw.move hc hn hm).linked
  rw [hchain']
  exact ⟨_, _, w.query_state hw.linked.protocol.pool, w'.query_state hlinked.protocol.pool,
    fun hx hx' => hw.unit_le_move hc hn hp hm hx hx'⟩

/-- All leveraged tokens but one are redeemed, and what the roundings leave doubles the price of the last. -/
theorem priceX_le_after_firstTrades :
    ∃ r : Receipt, (Launch.wired.after Launch.firstTrades).call Launch.admin Launch.protocol
        (.protocol (.redeem .x 999999999999 0)) = .ok r ∧
      ∃ s s' : Protocol.State,
        (Launch.wired.after Launch.firstTrades).query Launch.protocol (.protocol .state) = .ok (.state s) ∧
        r.chain.query Launch.protocol (.protocol .state) = .ok (.state s') ∧
        s.supplyX = 1000000000000 ∧ s'.supplyX = 1 ∧ s.priceX ≤ s'.priceX := by
  have hbefore : (Launch.wired.after Launch.firstTrades).query Launch.protocol (.protocol .state) = .ok (.state
      ⟨1199000000000, 1000000000000, 1000000000, 1000000000, 2000000000, 1109400000000, 500000000, 9900000000, 0, 1834028356,
        .normal⟩) := by
    decide +kernel
  have hafter : ((Launch.wired.after Launch.firstTrades).call Launch.admin Launch.protocol
      (.protocol (.redeem .x 999999999999 0)) >>= fun r => r.chain.query Launch.protocol (.protocol .state)) = .ok (.state
      ⟨1199000000000, 1, 1000000000, 2000000000, 2000000000, 609400000001, 3000000000, 9900000000, 0, 1000000000, .l3⟩) := by
    decide +kernel
  obtain ⟨r, hr, hafter⟩ := Outcome.bind_eq_ok.1 hafter
  have hadmin : Launch.admin.IsAccount := trivial
  have hperm : Call.Permitted Launch.protocol (.protocol (.redeem .x 999999999999 0)) := fun _ => Protocol.Call.noConfusion
  have hfree : Call.Priceless (.protocol (.redeem .x 999999999999 0)) := fun _ _ h => nomatch h
  obtain ⟨s, s', hs, hs', hle⟩ := priceX_le_after_wired _ Launch.firstTrades_wired _ _ _ r hadmin hperm hfree hr
  rw [hbefore] at hs
  rw [hafter] at hs'
  cases hs
  cases hs'
  exact ⟨r, hr, _, _, hbefore, hafter, rfl, rfl, hle (by decide) (by decide)⟩

end SplitReserve.World
