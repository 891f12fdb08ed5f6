import SplitReserve.Proofs.Backing
import SplitReserve.Proofs.Handled
import SplitReserve.Proofs.Supply
import SplitReserve.Proofs.World.Census

/-!
# Entries that always answer

In a sound world every call of the protocol and of the pool, whoever makes it, and every query of them succeeds or is refused
for a fault (`Sound.protocol_handled`, `Sound.pool_handled`).  The one exception is the grant of a role that already has as many
members as can be counted; that the count is theirs is kept by every move (`Move.counted`).
-/

namespace SplitReserve

/-! ### Members -/

namespace Protocol

variable {p p' : Protocol} {caller : Address} {now : Nat} {es : List Event}

/-- A call on the books gives a role, takes one, or leaves them alone. -/
theorem Call.counted_onBooks {c : Call} (h : c.onBooks now p caller = some (.ok (p', es))) (hp : p.roles.Counted) :
    p'.roles.Counted := by
  cases Call.books_of_onBooks h with
  | setPool | setFees | setFeedConfig | updatePrice => exact hp
  | grantRole _ hr => exact hp.grant hr
  | revokeRole _ hr | renounceRole hr => exact hp.revoke hr

end Protocol

namespace World

variable {w w' : World} {caller target : Address} {call : Call} {reply : Reply} {n : Nat} {es : List (Address × Event)}

/-- Only the calls on the books change who has a role. -/
theorem Move.counted (hm : w.Move caller target call reply w') (h : w.protocol.roles.Counted) :
    w'.protocol.roles.Counted := by
  cases hm with
  | token | noRebalance | rebalance | noHarvest | deposit | withdraw | claimNothing | close => exact h
  | books hp => exact Protocol.Call.counted_onBooks hp h
  | withdrawTreasury hp =>
    obtain ⟨-, treasury, -, rfl⟩ := Protocol.withdrawTreasury_ok hp
    exact h
  | recapitalize hp =>
    obtain ⟨-, rfl⟩ := Protocol.recapitalize_ok hp
    exact h
  | @bootstrap n p _ _ _ _ _ _ hp =>
    obtain ⟨-, -, -, e⟩ := Protocol.bootstrap_ok hp
    have : p.roles = w.protocol.roles := by rw [e]
    change p.roles.Counted
    rwa [this]
  | @mint leg _ _ p q _ _ _ _ hp =>
    have hbooks := (Protocol.mint_ok hp).1.books
    have : p.roles = w.protocol.roles := by rw [hbooks, Protocol.roles_setSupply]
    change p.roles.Counted
    rwa [this]
  | @redeem leg _ _ p q _ _ _ _ hp =>
    have hbooks := (Protocol.redeem_ok hp).1.books
    have : p.roles = w.protocol.roles := by rw [hbooks, Protocol.roles_setSupply]
    change p.roles.Counted
    rwa [this]
  | harvest hk hn hi hpos hp =>
    obtain ⟨rfl, -⟩ := Protocol.addReserve_ok hp
    exact h
  | claim hs hn hp =>
    obtain ⟨-, -, rfl⟩ := Protocol.payClaim_ok hp
    exact h

/-! ### Calls of tokens by contracts -/

open Work Outcome

theorem lift_handled {α : Type} {x : Outcome α} {s : Session} (h : x.Handled) : Handled ((liftM x : Work α) s) := by
  rw [lift_apply]
  simp [h]

theorem onToken_handled {k : Coin} {entry : Entry} {act : Token → Outcome (Token × List Event)}
    (h : (act (w.coin k)).Handled) : Handled (onToken entry k.address act ⟨w.chain, es⟩) := by
  rw [onToken_apply]
  simp [h]

theorem runPayClaim_handled (hl : w.protocol.reserveToken = Coin.reserve.address) (ht : (w.coin .reserve).Whole)
    {recipient : Address} : Handled (Protocol.runPayClaim Launch.protocol caller w.protocol recipient n ⟨w.chain, es⟩) := by
  simp only [Protocol.runPayClaim, pay, bind_apply, lift_apply, save_apply, Outcome.ok_bind, bind_assoc, set_protocol,
    handled_bind, Protocol.payClaim_handled, true_and]
  intro p hp
  obtain ⟨-, -, rfl⟩ := Protocol.payClaim_ok hp
  rw [hl]
  exact onToken_handled ht.move_handled

namespace Sound

/-- What the books of a leg have room for can be minted. -/
theorem mint_leg_handled (hw : w.Sound) {leg : Leg} {caller a : Address}
    (hn : w.protocol.supply leg + n < wordLimit) : ((w.coin leg.coin).mint caller a n).Handled := by
  refine (hw.ordered leg.coin).whole.mint_handled ?_
  have := hw.supply_le leg
  have : wordLimit < wideLimit := by decide
  omega

/-! ### Calls of the pool -/

theorem runDeposit_handled (hw : w.Sound) : Handled (Pool.runDeposit Launch.pool caller w.pool n ⟨w.chain, es⟩) := by
  simp only [Pool.runDeposit, draw, bind_apply, lift_apply, save_apply, announce_apply, Outcome.ok_bind, bind_assoc, set_pool,
    handled_bind, hw.pool.deposit_handled, true_and]
  rintro ⟨p, k⟩ hp
  rw [((hw.pool.deposit_ok hp).1.linked hw.linked.pool).token]
  exact ⟨onToken_handled (hw.ordered .f).whole.transferFrom_handled, fun _ _ => handled_ok _⟩

theorem runWithdraw_handled (hw : w.Sound) : Handled (Pool.runWithdraw Launch.pool caller w.pool n ⟨w.chain, es⟩) := by
  simp only [Pool.runWithdraw, pay, bind_apply, lift_apply, save_apply, announce_apply, Outcome.ok_bind, bind_assoc, set_pool,
    handled_bind, hw.pool.withdraw_handled hw.fits, true_and]
  rintro ⟨p, k⟩ hp
  rw [((hw.pool.withdraw_ok hp).1.linked hw.linked.pool).token]
  exact ⟨onToken_handled (hw.ordered .f).whole.move_handled, fun _ _ => handled_ok _⟩

theorem runClaim_handled (hw : w.Sound) : Handled (Pool.runClaim Launch.pool caller w.pool ⟨w.chain, es⟩) := by
  obtain ⟨p, hp⟩ := hw.pool.exists_claim caller
  obtain ⟨hlinked, -⟩ := hw.claimed hp
  simp only [Pool.runClaim, bind_apply, lift_apply, save_apply, hp, Outcome.ok_bind, set_pool, Work.ite_apply, pure_apply,
    hlinked.controller, demand_some]
  split
  next => exact handled_ok _
  next =>
    simp only [askForPayment, bind_apply, lift_apply, chain_apply, announce_apply, callee_protocol, Outcome.ok_bind, handled_bind]
    refine ⟨?_, fun _ _ => handled_ok _⟩
    exact runPayClaim_handled (w := w.setPool p) hw.linked.protocol.reserveToken (hw.ordered .reserve).whole

theorem runBear_handled (hw : w.Sound) {burn payout : Nat} :
    Handled (Pool.runBear Launch.pool caller w.pool burn payout ⟨w.chain, es⟩) := by
  simp only [Pool.runBear, bind_apply, lift_apply, Outcome.ok_bind, bind_assoc, handled_bind, hw.fits.bear_handled, true_and]
  rintro ⟨p, loss⟩ -
  rw [Work.ite_apply]
  split <;> exact handled_ok _

theorem runIndexRewards_handled : Handled (Pool.runIndexRewards Launch.pool caller w.pool n ⟨w.chain, es⟩) := by
  simp only [Pool.runIndexRewards, bind_apply, lift_apply, Outcome.ok_bind, bind_assoc, handled_bind, Pool.indexRewards_handled,
    true_and]
  rintro ⟨p, k⟩ -
  rw [Work.ite_apply]
  split <;> exact handled_ok _

theorem pool_handled (hw : w.Sound) {c : Pool.Call} : Handled (c.run Launch.pool caller w.pool ⟨w.chain, es⟩) := by
  cases c with
  | setController a => exact handled_bind.2 ⟨lift_handled Pool.setController_handled, fun _ _ => handled_ok _⟩
  | deposit n => exact handled_bind.2 ⟨hw.runDeposit_handled, fun _ _ => handled_ok _⟩
  | withdraw n => exact handled_bind.2 ⟨hw.runWithdraw_handled, fun _ _ => handled_ok _⟩
  | claim => exact handled_bind.2 ⟨hw.runClaim_handled, fun _ _ => handled_ok _⟩
  | close =>
    have hclose : Handled (Pool.runClose Launch.pool caller w.pool ⟨w.chain, es⟩) :=
      handled_bind.2 ⟨lift_handled hw.pool.close_handled, fun _ _ => handled_ok _⟩
    exact handled_bind.2 ⟨hclose, fun _ _ => handled_ok _⟩
  | bear burn payout => exact handled_bind.2 ⟨hw.runBear_handled, fun _ _ => handled_ok _⟩
  | indexRewards n => exact handled_bind.2 ⟨runIndexRewards_handled, fun _ _ => handled_ok _⟩

/-! ### Calls of the protocol -/

theorem runMint_handled (hw : w.Sound) {leg : Leg} {least : Nat} :
    Handled (Protocol.runMint Launch.protocol caller w.protocol leg n least ⟨w.chain, es⟩) := by
  simp only [Protocol.runMint, draw, Work.mint, bind_apply, lift_apply, chain_apply, save_apply, announce_apply, pure_apply,
    Outcome.ok_bind, bind_assoc, owed_eq w hw.linked.protocol.pool, set_protocol, handled_bind,
    Protocol.mint_handled (handled_ok _), true_and]
  rintro ⟨p, q⟩ hp
  have hm := (Protocol.mint_ok hp).1
  have hl := hm.linked hw.linked.protocol
  dsimp only
  rw [hl.reserveToken, hl.token]
  refine ⟨onToken_handled (hw.ordered .reserve).whole.transferFrom_handled, ?_⟩
  rintro ⟨_, s⟩ hs
  obtain ⟨t, log, -, rfl⟩ := onToken_ok hs
  refine ⟨onToken_handled ?_, fun _ _ => handled_ok _⟩
  rw [coin_setReserve]
  exact hw.mint_leg_handled hm.supply_lt

theorem runRedeem_handled (hw : w.Sound) {leg : Leg} {least : Nat} :
    Handled (Protocol.runRedeem Launch.protocol caller w.protocol leg n least ⟨w.chain, es⟩) := by
  simp only [Protocol.runRedeem, burn, pay, bind_apply, lift_apply, chain_apply, save_apply, announce_apply, pure_apply,
    Outcome.ok_bind, bind_assoc, owed_eq w hw.linked.protocol.pool, set_protocol, handled_bind,
    Protocol.redeem_handled, true_and]
  rintro ⟨p, q⟩ hp
  have hl := (Protocol.redeem_ok hp).1.linked hw.linked.protocol
  dsimp only
  rw [hl.reserveToken, hl.token]
  refine ⟨onToken_handled (hw.ordered leg.coin).whole.burnFrom_handled, ?_⟩
  rintro ⟨_, s⟩ hs
  obtain ⟨t, log, -, rfl⟩ := onToken_ok hs
  refine ⟨onToken_handled ?_, fun _ _ => handled_ok _⟩
  rw [coin_setCoin, if_neg leg.coin_ne_reserve.symm]
  exact (hw.ordered .reserve).whole.move_handled

theorem runWithdrawTreasury_handled (hw : w.Sound) {recipient : Address} :
    Handled (Protocol.runWithdrawTreasury Launch.protocol caller w.protocol recipient n ⟨w.chain, es⟩) := by
  simp only [Protocol.runWithdrawTreasury, pay, bind_apply, lift_apply, save_apply, announce_apply, Outcome.ok_bind, bind_assoc,
    set_protocol, handled_bind, Protocol.withdrawTreasury_handled, true_and]
  intro p hp
  obtain ⟨-, treasury, -, rfl⟩ := Protocol.withdrawTreasury_ok hp
  rw [hw.linked.protocol.reserveToken]
  exact ⟨onToken_handled (hw.ordered .reserve).whole.move_handled, fun _ _ => handled_ok _⟩

theorem runRecapitalize_handled (hw : w.Sound) :
    Handled (Protocol.runRecapitalize Launch.protocol caller w.protocol n ⟨w.chain, es⟩) := by
  simp only [Protocol.runRecapitalize, draw, bind_apply, lift_apply, save_apply, chain_apply, announce_apply, Outcome.ok_bind,
    bind_assoc, set_protocol, handled_bind, Protocol.recapitalize_handled, true_and]
  intro p hp
  obtain ⟨-, rfl⟩ := Protocol.recapitalize_ok hp
  rw [hw.linked.protocol.reserveToken]
  refine ⟨onToken_handled (hw.ordered .reserve).whole.transferFrom_handled, ?_⟩
  rintro ⟨_, s⟩ hs
  obtain ⟨t, log, -, rfl⟩ := onToken_ok hs
  exact ⟨handled_of_eq_ok (owed_eq _ hw.linked.protocol.pool), fun _ _ => handled_ok _⟩

theorem runBootstrap_handled (hw : w.Sound) :
    Handled (Protocol.runBootstrap Launch.protocol caller w.protocol n ⟨w.chain, es⟩) := by
  simp only [Protocol.runBootstrap, draw, Work.mint, bind_apply, lift_apply, save_apply, chain_apply, announce_apply,
    Outcome.ok_bind, bind_assoc, set_protocol, handled_bind, Protocol.bootstrap_handled, true_and]
  intro p hp
  obtain ⟨hnew, -, hlt, e⟩ := Protocol.bootstrap_ok hp
  have hl : p.reserveToken = Coin.reserve.address ∧ p.fToken = Coin.f.address ∧ p.xToken = Coin.x.address := by
    rw [e]
    exact ⟨hw.linked.protocol.reserveToken, hw.linked.protocol.token .f, hw.linked.protocol.token .x⟩
  -- There were no tokens of either leg before.
  have hroom : ∀ leg : Leg, w.protocol.supply leg + p.supply leg < wordLimit := by
    intro leg
    rw [(hw.dormant hnew).2 leg, Nat.zero_add]
    exact hlt leg
  rw [hl.1, hl.2.1, hl.2.2]
  refine ⟨onToken_handled (hw.ordered .reserve).whole.transferFrom_handled, ?_⟩
  rintro ⟨_, s⟩ hs
  obtain ⟨t, log, -, rfl⟩ := onToken_ok hs
  refine ⟨onToken_handled (hw.mint_leg_handled (hroom .f)), ?_⟩
  rintro ⟨_, s⟩ hs
  obtain ⟨f, logF, -, rfl⟩ := onToken_ok hs
  exact ⟨onToken_handled (hw.mint_leg_handled (hroom .x)), fun _ _ => handled_ok _⟩

/-- The pool burns at most what was planned, which is at most half of the stable tokens. -/
theorem runRebalance_handled (hw : w.Sound) :
    Handled (Protocol.runRebalance Launch.protocol caller w.protocol n ⟨w.chain, es⟩) := by
  simp only [Protocol.runRebalance, Roles.requireKeeper, bind_apply, lift_apply, chain_apply, hw.linked.protocol.pool,
    demand_some, Outcome.ok_bind, bind_assoc, owed_eq w hw.linked.protocol.pool, handled_bind, handled_require, true_and,
    Protocol.planRebalance_handled (handled_ok _)]
  rintro _ - _ - (_ | plan) hplan
  · exact handled_ok _
  obtain ⟨-, -, -, -, hhalf, -⟩ := Protocol.planRebalance_ok hplan
  simp only [bind_apply, handled_bind, Work.ite_apply]
  constructor
  · simp only [askToBear, bind_apply, lift_apply, chain_apply, callee_pool, Outcome.ok_bind]
    exact hw.runBear_handled
  rintro ⟨b, ⟨c, es'⟩⟩ hb
  obtain ⟨p, loss, hp, ⟨-, rfl, -⟩ | ⟨hz, rfl, rfl⟩⟩ := askToBear_ok hb
  · exact handled_ok _
  have hle : loss.burn ≤ w.protocol.supplyF := by
    obtain ⟨-, ⟨h, -⟩ | ⟨-, hfits, -⟩⟩ := Pool.bear_cases hp
    · exact absurd h hz
    · have := hfits.burn_le
      omega
  have htoken : w.protocol.fToken = Coin.f.address := hw.linked.protocol.token .f
  simp only [hz, if_false, burn, lift_apply, save_apply, chain_apply, announce_apply, set_protocol, Outcome.ok_bind, bind_assoc,
    handled_bind, handled_require, htoken, true_and]
  refine ⟨handled_of_eq_ok (subtract_eq_ok.2 ⟨hle, rfl⟩), fun supplyF _ => ⟨?_, ?_⟩⟩
  · exact onToken_handled (hw.ordered .f).whole.burnFrom_handled
  rintro ⟨_, s⟩ hs
  obtain ⟨f, logF, -, rfl⟩ := onToken_ok hs
  exact ⟨handled_of_eq_ok (owed_eq _ rfl), fun _ _ _ _ => handled_ok _⟩

theorem runHarvest_handled (hw : w.Sound) :
    Handled (Protocol.runHarvest Launch.protocol caller w.protocol n ⟨w.chain, es⟩) := by
  simp only [Protocol.runHarvest, Roles.requireKeeper, bind_apply, lift_apply, hw.linked.protocol.pool, demand_some,
    Outcome.ok_bind, bind_assoc, Work.ite_apply, pure_apply, handled_bind, handled_require, true_and]
  refine fun _ _ _ _ => ⟨handled_of_eq_ok (subtract_eq_ok.2 ⟨Protocol.bounty_le n, rfl⟩), fun share _ => ?_⟩
  split
  · exact handled_ok _
  rw [handled_bind]
  constructor
  · simp only [askToIndex, bind_apply, lift_apply, chain_apply, callee_pool, Outcome.ok_bind]
    exact runIndexRewards_handled
  rintro ⟨k, ⟨c, es'⟩⟩ hi
  obtain ⟨p, -, hchain⟩ := askToIndex_ok hi
  split
  · exact handled_ok _
  next hk =>
    rw [if_neg hk] at hchain
    change c = _ at hchain
    subst hchain
    simp only [draw, save_apply, announce_apply, set_protocol, Outcome.ok_bind, handled_bind, Protocol.addReserve_handled,
      true_and]
    intro q hq
    obtain ⟨rfl, -⟩ := Protocol.addReserve_ok hq
    rw [hw.linked.protocol.reserveToken]
    exact ⟨onToken_handled (hw.ordered .reserve).whole.transferFrom_handled, fun _ _ => handled_ok _⟩

/-- Every call of the protocol, unless it gives a new member to a role that already has as many as can be counted. -/
theorem protocol_handled (hw : w.Sound) (hr : w.protocol.roles.Counted) {c : Protocol.Call}
    (hroom : ∀ (r : Role) account, c = .grantRole r.number account → w.protocol.roles.holds .admin caller = true →
      w.protocol.roles.holds r account = false → (w.protocol.roles.office r).members.card < Office.capacity) :
    Handled (c.run Launch.protocol caller w.protocol ⟨w.chain, es⟩) := by
  have hbooks : ∀ {x : Outcome (Protocol × List Event)}, x.Handled →
      Handled (Protocol.runOnBooks Launch.protocol x ⟨w.chain, es⟩) := fun hx =>
    handled_bind.2 ⟨lift_handled hx, fun _ _ => handled_ok _⟩
  cases c with
  | setPool a => exact hbooks (by simp [Protocol.setPool, Roles.requireAdmin])
  | grantRole role account =>
    refine hbooks (Protocol.grantRole_handled fun r hrole hadmin hnew => ?_)
    rw [hr r]
    exact hroom r account (by rw [Role.ofNumber?_eq_some_iff.1 hrole]) hadmin hnew
  | revokeRole role account =>
    exact hbooks (by simp [Protocol.revokeRole, Roles.requireAdmin, Protocol.revoke_handled])
  | renounceRole role => exact hbooks (by simp [Protocol.renounceRole, Protocol.revoke_handled])
  | setFees fees => exact hbooks (by simp [Protocol.setFees, Roles.requireAdmin, FeeSchedule.validate])
  | setFeedConfig config =>
    exact hbooks (by simp [Protocol.setFeedConfig, Roles.requireAdmin, PriceFeed.configure, FeedConfig.validate])
  | updatePrice raw seen =>
    exact hbooks (by simp [Protocol.updatePrice, Roles.requireOracle, PriceFeed.submit_handled])
  | withdrawTreasury recipient n => exact handled_bind.2 ⟨hw.runWithdrawTreasury_handled, fun _ _ => handled_ok _⟩
  | recapitalize n => exact handled_bind.2 ⟨hw.runRecapitalize_handled, fun _ _ => handled_ok _⟩
  | bootstrap n => exact handled_bind.2 ⟨hw.runBootstrap_handled, fun _ _ => handled_ok _⟩
  | mint leg n least => exact handled_bind.2 ⟨hw.runMint_handled, fun _ _ => handled_ok _⟩
  | redeem leg n least => exact handled_bind.2 ⟨hw.runRedeem_handled, fun _ _ => handled_ok _⟩
  | rebalance target => exact handled_bind.2 ⟨hw.runRebalance_handled, fun _ _ => handled_ok _⟩
  | harvest n => exact handled_bind.2 ⟨hw.runHarvest_handled, fun _ _ => handled_ok _⟩
  | payClaim recipient n =>
    have hpay : Handled (Protocol.runPayClaim Launch.protocol caller w.protocol recipient n ⟨w.chain, es⟩) :=
      runPayClaim_handled hw.linked.protocol.reserveToken (hw.ordered .reserve).whole
    exact handled_bind.2 ⟨hpay, fun _ _ => handled_ok _⟩

/-! ### Queries -/

theorem query_protocol_handled (hw : w.Sound) (q : Protocol.Query) :
    Handled (w.chain.query Launch.protocol (.protocol q)) := by
  have howed := owed_eq w hw.linked.protocol.pool
  rw [query_protocol]
  cases q with
  | state | owed | ratio | level =>
    rw [Protocol.Query.answer, howed]
    exact handled_ok _
  | invariant =>
    rw [Protocol.Query.answer, hw.invariant_eq]
    exact handled_ok _
  | quote op n =>
    have hprice : (w.protocol.price w.chain.now (w.chain.owed w.protocol) op n).Handled :=
      Protocol.price_handled (handled_of_eq_ok howed)
    rw [Protocol.Query.answer, handled_map, Protocol.quote]
    exact handled_bind.2 ⟨hprice, fun _ _ => handled_ok _⟩
  | feedStatus | feedConfig | fees | breakdown | treasuryBalance | hasRole | bootstrapped | supplyF | supplyX | reserve | time
  | pool | reserveToken | fToken | xToken => exact handled_ok _

theorem query_pool_handled (hw : w.Sound) (q : Pool.Query) : Handled (w.chain.query Launch.pool (.pool q)) := by
  have htotal : w.pool.total.Handled := handled_of_eq_ok hw.fits.total
  rw [query_pool]
  cases q with
  | total | lossCap => simpa [Pool.Query.answer, Pool.lossCap] using htotal
  | stats => simpa [Pool.Query.answer, Pool.stats] using htotal
  | actual a =>
    rw [Pool.Query.answer, hw.fits.actual hw.pool]
    exact handled_ok _
  | pending a =>
    rw [Pool.Query.answer, hw.pool.pending]
    exact handled_ok _
  | owed | scale | index | shares | position | isOpen | sharesFor | controller | token => exact handled_ok _

end Sound

/-! ### In every run -/

theorem wired_counted : (ofChain? Launch.wired).any fun w =>
    decide (∀ r ∈ [Role.admin, .keeper, .oracle], (w.protocol.roles.office r).Counted) := by
  decide +kernel

/-- After a wired run, the roles have the counts of their members. -/
theorem exists_after_wired_counted {steps : List Step} (hs : ∀ s ∈ steps, s.Wired) :
    ∃ w : World, Launch.wired.after steps = w.chain ∧ w.Sound ∧ w.protocol.roles.Counted := by
  obtain ⟨v, hchain, hv⟩ := exists_wired
  have hcounted := wired_counted
  rw [hchain, ofChain?_chain] at hcounted
  have hfirst : v.protocol.roles.Counted := fun r => of_decide_eq_true hcounted r (by cases r <;> simp)
  obtain ⟨w, h, hw, hp⟩ := hv.exists_after (P := fun v => v.protocol.roles.Counted) hfirst hs fun _ _ v v' _ hn hp => by
    cases hn with
    | refused | wait => exact hp
    | move _ _ hm => exact hm.counted hp
  exact ⟨w, hchain ▸ h, hw, hp⟩

theorem call_handled (h : Handled (Chain.run caller target call ⟨w.chain, []⟩)) :
    Handled (w.chain.call caller target call) :=
  handled_bind.2 ⟨h, fun _ _ => handled_ok _⟩

/-- In every state of every wired run, every call of the protocol and of the pool, whoever makes it and with whatever arguments,
and every query of them succeeds or is refused for a fault.  The exception is that an admin gives a new member to a role that has
as many members as a count of 32 bits can tell. -/
theorem handled_after_wired (steps : List Step) (hs : ∀ s ∈ steps, s.Wired) :
    ∃ w : World, Launch.wired.after steps = w.chain ∧
      (∀ (caller : Address) (c : Protocol.Call),
        (∀ (r : Role) (account : Address), c = .grantRole r.number account → w.protocol.roles.holds .admin caller = true →
          w.protocol.roles.holds r account = false → (w.protocol.roles.office r).members.card < Office.capacity) →
        Handled (w.chain.call caller Launch.protocol (.protocol c))) ∧
      (∀ (caller : Address) (c : Pool.Call), Handled (w.chain.call caller Launch.pool (.pool c))) ∧
      (∀ q : Protocol.Query, Handled (w.chain.query Launch.protocol (.protocol q))) ∧
      ∀ q : Pool.Query, Handled (w.chain.query Launch.pool (.pool q)) := by
  obtain ⟨w, hchain, hw, hr⟩ := exists_after_wired_counted hs
  refine ⟨w, hchain, fun caller c hroom => ?_, fun caller c => ?_, hw.query_protocol_handled, hw.query_pool_handled⟩
  · apply call_handled
    simp only [Chain.run, bind_apply, lift_apply, chain_apply, callee_protocol, Outcome.ok_bind]
    exact hw.protocol_handled hr hroom
  · apply call_handled
    simp only [Chain.run, bind_apply, lift_apply, chain_apply, callee_pool, Outcome.ok_bind]
    exact hw.pool_handled

/-- After a first run, a harvest of the largest word is refused, not stopped. -/
theorem handled_after_firstTrades :
    let harvest := (Launch.wired.after Launch.firstTrades).call Launch.keeper Launch.protocol (.protocol (.harvest maxWord))
    (∀ s ∈ Launch.firstTrades, s.Wired) ∧ Handled harvest ∧
      harvest.map Receipt.reply = .error (.fault .insufficientTokenBalance) := by
  intro harvest
  obtain ⟨w, hchain, hprotocol, -⟩ := handled_after_wired Launch.firstTrades Launch.firstTrades_wired
  refine ⟨Launch.firstTrades_wired, ?_, by decide +kernel⟩
  change Handled ((Launch.wired.after Launch.firstTrades).call _ _ _)
  rw [hchain]
  exact hprotocol Launch.keeper (.harvest maxWord) nofun

end World

end SplitReserve
