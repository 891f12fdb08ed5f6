import SplitReserve.Proofs.Backing
import SplitReserve.Proofs.Quotes
import SplitReserve.Proofs.Rebalance
import SplitReserve.Proofs.Roles

/-!
# What becomes of a rebalance

A keeper's call to rebalance a wired protocol has one of three outcomes (`World.rebalances_after_wired`).  It changes
nothing, when there is nothing to burn; or it burns stable tokens of the pool and owes its depositors their worth, and writes
nothing else (`World.Rebalanced`); or a number is out of range.  The reserve always covers what is owed afterwards, and the pool
always has what is burned.

A payout out of range fails the call before the pool is asked, even when the pool has nothing to burn:
`World.rebalance_fails_after_collapsedTrades`.
-/

namespace SplitReserve

/-! ### What the pool bears -/

namespace Pool

variable {p : Pool} {caller : Address} {burn payout : Nat} {l : Loss}

theorem bear_of_none (hc : p.controller = some caller) (h : Loss.share p.scale p.shares burn payout = .ok (Loss.none p.scale)) :
    p.bear caller burn payout = .ok (p, Loss.none p.scale) := by
  have hcaller : p.requireController caller = .ok () := requireController_eq_ok.2 hc
  rw [bear, hcaller, Outcome.ok_bind, h, Outcome.ok_bind]
  rfl

/-- The pool after a loss, which leaves the shares, all positions and all counts of depositors as they are. -/
def reduced (p : Pool) (l : Loss) : Pool :=
  { p with
    index := p.index + l.indexDelta
    owed := p.owed + l.payout
    scale := l.scale
    burned := clampWord (p.burned + l.burn)
    indexed := clampWord (p.indexed + l.payout) }

/-- A loss that burns something is borne as far as the index and the debt stay in range. -/
theorem bear_of_share (hc : p.controller = some caller) (h : Loss.share p.scale p.shares burn payout = .ok l)
    (hb : l.burn ≠ 0) : p.bear caller burn payout =
      if p.index + l.indexDelta < wideLimit ∧ p.owed + l.payout < wordLimit then .ok (p.reduced l, l)
      else .error (.fault .mathOverflow) := by
  have hcaller : p.requireController caller = .ok () := requireController_eq_ok.2 hc
  rw [bear, hcaller, Outcome.ok_bind, h, Outcome.ok_bind, if_neg hb, demand_wide_bind, demand_word_bind, ite_and]
  rfl

end Pool

namespace World

variable {w : World} {caller : Address} {target : Nat} {e : Failure}

/-! ### The call -/

theorem call_of_noRebalance (hl : w.Linked) (hk : w.protocol.roles.requireKeeper caller = .ok ()) (ht : target ≠ 0)
    (hp : w.protocol.planRebalance w.now (.ok w.pool.owed) target = .ok none ∨
      ∃ plan p loss, w.protocol.planRebalance w.now (.ok w.pool.owed) target = .ok (some plan) ∧
        w.pool.bear Launch.protocol plan.burn plan.payout = .ok (p, loss) ∧ loss.burn = 0) :
    w.chain.call caller Launch.protocol (.protocol (.rebalance target)) = .ok ⟨w.chain, .amounts 0 0, []⟩ :=
  Outcome.bind_eq_ok.2 ⟨_, run_noRebalance hl hk ht hp, rfl⟩

open Work in
/-- A rebalance that cannot be planned fails. -/
theorem call_of_plan_error (hl : w.Linked) (hk : w.protocol.roles.requireKeeper caller = .ok ()) (ht : target ≠ 0)
    (hp : w.protocol.planRebalance w.now (.ok w.pool.owed) target = .error e) :
    w.chain.call caller Launch.protocol (.protocol (.rebalance target)) = .error e := by
  change w.protocol.planRebalance w.chain.now _ target = _ at hp
  refine Outcome.bind_eq_error.2 (Or.inl ?_)
  change Chain.run caller Launch.protocol (.protocol (.rebalance target)) ⟨w.chain, []⟩ = _
  simp only [Chain.run, Protocol.Call.run, Protocol.runRebalance, bind_apply, lift_apply, chain_apply, callee_protocol,
    Outcome.ok_bind, hk, require, if_pos ht, hl.protocol.pool, demand_some, owed_eq w hl.protocol.pool, hp]
  rfl

open Work in
/-- A rebalance that the pool does not bear fails. -/
theorem call_of_bear_error (hl : w.Linked) (hk : w.protocol.roles.requireKeeper caller = .ok ()) (ht : target ≠ 0)
    {plan : Protocol.Plan} (hp : w.protocol.planRebalance w.now (.ok w.pool.owed) target = .ok (some plan))
    (hb : w.pool.bear Launch.protocol plan.burn plan.payout = .error e) :
    w.chain.call caller Launch.protocol (.protocol (.rebalance target)) = .error e := by
  change w.protocol.planRebalance w.chain.now _ target = _ at hp
  refine Outcome.bind_eq_error.2 (Or.inl ?_)
  change Chain.run caller Launch.protocol (.protocol (.rebalance target)) ⟨w.chain, []⟩ = _
  simp only [Chain.run, Protocol.Call.run, Protocol.runRebalance, askToBear, Pool.runBear, bind_apply, lift_apply, chain_apply,
    callee_protocol, callee_pool, Outcome.ok_bind, hk, require, if_pos ht, hl.protocol.pool, demand_some,
    owed_eq w hl.protocol.pool, hp, hb]
  rfl

/-! ### Outcomes -/

/-- What a rebalance that burns something has found, the loss that the pool bears, and what it leaves. -/
structure Rebalanced (w : World) (target : Nat) (l : Loss) (w' : World) : Prop where
  strained : w.protocol.Strained w.now w.pool.owed target
  total : w.chain.query Launch.pool (.pool .total) = .ok (.amount w.pool.worthAll)
  shared : Loss.Shared w.pool.scale w.pool.shares w.pool.worthAll (w.protocol.toBurn w.pool.owed target)
    (min (w.protocol.faceValue w.pool.owed target) (netReserve w.protocol.reserve w.pool.owed)) l
  burn_pos : l.burn ≠ 0
  burn_le_needed : l.burn ≤
    burnNeeded (netReserve w.protocol.reserve w.pool.owed) w.protocol.feed.price w.protocol.supplyF stablePrice target
  burn_le_supply : l.burn ≤ w.protocol.supplyF / 2
  burn_le_total : l.burn ≤ w.pool.worthAll / 2
  worth : l.payout * w.protocol.feed.price ≤ l.burn * stablePrice
  payout_le : l.payout ≤ w.protocol.reserve - w.pool.owed
  supply : w'.protocol.supplyF + l.burn = w.protocol.supplyF
  issued : (w'.coin .f).supply + l.burn = (w.coin .f).supply
  held : (w'.coin .f).balance Launch.pool + l.burn = (w.coin .f).balance Launch.pool
  owed : w'.pool.owed = w.pool.owed + l.payout
  owed_le : w'.pool.owed ≤ w'.protocol.reserve
  owed_lt : w'.pool.owed < wordLimit
  index_lt : w'.pool.index < wideLimit
  /-- Nothing else of the protocol changes. -/
  protocol : w'.protocol = { w.protocol with supplyF := w'.protocol.supplyF }
  pool : w'.pool = w.pool.reduced l
  /-- Nothing else of the stable token changes. -/
  stable : w'.coin .f = ((w.coin .f).setBalance Launch.pool ((w'.coin .f).balance Launch.pool)).setSupply (w'.coin .f).supply
  coins : ∀ c : Coin, c ≠ .f → w'.coin c = w.coin c
  clock : w'.clock = w.clock

/-- What is burned, what is paid for it and what it leaves, as announced. -/
def rebalanceEvents (w' : World) (caller : Address) (target : Nat) (l : Loss) : List (Address × Event) :=
  [(Coin.f.address, .burn Launch.pool l.burn),
    (Launch.protocol, .rebalanced caller target l.burn l.payout (w'.protocol.state w'.pool.owed).ratio),
    (Launch.pool, .lossShared l.burn l.payout w'.pool.scale w'.pool.index)]

/-- There is nothing to burn: the protocol is not strained, or what is to be burned has a face value in range and the pool bears
nothing of it. -/
def Quiet (w : World) (target : Nat) : Prop :=
  w.protocol.Strained w.now w.pool.owed target → w.protocol.faceValue w.pool.owed target < wordLimit ∧
    Loss.Idle w.pool.scale w.pool.shares w.pool.worthAll (w.protocol.toBurn w.pool.owed target)

/-- A number of a rebalance is out of range: the face value of what is to be burned, or the index or the debt of the pool with
what it would bear. -/
structure Overflows (w : World) (target : Nat) : Prop where
  strained : w.protocol.Strained w.now w.pool.owed target
  overflow : wordLimit ≤ w.protocol.faceValue w.pool.owed target ∨
    ∃ l, Loss.Shared w.pool.scale w.pool.shares w.pool.worthAll (w.protocol.toBurn w.pool.owed target)
        (min (w.protocol.faceValue w.pool.owed target) (netReserve w.protocol.reserve w.pool.owed)) l ∧
      w.pool.owed + l.payout ≤ w.protocol.reserve ∧
      ¬ (w.pool.index + l.indexDelta < wideLimit ∧ w.pool.owed + l.payout < wordLimit)

/-- What becomes of a rebalance, and when. -/
inductive Rebalances (w : World) (caller : Address) (target : Nat) : Outcome Receipt → Prop
  | nothing (h : w.Quiet target) : Rebalances w caller target (.ok ⟨w.chain, .amounts 0 0, []⟩)
  | burned {l : Loss} {w' : World} (h : w.Rebalanced target l w') : Rebalances w caller target
      (.ok ⟨w'.chain, .amounts l.burn l.payout, w'.rebalanceEvents caller target l⟩)
  | overflow (h : w.Overflows target) : Rebalances w caller target (.error (.fault .mathOverflow))

/-- The events of a loss, of a burn and of the protocol, in this order, as a receipt lists them. -/
theorem grouped_rebalance (w : World) (lost burnt done : Event) :
    w.chain.grouped [(Launch.pool, lost), (Coin.f.address, burnt), (Launch.protocol, done)] =
      [(Coin.f.address, burnt), (Launch.protocol, done), (Launch.pool, lost)] := by
  simp [Chain.grouped, chain, List.filter_cons, Coin.address_inj, Coin.address_ne_protocol, Coin.address_ne_pool,
    (Coin.address_ne_protocol _).symm, (Coin.address_ne_pool _).symm, Launch.protocol_ne_pool, Launch.protocol_ne_pool.symm]

/-- The world after a rebalance of which the pool has borne a loss. -/
def rebalanced (w : World) (l : Loss) : World :=
  ((w.setPool (w.pool.reduced l)).setProtocol { w.protocol with supplyF := w.protocol.supplyF - l.burn }).setCoin .f
    (((w.coin .f).setBalance Launch.pool ((w.coin .f).balance Launch.pool - l.burn)).setSupply
      ((w.coin .f).supply - l.burn))

/-- What is paid for a loss is covered by the reserve. -/
theorem Sound.owed_add_payout_le (hw : w.Sound) {total burn payout : Nat} {l : Loss}
    (h : Loss.Shared w.pool.scale w.pool.shares total burn payout l)
    (hp : payout ≤ netReserve w.protocol.reserve w.pool.owed) : w.pool.owed + l.payout ≤ w.protocol.reserve := by
  have hle : l.payout ≤ w.protocol.reserve - w.pool.owed := h.payout_le_payout.trans hp
  have := hw.owed_le
  omega

/-- A rebalance that burns something. -/
theorem Sound.rebalances_of_shared (hw : w.Sound) (hm : w.Minting) (hk : w.protocol.roles.requireKeeper caller = .ok ())
    (ht : target ≠ 0) {plan : Protocol.Plan}
    (hplan : w.protocol.planRebalance w.now (.ok w.pool.owed) target = .ok (some plan)) {l : Loss}
    (hl : Loss.share w.pool.scale w.pool.shares plan.burn plan.payout = .ok l)
    (hshared : Loss.Shared w.pool.scale w.pool.shares w.pool.worthAll plan.burn plan.payout l)
    (hfits : w.pool.index + l.indexDelta < wideLimit ∧ w.pool.owed + l.payout < wordLimit) :
    w.Rebalances caller target (w.chain.call caller Launch.protocol (.protocol (.rebalance target))) := by
  obtain ⟨-, -, -, hplanned, -, hworth, hnet⟩ := Protocol.planRebalance_ok hplan
  obtain ⟨hs, -, rfl⟩ := Protocol.planRebalance_some hplan
  have hasked : l.burn ≤ w.protocol.toBurn w.pool.owed target := hshared.burn_le
  have hhalf : l.burn ≤ w.protocol.supplyF / 2 := hasked.trans (Nat.min_le_right _ _)
  have hsupply : l.burn ≤ w.protocol.supplyF := hhalf.trans (Nat.div_le_self _ _)
  have htotal : l.burn ≤ w.pool.worthAll / 2 := hshared.burn_eq.trans_le (Nat.min_le_right _ _)
  -- The pool has what is burned, and the reserve covers what is owed for it: neither of the late checks fails.
  have hheld : l.burn ≤ (w.coin .f).balance Launch.pool := (htotal.trans (Nat.div_le_self _ _)).trans hw.worthAll_le
  have howed := hw.owed_add_payout_le hshared hnet
  have hbear := Pool.bear_of_share hw.linked.pool.controller hl hshared.burn_pos
  rw [if_pos hfits] at hbear
  have hf := (hw.ordered .f).whole.burnFrom_eq (hm .f) hheld
  have hrun := run_rebalance hw.linked hk ht hplan hbear hshared.burn_pos hsupply hf howed
  have hcall : w.chain.call caller Launch.protocol (.protocol (.rebalance target)) =
      .ok ⟨(w.rebalanced l).chain, .amounts l.burn l.payout, (w.rebalanced l).rebalanceEvents caller target l⟩ := by
    rw [rebalanceEvents, ← w.grouped_rebalance]
    exact Outcome.bind_eq_ok.2 ⟨_, hrun, rfl⟩
  rw [hcall]
  exact .burned {
    strained := hs
    total := hw.backed_deposits.total
    shared := hshared
    burn_pos := hshared.burn_pos
    burn_le_needed := hasked.trans (Nat.min_le_left _ _)
    burn_le_supply := hhalf
    burn_le_total := htotal
    worth := hshared.payout_mul_le hplanned hworth
    payout_le := hshared.payout_le_payout.trans hnet
    supply := Nat.sub_add_cancel hsupply
    issued := Nat.sub_add_cancel (hheld.trans ((hw.ordered .f).whole.balance_le _))
    held := by
      have : ((w.rebalanced l).coin .f).balance Launch.pool = (w.coin .f).balance Launch.pool - l.burn := by
        simp [rebalanced]
      omega
    owed := rfl
    owed_le := howed
    owed_lt := hfits.2
    index_lt := hfits.1
    protocol := rfl
    pool := rfl
    stable := by simp [rebalanced]
    coins := fun c hc => by rw [rebalanced, coin_setCoin, if_neg hc, coin_setProtocol, coin_setPool]
    clock := rfl }

/-- What becomes of a rebalance that its caller may ask for. -/
theorem Sound.rebalances (hw : w.Sound) (hm : w.Minting) (hk : w.protocol.roles.requireKeeper caller = .ok ())
    (ht : target ≠ 0) :
    w.Rebalances caller target (w.chain.call caller Launch.protocol (.protocol (.rebalance target))) := by
  by_cases hs : w.protocol.Strained w.now w.pool.owed target
  swap
  · rw [call_of_noRebalance hw.linked hk ht (Or.inl (Protocol.planRebalance_of_not_strained hs))]
    exact .nothing fun h => absurd h hs
  have hplan := Protocol.planRebalance_of_strained hs
  by_cases hface : w.protocol.faceValue w.pool.owed target < wordLimit
  swap
  · rw [if_neg hface] at hplan
    rw [call_of_plan_error hw.linked hk ht hplan]
    exact .overflow ⟨hs, Or.inl (Nat.not_lt.1 hface)⟩
  rw [if_pos hface] at hplan
  have hscale : w.pool.scale < wordLimit := hw.pool.scale_le.trans_lt (by decide)
  have hpayout : min (w.protocol.faceValue w.pool.owed target) (netReserve w.protocol.reserve w.pool.owed) < wordLimit :=
    (Nat.min_le_left _ _).trans_lt hface
  by_cases hi : Loss.Idle w.pool.scale w.pool.shares w.pool.worthAll (w.protocol.toBurn w.pool.owed target)
  · have hshare := Loss.share_of_idle hscale hpayout hw.fits.product_lt hw.fits hi
    have hbear := Pool.bear_of_none hw.linked.pool.controller hshare
    rw [call_of_noRebalance hw.linked hk ht (Or.inr ⟨_, _, _, hplan, hbear, rfl⟩)]
    exact .nothing fun _ => ⟨hface, hi⟩
  obtain ⟨l, hl, hshared⟩ := Loss.exists_share hscale hpayout hw.fits.product_lt hw.fits hi
  by_cases hfits : w.pool.index + l.indexDelta < wideLimit ∧ w.pool.owed + l.payout < wordLimit
  · exact hw.rebalances_of_shared hm hk ht hplan hl hshared hfits
  · have hbear := Pool.bear_of_share hw.linked.pool.controller hl hshared.burn_pos
    rw [if_neg hfits] at hbear
    rw [call_of_bear_error hw.linked hk ht hplan hbear]
    exact .overflow ⟨hs, Or.inr ⟨l, hshared, hw.owed_add_payout_le hshared (Nat.min_le_right _ _), hfits⟩⟩

/-- In every state of every wired run, for every keeper or admin and every target: a rebalance changes nothing, when there is
nothing to burn; or it burns stable tokens of the pool, owes their worth to its depositors and changes nothing else; or a number
is out of range. -/
theorem rebalances_after_wired (steps : List Step) (hs : ∀ s ∈ steps, s.Wired) :
    ∃ w : World, Launch.wired.after steps = w.chain ∧ ∀ (caller : Address) (target : Nat),
      w.protocol.roles.holds .keeper caller = true ∨ w.protocol.roles.holds .admin caller = true → target ≠ 0 →
      w.Rebalances caller target (w.chain.call caller Launch.protocol (.protocol (.rebalance target))) := by
  obtain ⟨w, hchain, hw, hm⟩ := exists_after_wired_minting hs
  refine ⟨w, hchain, fun caller target hrole ht => hw.rebalances hm ?_ ht⟩
  exact require_eq_ok.2 hrole

theorem rebalances_after_fallingTrades : ∃ (w w' : World) (l : Loss),
    Launch.wired.after (Launch.fallingTrades 1100000) = w.chain ∧ w.protocol.roles.holds .keeper Launch.keeper = true ∧
    w.Rebalanced Level.calmRatio l w' ∧ l.burn = 99500000000 ∧ l.payout = 90454545454 ∧
    w.chain.call Launch.keeper Launch.protocol (.protocol (.rebalance Level.calmRatio)) =
      .ok ⟨w'.chain, .amounts l.burn l.payout, w'.rebalanceEvents Launch.keeper Level.calmRatio l⟩ := by
  have hrole : (Launch.wired.after (Launch.fallingTrades 1100000)).query Launch.protocol
      (.protocol (.hasRole Role.keeper.number Launch.keeper)) = .ok (.flag true) := by
    decide +kernel
  have hreply : ((Launch.wired.after (Launch.fallingTrades 1100000)).call Launch.keeper Launch.protocol
      (.protocol (.rebalance Level.calmRatio))).map Receipt.reply = .ok (.amounts 99500000000 90454545454) := by
    decide +kernel
  obtain ⟨w, hchain, hall⟩ := rebalances_after_wired _ (Launch.fallingTrades_wired 1100000)
  rw [hchain] at hrole hreply
  rw [query_protocol] at hrole
  have hkeeper : w.protocol.roles.holds .keeper Launch.keeper = true := by
    rw [← Roles.hasRole_number]
    exact Reply.flag.inj (Except.ok.inj hrole)
  have h := hall Launch.keeper Level.calmRatio (Or.inl hkeeper) (by decide)
  generalize hcall : w.chain.call Launch.keeper Launch.protocol (.protocol (.rebalance Level.calmRatio)) = r at h hreply
  cases h with
  | nothing => cases hreply
  | @burned l w' h =>
    obtain ⟨hburn, hpayout⟩ := Reply.amounts.inj (Except.ok.inj hreply)
    exact ⟨w, w', l, hchain, hkeeper, h, hburn, hpayout, hcall⟩
  | overflow => cases hreply

end World

/-! ### A payout out of range -/

namespace Launch

/-- The price of a large reserve falls to a tenth of what it was. -/
def collapsedTrades : List Step :=
  [.call admin reserveToken (.token (.mint admin 9200000000000000000)),
    .call admin protocol (.protocol (.bootstrap 9200000000000000000))] ++
    [1600001, 1280001, 1024001, 819201, 655361, 524289, 419432, 335546, 268437, 214750].map fun raw =>
      .call oracle protocol (.protocol (.updatePrice raw 0))

theorem collapsedTrades_wired : ∀ s ∈ collapsedTrades, s.Wired := by
  simp [collapsedTrades, Step.Wired, Call.Permitted, Token.Call.Managing, admin, oracle, Address.IsAccount]

end Launch

/-- The price is fresh and the level the worst, and nobody has deposited anything; a rebalance fails instead of doing nothing. -/
theorem World.rebalance_fails_after_collapsedTrades : (∀ s ∈ Launch.collapsedTrades, s.Wired) ∧
    (Launch.wired.after Launch.collapsedTrades).query Launch.protocol
      (.protocol (.hasRole Role.keeper.number Launch.keeper)) = .ok (.flag true) ∧
    (Launch.wired.after Launch.collapsedTrades).query Launch.protocol (.protocol .feedStatus) = .ok (.status .ok) ∧
    (Launch.wired.after Launch.collapsedTrades).query Launch.protocol (.protocol .level) = .ok (.level .l3) ∧
    (Launch.wired.after Launch.collapsedTrades).query Launch.pool (.pool .total) = .ok (.amount 0) ∧
    (Launch.wired.after Launch.collapsedTrades).call Launch.keeper Launch.protocol
      (.protocol (.rebalance Level.calmRatio)) = .error (.fault .mathOverflow) := by
  have hreply : ((Launch.wired.after Launch.collapsedTrades).call Launch.keeper Launch.protocol
      (.protocol (.rebalance Level.calmRatio))).map Receipt.reply = .error (.fault .mathOverflow) := by
    decide +kernel
  exact ⟨Launch.collapsedTrades_wired, by decide +kernel, by decide +kernel, by decide +kernel, by decide +kernel,
    Outcome.map_eq_error.1 hreply⟩

end SplitReserve
