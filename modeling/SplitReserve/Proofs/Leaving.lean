import SplitReserve.Proofs.World.Act
import SplitReserve.Proofs.World.Census

/-!
# Leaving the pool

A depositor leaves by withdrawing what its position is worth, if that is anything, claiming its rewards and closing the
position.  Nothing stands in the way (`Sound.exists_leave`), with one exception: shares that are worth less than one unit cannot
be withdrawn, and a position that has shares cannot be closed.  Who is left with such shares alone is stranded, whatever others
do (`Stranded.move`), until it pays more in.  This takes a loss, since the shares of a pool that has borne none are worth their
number (`worth_of_fresh`).
-/

namespace SplitReserve

/-- Carry out calls of one account of one contract, one after the other, as long as they succeed. -/
def Chain.serve (c : Chain) (caller target : Address) : List Call → Outcome Chain
  | [] => .ok c
  | call :: calls => do
    let r ← c.call caller target call
    r.chain.serve caller target calls

/-- The calls by which a depositor leaves whose position is worth `n`. -/
def leavingCalls (n : Nat) : List Call :=
  (if n = 0 then [] else [.pool (.withdraw n)]) ++ [.pool .claim, .pool .close]

namespace Chain

variable {c d : Chain} {caller target : Address}

theorem serve_append (l m : List Call) :
    c.serve caller target (l ++ m) = c.serve caller target l >>= fun d => d.serve caller target m := by
  induction l generalizing c with
  | nil => rfl
  | cons call l ih =>
    rw [List.cons_append, serve, serve, bind_assoc]
    cases c.call caller target call with
    | error e => rfl
    | ok r => exact ih

theorem serve_cons {call : Call} {calls : List Call} {r : Receipt} (h : c.call caller target call = .ok r) :
    c.serve caller target (call :: calls) = r.chain.serve caller target calls := by
  rw [serve, h, Outcome.ok_bind]

end Chain

namespace Pool

variable {p p' : Pool} {a : Address}

/-- An open position with shares that are worth nothing. -/
structure Stranded (p : Pool) (a : Address) : Prop where
  isOpen : p.isOpen a = true
  shares : (p.position a).shares ≠ 0
  worth : p.worth a = 0

/-- An act of another account, or one that keeps the shares, frees nobody. -/
theorem Stranded.rewrites {b : Address} {s : Position} (h : p.Stranded a) (hr : Rewrites p p' b s)
    (hopen : p'.isOpen a = p.isOpen a) (hs : b = a → s.shares = (p.position a).shares) : p'.Stranded a := by
  have hshares : (p'.position a).shares = (p.position a).shares := by
    rw [hr.position]
    split
    next e => exact hs e.symm
    next => rfl
  refine ⟨hopen.trans h.isOpen, hshares ▸ h.shares, ?_⟩
  rw [Pool.worth, hshares, hr.scale]
  exact h.worth

/-- Rewards and losses free nobody, since the scale does not rise. -/
theorem Stranded.accrues {amount delta : Nat} (h : p.Stranded a) (ha : Accrues p p' amount delta)
    (hopened : p'.opened = p.opened) : p'.Stranded a := by
  refine ⟨?_, ?_, ?_⟩
  · rw [Pool.isOpen, hopened]
    exact h.isOpen
  · rw [ha.position]
    exact h.shares
  · have hle : p'.worth a ≤ p.worth a := by
      rw [Pool.worth, Pool.worth, ha.position]
      exact Nat.div_le_div_right (Nat.mul_le_mul_left _ ha.scale_le)
    rw [h.worth] at hle
    exact Nat.le_zero.1 hle

/-- While a pool has borne no loss, shares are worth their number. -/
theorem worth_of_fresh (h : p.scale = shareScale) (a : Address) : p.worth a = (p.position a).shares := by
  rw [worth, h]
  exact Nat.mul_div_left _ (by decide)

end Pool

namespace World

variable {w w' : World} {a b caller target : Address} {call : Call} {reply : Reply}

/-! ### Who can leave -/

/-- Withdrawing what a position is worth, if anything, leaves it without shares, and its rewards as they are. -/
private theorem exists_emptied (hw : w.Sound) (ha : a.IsAccount) (hopen : w.pool.isOpen a = true)
    (hdust : w.pool.worth a = 0 → (w.pool.position a).shares = 0) :
    ∃ v : World, w.chain.serve a Launch.pool (if w.pool.worth a = 0 then [] else [.pool (.withdraw (w.pool.worth a))]) =
        .ok v.chain ∧ v.Sound ∧ v.pool.isOpen a = true ∧ (v.pool.position a).shares = 0 ∧ v.pool.due a = w.pool.due a ∧
      v.pool.depositors = w.pool.depositors ∧
      (v.coin .f).balance a = (w.coin .f).balance a + w.pool.worth a ∧
      (v.coin .reserve).balance a = (w.coin .reserve).balance a := by
  by_cases hz : w.pool.worth a = 0
  · refine ⟨w, ?_, hw, hopen, hdust hz, rfl, rfl, ?_, rfl⟩
    · rw [if_pos hz]
      rfl
    · rw [hz, Nat.add_zero]
  · let A : Act := .withdraw ⟨w.pool.worth a, hw.fits.worth_lt hw.pool a⟩
    obtain ⟨e, heffect, hbooking, hdrawn, hreturned⟩ : ∃ e, A.effect a (w.pool.standing a) (w.purse a) = .ok e ∧
        e.booking = (w.pool.standing a).withdrawing (w.pool.worth a) ∧ e.drawn = 0 ∧ e.returned = w.pool.worth a := by
      have hle : w.pool.worth a ≤ (w.pool.standing a).worth := le_rfl
      rw [Act.effect, require, if_pos hz, Outcome.ok_bind, require, if_pos hle, Outcome.ok_bind]
      exact ⟨_, rfl, rfl, rfl, rfl⟩
    have hcall := hw.call_act ha A
    rw [heffect, Outcome.map_ok] at hcall
    have hsound := hw.act ha A
    rw [act_of_effect heffect] at hsound
    -- Whoever withdraws the full worth is taken all shares.
    have htaken : (w.pool.standing a).taken (w.pool.worth a) = (w.pool.position a).shares := if_pos rfl
    have hposition : (w.acted a e).pool.position a = ⟨0, w.pool.index, w.pool.due a⟩ := by
      have := Pool.position_booked w.pool a e.booking
      rw [hbooking, Standing.withdrawing, htaken, Pool.held_standing, Nat.sub_self] at this
      rw [acted, hbooking, Standing.withdrawing, htaken, Pool.held_standing, Nat.sub_self]
      exact this
    refine ⟨w.acted a e, ?_, hsound, ?_, ?_, ?_, ?_, ?_, ?_⟩
    · rw [if_neg hz]
      exact Chain.serve_cons hcall
    · have := Pool.isOpen_booked w.pool a e.booking
      rw [hbooking] at this
      rw [acted, hbooking]
      exact this.trans hopen
    · rw [hposition]
    · exact Pool.due_of_position hposition
    · rw [acted, hbooking]
      rfl
    · rw [stable_acted ha, hdrawn, hreturned, Nat.sub_zero]
    · rw [reserve_acted ha, hbooking]
      rfl

/-- A claim leaves a position with its shares and without rewards. -/
private theorem exists_claimed (hw : w.Sound) (ha : a.IsAccount) :
    ∃ v : World, w.chain.serve a Launch.pool [.pool .claim] = .ok v.chain ∧ v.Sound ∧ v.pool.isOpen a = w.pool.isOpen a ∧
      (v.pool.position a).shares = (w.pool.position a).shares ∧ v.pool.due a = 0 ∧
      v.pool.depositors = w.pool.depositors ∧ (v.coin .f).balance a = (w.coin .f).balance a ∧
      (v.coin .reserve).balance a = (w.coin .reserve).balance a + w.pool.due a := by
  obtain ⟨e, heffect, hbooking, hdrawn, hreturned⟩ : ∃ e, Act.claim.effect a (w.pool.standing a) (w.purse a) = .ok e ∧
      e.booking = (w.pool.standing a).claiming ∧ e.drawn = 0 ∧ e.returned = 0 := ⟨_, rfl, rfl, rfl, rfl⟩
  have hcall := hw.call_act ha .claim
  rw [heffect, Outcome.map_ok] at hcall
  have hsound := hw.act ha .claim
  rw [act_of_effect heffect] at hsound
  obtain ⟨-, -, hshares, s, hr, hkept, -, hcredit⟩ := hw.pool.claim_ok (hw.pool.claim_eq a)
  rw [← hbooking] at hr
  have hposition : (w.acted a e).pool.position a = s := by
    have := hr.position a
    rwa [if_pos rfl] at this
  refine ⟨w.acted a e, Chain.serve_cons hcall, hsound, ?_, ?_, ?_, ?_, ?_, ?_⟩
  · have := Pool.isOpen_booked w.pool a e.booking
    rw [hbooking] at this
    rw [acted, hbooking]
    exact this
  · rw [hposition, hkept]
  · have hindex : (w.acted a e).pool.index = w.pool.index := rfl
    rw [Pool.due_eq_credit_div, hposition, hindex, hcredit, Nat.zero_div]
  · rw [acted, hbooking]
    rfl
  · rw [stable_acted ha, hdrawn, hreturned]
    rfl
  · rw [reserve_acted ha, hbooking]
    rfl

/-- A depositor without shares and rewards can close its position. -/
private theorem exists_closed (hw : w.Sound) (ha : a.IsAccount) (hopen : w.pool.isOpen a = true)
    (hshares : (w.pool.position a).shares = 0) (hdue : w.pool.due a = 0) :
    ∃ v : World, w.chain.serve a Launch.pool [.pool .close] = .ok v.chain ∧ v.pool.isOpen a = false ∧
      v.pool.depositors = w.pool.depositors - 1 ∧ (v.coin .f).balance a = (w.coin .f).balance a ∧
      (v.coin .reserve).balance a = (w.coin .reserve).balance a := by
  let e : Effect := { booking := Standing.closing, events := [(Launch.pool, .positionClosed a)] }
  have hopen' : (w.pool.standing a).isOpen = true := hopen
  have hempty : (w.pool.standing a).held.shares = 0 ∧ (w.pool.standing a).due = 0 := ⟨hshares, hdue⟩
  have heffect : Act.close.effect a (w.pool.standing a) (w.purse a) = .ok e := by
    rw [Act.effect, require, if_pos hopen', Outcome.ok_bind, require, if_pos hempty]
    rfl
  have hcall := hw.call_act ha .close
  rw [heffect, Outcome.map_ok] at hcall
  refine ⟨w.acted a e, Chain.serve_cons hcall, ?_, rfl, ?_, ?_⟩
  · exact Pool.isOpen_booked w.pool a e.booking
  · exact stable_acted ha
  · exact reserve_acted ha

/-- Who has no shares that are worth nothing can leave with all that is its own, and pays nothing for it. -/
theorem Sound.exists_leave (hw : w.Sound) (ha : a.IsAccount) (hopen : w.pool.isOpen a = true)
    (hdust : w.pool.worth a = 0 → (w.pool.position a).shares = 0) :
    ∃ v : World, w.chain.serve a Launch.pool (leavingCalls (w.pool.worth a)) = .ok v.chain ∧ v.pool.isOpen a = false ∧
      v.pool.depositors = w.pool.depositors - 1 ∧
      (v.coin .f).balance a = (w.coin .f).balance a + w.pool.worth a ∧
      (v.coin .reserve).balance a = (w.coin .reserve).balance a + w.pool.due a := by
  obtain ⟨u, hu, hsound, huopen, hushares, hudue, hucount, hustable, hureserve⟩ := exists_emptied hw ha hopen hdust
  obtain ⟨v, hv, hsound', hvopen, hvshares, hvdue, hvcount, hvstable, hvreserve⟩ := exists_claimed hsound ha
  obtain ⟨x, hx, hxopen, hxcount, hxstable, hxreserve⟩ :=
    exists_closed hsound' ha (hvopen.trans huopen) (hvshares.trans hushares) hvdue
  refine ⟨x, ?_, hxopen, ?_, ?_, ?_⟩
  · rw [leavingCalls, Chain.serve_append, hu, Outcome.ok_bind, ← List.singleton_append, Chain.serve_append, hv,
      Outcome.ok_bind, hx]
  · rw [hxcount, hvcount, hucount]
  · rw [hxstable, hvstable, hustable]
  · rw [hxreserve, hvreserve, hureserve, hudue]

/-! ### Who cannot -/

/-- Nothing that others do, and nothing that it does itself but deposit, frees a stranded account. -/
theorem Move.stranded (hm : w.Move caller target call reply w') (hw : w.Sound) (h : w.pool.Stranded a)
    (hd : caller = a → ∀ n, call ≠ .pool (.deposit n)) : w'.pool.Stranded a := by
  cases hm with
  | token | books | withdrawTreasury | recapitalize | bootstrap | mint | redeem | noRebalance | noHarvest => exact h
  | rebalance hk ht hplan hp hb =>
    obtain ⟨hopened, -, -, -⟩ := Pool.bear_counts hp hb
    obtain ⟨-, ⟨hz, -⟩ | ⟨-, -, haccrues, -⟩⟩ := Pool.bear_cases hp
    · exact absurd hz hb
    · exact h.accrues haccrues hopened
  | harvest hk hn hi hpos =>
    obtain ⟨hopened, -, -, -⟩ := Pool.indexRewards_counts hi hpos
    obtain ⟨-, ⟨hz, -⟩ | ⟨-, -, haccrues, -⟩⟩ := Pool.indexRewards_cases hi
    · exact absurd hz hpos
    · exact h.accrues haccrues hopened
  | @deposit n k p t log hp ht =>
    have hne : caller ≠ a := fun e => hd e _ rfl
    obtain ⟨hopened, -, -, -⟩ := Pool.deposit_counts hp
    have hopen : p.isOpen a = w.pool.isOpen a := by
      rw [Pool.isOpen, hopened]
      exact (Pool.isOpen_openPosition _ _ _).trans (if_neg hne.symm)
    exact h.rewrites (hw.pool.deposit_ok hp).1 hopen fun e => absurd e hne
  | @withdraw n k p t log hp ht =>
    obtain ⟨hopened, -, -, -⟩ := Pool.withdraw_counts hp
    obtain ⟨hr, hn, hk, hworth, -, -⟩ := hw.pool.withdraw_ok hp
    have hopen : p.isOpen a = w.pool.isOpen a := congrArg (·.get a) hopened
    refine h.rewrites hr hopen fun e => ?_
    -- There is nothing that could be withdrawn.
    subst e
    have hle : _ ≤ w.pool.worth caller :=
      (Nat.le_div_iff_mul_le (by decide)).2 (hworth.trans (Nat.mul_le_mul_right _ hk))
    rw [h.worth] at hle
    exact absurd (Nat.le_zero.1 hle) hn
  | claimNothing hp | claim hp =>
    obtain ⟨hopened, -, -, -⟩ := Pool.claim_counts hp
    obtain ⟨-, -, -, s, hr, hshares, -⟩ := hw.pool.claim_ok hp
    refine h.rewrites hr (congrArg (·.get a) hopened) fun e => ?_
    rw [hshares, e]
  | close hp =>
    obtain ⟨hr, hshares, -⟩ := hw.pool.close_ok hp
    obtain ⟨-, hopened, -⟩ := Pool.close_counts hp
    have hne : caller ≠ a := by
      rintro rfl
      exact h.shares hshares
    refine h.rewrites hr ?_ fun e => absurd e hne
    exact (congrArg (·.get a) hopened).trans ((Table.get_insert ..).trans (if_neg hne.symm))

/-- A stranded account cannot close its position, and cannot withdraw anything. -/
theorem Sound.refused_of_stranded (hw : w.Sound) (ha : a.IsAccount) (h : w.pool.Stranded a) :
    w.chain.call a Launch.pool (.pool .close) = .error (.fault .positionNotEmpty) ∧
      ∀ n : Fin wordLimit, n.val ≠ 0 →
        w.chain.call a Launch.pool (.pool (.withdraw n)) = .error (.fault .insufficientPoolBalance) := by
  constructor
  · have hopen : (w.pool.standing a).isOpen = true := h.isOpen
    have hfull : ¬ ((w.pool.standing a).held.shares = 0 ∧ (w.pool.standing a).due = 0) := fun e => h.shares e.1
    have hcall := hw.call_act ha .close
    rw [Act.effect, require, if_pos hopen, Outcome.ok_bind, require, if_neg hfull] at hcall
    exact hcall
  · intro n hn
    have hworth : ¬ n.val ≤ (w.pool.standing a).worth := by
      rw [Pool.worth_standing, h.worth]
      omega
    have hcall := hw.call_act ha (.withdraw n)
    rw [Act.effect, require, if_pos hn, Outcome.ok_bind, require, if_neg hworth] at hcall
    exact hcall

/-- While it deposits nothing, a stranded account stays stranded. -/
theorem Sound.stranded_after (hw : w.Sound) (h : w.pool.Stranded a) {steps : List Step} (hs : ∀ s ∈ steps, s.Wired)
    (hd : ∀ target n, .call a target (.pool (.deposit n)) ∉ steps) :
    ∃ v : World, w.chain.after steps = v.chain ∧ v.Sound ∧ v.pool.Stranded a := by
  refine hw.exists_after (P := fun v => v.pool.Stranded a) h hs fun s hmem v v' hv hn hp => ?_
  cases hn with
  | refused | wait => exact hp
  | move hc hperm hm =>
    refine hm.stranded hv hp ?_
    rintro rfl n rfl
    exact hd _ n hmem

/-! ### In every run -/

/-- In every state of every wired run, a depositor whose balance is `actual` can leave: the withdrawal of it, if it is anything,
the claim and the closing succeed in a row, pay out the balance and the rewards, and leave no position and one depositor less.
The exception is a position with shares that are worth nothing, which takes a loss of the pool to arise: its owner can neither
withdraw nor close, then and after any further run in which it deposits nothing. -/
theorem leave_after_wired (steps : List Step) (hs : ∀ s ∈ steps, s.Wired) :
    ∃ w : World, Launch.wired.after steps = w.chain ∧ (w.pool.scale = shareScale → ∀ a, ¬ w.pool.Stranded a) ∧
      ∀ a : Address, a.IsAccount → w.pool.isOpen a = true → ∀ actual : Nat,
        w.chain.query Launch.pool (.pool (.actual a)) = .ok (.amount actual) →
        (¬ w.pool.Stranded a → ∃ v : World, w.chain.serve a Launch.pool (leavingCalls actual) = .ok v.chain ∧
          v.pool.isOpen a = false ∧ v.pool.depositors = w.pool.depositors - 1 ∧
          ((callers steps).card < wordLimit → v.pool.depositors + 1 = w.pool.depositors) ∧
          (v.coin .f).balance a = (w.coin .f).balance a + actual ∧
          (v.coin .reserve).balance a = (w.coin .reserve).balance a + w.pool.due a) ∧
        (w.pool.Stranded a → actual = 0 ∧ ∀ more : List Step, (∀ s ∈ more, s.Wired) →
          (∀ target n, .call a target (.pool (.deposit n)) ∉ more) →
          ∃ v : World, w.chain.after more = v.chain ∧ v.pool.Stranded a ∧
            v.chain.call a Launch.pool (.pool .close) = .error (.fault .positionNotEmpty) ∧
            ∀ n : Fin wordLimit, n.val ≠ 0 →
              v.chain.call a Launch.pool (.pool (.withdraw n)) = .error (.fault .insufficientPoolBalance)) := by
  obtain ⟨w, hchain, hw, hcensus⟩ := exists_after_wired_census hs (Finset.Subset.refl (callers steps))
  refine ⟨w, hchain, ?_, ?_⟩
  · intro hfresh a h
    exact h.shares ((Pool.worth_of_fresh hfresh a).symm.trans h.worth)
  intro a ha hopen actual hactual
  have hworth : actual = w.pool.worth a := by
    rw [hw.backed_deposits.actual] at hactual
    exact (Reply.amount.inj (Except.ok.inj hactual)).symm
  subst hworth
  constructor
  · intro hfree
    have hdust : w.pool.worth a = 0 → (w.pool.position a).shares = 0 := by
      intro hz
      by_contra hshares
      exact hfree ⟨hopen, hshares, hz⟩
    obtain ⟨v, hserve, hclosed, hcount, hstable, hreserve⟩ := hw.exists_leave ha hopen hdust
    refine ⟨v, hserve, hclosed, hcount, fun hcard => ?_, hstable, hreserve⟩
    have := hcensus.depositors_pos hcard hopen
    omega
  · intro h
    refine ⟨h.worth, fun more hmore hd => ?_⟩
    obtain ⟨v, hv, hsound, hstranded⟩ := hw.stranded_after h hmore hd
    obtain ⟨hclose, hwithdraw⟩ := hsound.refused_of_stranded ha hstranded
    exact ⟨v, hv, hstranded, hclose, hwithdraw⟩

/-- Alice leaves after a first run. -/
theorem leave_after_firstTrades : (∀ s ∈ Launch.firstTrades, s.Wired) ∧
    (Launch.wired.after Launch.firstTrades).query Launch.pool (.pool (.isOpen Launch.alice)) = .ok (.flag true) ∧
    (Launch.wired.after Launch.firstTrades).query Launch.pool (.pool (.actual Launch.alice)) =
      .ok (.amount (50 * priceScale)) ∧
    ∃ v : World, (Launch.wired.after Launch.firstTrades).serve Launch.alice Launch.pool (leavingCalls (50 * priceScale)) =
        .ok v.chain ∧
      v.pool.isOpen Launch.alice = false := by
  have hopen : (Launch.wired.after Launch.firstTrades).query Launch.pool (.pool (.isOpen Launch.alice)) = .ok (.flag true) := by
    decide +kernel
  have hactual : (Launch.wired.after Launch.firstTrades).query Launch.pool (.pool (.actual Launch.alice)) =
      .ok (.amount (50 * priceScale)) := by
    decide +kernel
  have halice : Launch.alice.IsAccount := trivial
  obtain ⟨w, hchain, -, hleave⟩ := leave_after_wired Launch.firstTrades Launch.firstTrades_wired
  rw [hchain] at hopen hactual ⊢
  have hisOpen : w.pool.isOpen Launch.alice = true := by
    rw [query_pool] at hopen
    exact Reply.flag.inj (Except.ok.inj hopen)
  obtain ⟨hfree, hstranded⟩ := hleave Launch.alice halice hisOpen _ hactual
  have hnot : ¬ w.pool.Stranded Launch.alice := fun h => absurd (hstranded h).1 (by decide)
  obtain ⟨v, hserve, hclosed, -⟩ := hfree hnot
  exact ⟨Launch.firstTrades_wired, hopen, hactual, v, hserve, hclosed⟩

end World

/-! ### Dust -/

namespace Launch

/-- Bob deposits a single unit; then half of the pool is burned. -/
def dustTrades : List Step :=
  [.call admin protocol (.protocol (.bootstrap firstReserve)),
    .call alice protocol (.protocol (.mint .f (100 * priceScale) 0)),
    .call alice fToken (.token (.transfer bob 1)),
    .call alice pool (.pool (.deposit (199 * priceScale - 1))),
    .call bob pool (.pool (.deposit 1))] ++
    ([1650000, 1400000, 1180000].map fun raw => .call oracle protocol (.protocol (.updatePrice raw 0))) ++
    [.call keeper protocol (.protocol (.rebalance Level.calmRatio))]

theorem dustTrades_wired : ∀ s ∈ dustTrades, s.Wired := by
  simp [dustTrades, Step.Wired, Call.Permitted, Token.Call.Managing, admin, alice, bob, oracle, keeper, Address.IsAccount,
    fToken_ne_reserveToken]

end Launch

/-- Bob's unit is worth nothing after the rebalance, and the position that holds it cannot be closed. -/
theorem World.unleavable_after_dustTrades : (∀ s ∈ Launch.dustTrades, s.Wired) ∧ Launch.bob.IsAccount ∧
    (Launch.wired.after Launch.dustTrades).query Launch.pool (.pool (.isOpen Launch.bob)) = .ok (.flag true) ∧
    (Launch.wired.after Launch.dustTrades).query Launch.pool (.pool (.actual Launch.bob)) = .ok (.amount 0) ∧
    ∃ r : Receipt, (Launch.wired.after Launch.dustTrades).call Launch.bob Launch.pool (.pool .claim) = .ok r ∧
      r.chain.call Launch.bob Launch.pool (.pool .close) = .error (.fault .positionNotEmpty) := by
  have hclose : ((Launch.wired.after Launch.dustTrades).call Launch.bob Launch.pool (.pool .claim)).map (fun r =>
      (r.chain.call Launch.bob Launch.pool (.pool .close)).map Receipt.reply) = .ok (.error (.fault .positionNotEmpty)) := by
    decide +kernel
  obtain ⟨r, hr, hclose⟩ := Outcome.map_eq_ok.1 hclose
  refine ⟨Launch.dustTrades_wired, trivial, by decide +kernel, by decide +kernel, r, hr, ?_⟩
  cases h : r.chain.call Launch.bob Launch.pool (.pool .close) with
  | ok r' =>
    rw [h] at hclose
    cases hclose
  | error e =>
    rw [h] at hclose
    cases hclose
    rfl

end SplitReserve
