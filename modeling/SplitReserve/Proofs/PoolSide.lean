import SplitReserve.Proofs.World.Run

/-!
# The pool side

What depositors do, and what a keeper harvests for them, is no concern of those who trade with the protocol.  A price depends on
the reserve and on the debt to the pool only through what the debt leaves of the reserve (`Protocol.price_congr`), and the calls
of the pool side change both alike, or neither (`Sound.shifts`).  So the protocol prices and quotes everything after such a call
as before it (`prices_stay_after_wired`), and after any number of them (`prices_stay_after_poolSide`).
-/

namespace SplitReserve

/-- The calls of depositors, and the harvest for them. -/
inductive Call.PoolSide : Call → Prop
  | deposit (n : Nat) : PoolSide (.pool (.deposit n))
  | withdraw (n : Nat) : PoolSide (.pool (.withdraw n))
  | claim : PoolSide (.pool .claim)
  | close : PoolSide (.pool .close)
  | harvest (n : Nat) : PoolSide (.protocol (.harvest n))

/-- The steps in which an account makes such a call. -/
def Step.PoolSide : Step → Prop
  | .call caller _ c => caller.IsAccount ∧ c.PoolSide
  | .wait _ => False

theorem Call.PoolSide.permitted {c : Call} {target : Address} (h : c.PoolSide) : c.Permitted target := by
  cases h with
  | deposit | withdraw | claim | close => exact fun _ => Pool.Call.noConfusion
  | harvest => exact fun _ => Protocol.Call.noConfusion

theorem Step.PoolSide.wired {s : Step} (h : s.PoolSide) : s.Wired := by
  cases s with
  | call => exact ⟨h.1, h.2.permitted⟩
  | wait => exact h.elim

/-! ### What a price depends on -/

namespace Protocol

variable {p : Protocol} {reserve owed owed' : Nat}

/-- A price depends on what is left of the reserve. -/
theorem price_congr (h : netReserve reserve owed' = netReserve p.reserve owed) (now : Nat) (op : Operation) (amount : Nat) :
    { p with reserve }.price now (.ok owed') op amount = p.price now (.ok owed) op amount := by
  have hat : ∀ price, { p with reserve }.priceAt price owed' op amount = p.priceAt price owed op amount := by
    intro price
    cases op <;>
    · simp only [priceAt, currentLevel, collateralRatio, xPrice, h]
      rfl
  simp only [price, Outcome.ok_bind, hat]

/-- So does all of the state but the reserve and the debt themselves. -/
theorem state_congr (h : netReserve reserve owed' = netReserve p.reserve owed) :
    { p with reserve }.state owed' = { p.state owed with reserve, owed := owed' } := by
  simp only [state, collateralRatio, xPrice, h]

/-- The queries for the reserve or for the debt to the pool as such. -/
def Query.Gross : Query → Prop
  | .state | .owed | .reserve | .invariant => True
  | _ => False

end Protocol

/-- The protocol answers everything about prices on `d` as it does on `c`. -/
structure Chain.SamePrices (c d : Chain) : Prop where
  state : ∃ (s : Protocol.State) (reserve owed : Nat),
    c.query Launch.protocol (.protocol .state) = .ok (.state s) ∧
    d.query Launch.protocol (.protocol .state) = .ok (.state { s with reserve, owed }) ∧
    (reserve : ℤ) - owed = s.reserve - s.owed
  query : ∀ q : Protocol.Query, ¬ q.Gross →
    d.query Launch.protocol (.protocol q) = c.query Launch.protocol (.protocol q)

namespace World

variable {w w' v : World} {caller target : Address} {call : Call} {reply : Reply} {n : Nat}

/-! ### Shifts -/

/-- The books of the protocol in `w'` are those in `w`, but for a change of the reserve that is one of the debt too. -/
structure Shifts (w w' : World) : Prop where
  clock : w'.clock = w.clock
  protocol : ∃ reserve, w'.protocol = { w.protocol with reserve }
  net : (w'.protocol.reserve : ℤ) - w'.pool.owed = w.protocol.reserve - w.pool.owed

theorem Shifts.refl (w : World) : w.Shifts w := ⟨rfl, ⟨_, rfl⟩, rfl⟩

theorem Shifts.trans (h : w.Shifts w') (h' : w'.Shifts v) : w.Shifts v := by
  obtain ⟨reserve, e⟩ := h.protocol
  obtain ⟨reserve', e'⟩ := h'.protocol
  refine ⟨h'.clock.trans h.clock, ⟨reserve', ?_⟩, h'.net.trans h.net⟩
  rw [e', e]

theorem shifts_of_owed (hclock : w'.clock = w.clock) (hprotocol : w'.protocol = w.protocol)
    (howed : w'.pool.owed = w.pool.owed) : w.Shifts w' := by
  refine ⟨hclock, ⟨_, hprotocol⟩, ?_⟩
  rw [hprotocol, howed]

/-- After a shift every price is the same. -/
theorem Shifts.samePrices (h : w.Shifts w') (hp : w.protocol.pool = some Launch.pool) : w.chain.SamePrices w'.chain := by
  obtain ⟨hclock, ⟨reserve, e⟩, hnet⟩ := h
  have hp' : w'.protocol.pool = some Launch.pool := by rw [e, hp]
  have hnow : w'.chain.now = w.chain.now := congrArg (· / 1000) hclock
  have howed := owed_eq w hp
  have howed' := owed_eq w' hp'
  rw [e] at hnet howed'
  have hleft : netReserve reserve w'.pool.owed = netReserve w.protocol.reserve w.pool.owed := by
    change (reserve : ℤ) - w'.pool.owed = _ at hnet
    unfold netReserve
    omega
  have hstate := Protocol.state_congr hleft
  refine ⟨⟨_, reserve, w'.pool.owed, w.query_state hp, ?_, hnet⟩, fun q hq => ?_⟩
  · rw [w'.query_state hp', e, hstate]
  rw [query_protocol, query_protocol, e]
  cases q with
  | state | owed | reserve | invariant => exact absurd trivial hq
  | ratio | level => simp only [Protocol.Query.answer, howed, howed', Outcome.map_ok, hstate]
  | quote op amount =>
    simp only [Protocol.Query.answer, Protocol.quote, howed, howed', hnow, Protocol.price_congr hleft]
  | feedStatus | time => simp only [Protocol.Query.answer, hnow]
  | _ => rfl

/-- The calls of the pool side shift the reserve and the debt at most. -/
theorem Sound.shifts (hw : w.Sound) (hp : call.PoolSide) (hm : w.Move caller target call reply w') : w.Shifts w' := by
  cases hp with
  | deposit n =>
    cases hm with
    | deposit hs ht =>
      obtain ⟨-, -, -, -, howed⟩ := hw.pool.deposit_ok hs
      exact shifts_of_owed rfl rfl howed
  | withdraw n =>
    cases hm with
    | withdraw hs ht =>
      obtain ⟨-, -, -, -, -, howed⟩ := hw.pool.withdraw_ok hs
      exact shifts_of_owed rfl rfl howed
  | claim =>
    cases hm with
    | claimNothing hs =>
      obtain ⟨-, -, howed, -⟩ := hw.claimed hs
      exact shifts_of_owed rfl rfl howed
    | @claim n s p _ _ hs hpos hb ht =>
      obtain ⟨-, -, howed, -⟩ := hw.claimed hs
      obtain ⟨-, hle, rfl⟩ := Protocol.payClaim_ok hb
      refine ⟨rfl, ⟨_, rfl⟩, ?_⟩
      change ((w.protocol.reserve - n : Nat) : ℤ) - s.owed = _
      omega
  | close =>
    cases hm with
    | close hs =>
      obtain ⟨-, -, -, -, howed⟩ := hw.pool.close_ok hs
      exact shifts_of_owed rfl rfl howed
  | harvest n =>
    cases hm with
    | books hb => cases hb
    | noHarvest => exact .refl w
    | @harvest _ k s p _ _ hk hn hi hpos hb ht =>
      obtain ⟨rfl, -⟩ := Protocol.addReserve_ok hb
      obtain ⟨-, ⟨hz, -⟩ | ⟨-, rfl, ha, -⟩⟩ := Pool.indexRewards_cases hi
      · exact absurd hz hpos
      refine ⟨rfl, ⟨_, rfl⟩, ?_⟩
      change ((w.protocol.reserve + (n - Protocol.bounty n) : Nat) : ℤ) - s.owed = _
      rw [ha.owed]
      push_cast
      ring

/-- Any number of calls of the pool side leave all prices as they were. -/
theorem prices_stay_after_poolSide {steps calls : List Step} (hs : ∀ s ∈ steps, s.Wired) (hcalls : ∀ s ∈ calls, s.PoolSide) :
    (Launch.wired.after steps).SamePrices ((Launch.wired.after steps).after calls) := by
  obtain ⟨w, hchain, hw⟩ := exists_after_wired hs
  obtain ⟨w', hchain', -, hshifts⟩ := hw.exists_after (P := w.Shifts) (.refl w) (fun s hm => (hcalls s hm).wired)
    fun s hm v v' hv hn hp => by
      have hside := hcalls s hm
      cases hn with
      | refused => exact hp
      | move hc _ hmove => exact hp.trans (hv.shifts hside.2 hmove)
      | wait ms => exact hside.elim
  rw [hchain, hchain']
  exact hshifts.samePrices hw.linked.protocol.pool

end World

/-! ### Harvests -/

/-- What a harvest of `n` by `keeper` does.  Nothing happens while the pool has no shares; else all but the hundredth that stays
with the keeper goes to the reserve, which owes it to the pool. -/
structure Chain.Harvested (c : Chain) (keeper : Address) (n : Nat) (r : Receipt) : Prop where
  idle : c.query Launch.pool (.pool .shares) = .ok (.amount 0) → r.reply = .amount 0 ∧ r.chain = c
  raised : c.query Launch.pool (.pool .shares) ≠ .ok (.amount 0) →
    r.reply = .amount (n / 100) ∧ 0 < n - n / 100 ∧
    (∃ s : Protocol.State, c.query Launch.protocol (.protocol .state) = .ok (.state s) ∧
      r.chain.query Launch.protocol (.protocol .state) =
        .ok (.state { s with reserve := s.reserve + (n - n / 100), owed := s.owed + (n - n / 100) })) ∧
    (∃ held, c.query Launch.reserveToken (.token (.balance Launch.protocol)) = .ok (.amount held) ∧
      r.chain.query Launch.reserveToken (.token (.balance Launch.protocol)) = .ok (.amount (held + (n - n / 100)))) ∧
    ∃ held, c.query Launch.reserveToken (.token (.balance keeper)) = .ok (.amount (held + (n - n / 100))) ∧
      r.chain.query Launch.reserveToken (.token (.balance keeper)) = .ok (.amount held)

theorem Protocol.bounty_eq (n : Nat) : bounty n = n / 100 := by
  unfold bounty bountyRate bpsScale
  omega

/-- When nothing is indexed there is nobody to have it. -/
theorem Pool.shares_eq_zero_of_indexed {p p' : Pool} {caller : Address} {n : Nat} (hn : n ≠ 0)
    (h : p.indexRewards caller n = .ok (p', 0)) : p.shares = 0 := by
  simp only [indexRewards, Outcome.bind_eq_ok] at h
  obtain ⟨-, -, h⟩ := h
  split at h
  next hz => exact hz.resolve_left hn
  next =>
    simp only [Outcome.bind_eq_ok] at h
    obtain ⟨_, -, _, -, _, -, h⟩ := h
    cases h
    exact absurd rfl hn

namespace World

variable {w w' : World} {caller target : Address} {n : Nat}

private theorem query_shares_iff (w : World) :
    w.chain.query Launch.pool (.pool .shares) = .ok (.amount 0) ↔ w.pool.shares = 0 := by
  rw [query_pool]
  simp [Pool.Query.answer]

private theorem query_balance (w : World) (a : Address) :
    w.chain.query Launch.reserveToken (.token (.balance a)) = .ok (.amount ((w.coin .reserve).balance a)) :=
  w.query_coin .reserve _

/-- A harvest that succeeds does what it should. -/
theorem Sound.harvested (hw : w.Sound) (hc : caller.IsAccount) {r : Receipt}
    (h : w.chain.call caller target (.protocol (.harvest n)) = .ok r) : w.chain.Harvested caller n r := by
  obtain ⟨w', hchain, hm⟩ := move_of_call hw.linked hw.pool hc (Call.PoolSide.harvest n).permitted h
  have hlinked := (hw.move hc (Call.PoolSide.harvest n).permitted hm).linked
  obtain ⟨chain, reply, events⟩ := r
  subst hchain
  cases hm with
  | books hb => cases hb
  | noHarvest hk hn hi =>
    -- Some of the harvest is left for the pool, so it is for want of shares that none is indexed.
    have hshares : w.pool.shares = 0 := by
      have hpos : n - Protocol.bounty n ≠ 0 := by
        rw [Protocol.bounty_eq]
        omega
      obtain ⟨p, hp⟩ := hi.resolve_left hpos
      exact Pool.shares_eq_zero_of_indexed hpos hp
    exact ⟨fun _ => ⟨rfl, rfl⟩, fun hne => absurd (w.query_shares_iff.2 hshares) hne⟩
  | @harvest _ k s p t _ hk hn hi hpos hb ht =>
    obtain ⟨rfl, -⟩ := Protocol.addReserve_ok hb
    obtain ⟨-, ⟨hz, -⟩ | ⟨-, rfl, ha, -⟩⟩ := Pool.indexRewards_cases hi
    · exact absurd hz hpos
    obtain ⟨hflow, -⟩ := Token.transferFrom_flow ht
    rw [Protocol.bounty_eq] at ha hflow hpos hlinked ⊢
    refine ⟨fun hz => absurd (w.query_shares_iff.1 hz) ha.shares_pos, fun _ => ⟨rfl, Nat.pos_of_ne_zero hpos, ?_, ?_, ?_⟩⟩
    · have hleft : netReserve (w.protocol.reserve + (n - n / 100)) s.owed = netReserve w.protocol.reserve w.pool.owed := by
        rw [netReserve, ha.owed, Nat.add_sub_add_right, netReserve]
      refine ⟨_, w.query_state hw.linked.protocol.pool, (query_state _ hlinked.protocol.pool).trans ?_⟩
      change Except.ok (Reply.state ({ w.protocol with reserve := w.protocol.reserve + (n - n / 100) }.state s.owed)) = _
      rw [Protocol.state_congr hleft, ha.owed]
      rfl
    · refine ⟨_, w.query_balance _, (query_balance _ _).trans ?_⟩
      rw [coin_setCoin, if_pos rfl, hflow.balance_target hc.ne_protocol]
    · refine ⟨t.balance caller, (w.query_balance _).trans ?_, query_balance _ _⟩
      rw [hflow.balance_source hc.ne_protocol]

/-! ### Runs -/

/-- In every state of every wired run, the calls of the pool side leave all prices and quotes of the protocol as they are, and
harvests do what they should. -/
theorem prices_stay_after_wired (steps : List Step) (hs : ∀ s ∈ steps, s.Wired) (caller target : Address) (call : Call)
    (r : Receipt) (hc : caller.IsAccount) (hp : call.PoolSide)
    (h : (Launch.wired.after steps).call caller target call = .ok r) :
    (Launch.wired.after steps).SamePrices r.chain ∧
      ∀ n, call = .protocol (.harvest n) → (Launch.wired.after steps).Harvested caller n r := by
  obtain ⟨w, hchain, hw⟩ := exists_after_wired hs
  rw [hchain] at h ⊢
  obtain ⟨w', hchain', hm⟩ := move_of_call hw.linked hw.pool hc hp.permitted h
  rw [hchain']
  refine ⟨(hw.shifts hp hm).samePrices hw.linked.protocol.pool, ?_⟩
  rintro n rfl
  exact hw.harvested hc h

/-- Of another 199 the keeper keeps one. -/
theorem prices_stay_after_firstTrades :
    ∃ r : Receipt, (Launch.wired.after Launch.firstTrades).call Launch.keeper Launch.protocol
        (.protocol (.harvest 199)) = .ok r ∧ r.reply = .amount 1 ∧
      (Launch.wired.after Launch.firstTrades).SamePrices r.chain ∧
      (Launch.wired.after Launch.firstTrades).Harvested Launch.keeper 199 r := by
  have hreply : ((Launch.wired.after Launch.firstTrades).call Launch.keeper Launch.protocol
      (.protocol (.harvest 199))).map Receipt.reply = .ok (.amount 1) := by
    decide +kernel
  obtain ⟨r, hr, hreply⟩ := Outcome.map_eq_ok.1 hreply
  have hkeeper : Launch.keeper.IsAccount := trivial
  obtain ⟨hprices, hharvest⟩ := prices_stay_after_wired _ Launch.firstTrades_wired _ _ _ r hkeeper (.harvest 199) hr
  exact ⟨r, hr, hreply, hprices, hharvest 199 rfl⟩

end World

end SplitReserve
