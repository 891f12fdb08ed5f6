import SplitReserve.Proofs.Protocol.Execution
import SplitReserve.Proofs.World.Run

/-!
# Quotes

A quote is the price of an operation, without the operation.  For a user who can pay, the operation fails as its quote does, and
else it gives what was quoted, at the fee, the bonus and the level that were quoted.  Only the ledgers can come between: a quote
looks at the supply that a mint adds to, but neither at the reserve nor at the counter of all fees, and where those have no room
an operation fails that was quoted (`quote_unmet_after_filledTrades`).  Main statement: `quotes_hold_after_wired`.
-/

namespace SplitReserve

/-! ### Calls and events of an operation -/

namespace Operation

/-- The token that its user pays with. -/
def payment : Operation → Coin
  | mint _ => .reserve
  | redeem leg => leg.coin

def call (amount least : Nat) : Operation → Call
  | mint leg => .protocol (.mint leg amount least)
  | redeem leg => .protocol (.redeem leg amount least)

/-- What the protocol announces of an operation that was quoted at `q`. -/
def event (caller : Address) (amount : Nat) (q : Quote) (op : Operation) : Event :=
  match op with
  | mint _ => .minted caller op q.level amount q.out q.fee q.bonus
  | redeem _ => .redeemed caller op q.level amount q.out q.fee q.bonus

end Operation

namespace World

variable {w w' : World} {caller target : Address} {call : Call} {reply : Reply} {op : Operation} {amount least : Nat}
  {q : Priced} {e : Failure}

/-- The caller has the tokens that an operation takes, and lets the protocol draw those of a mint. -/
structure Funds (w : World) (caller : Address) (op : Operation) (amount : Nat) : Prop where
  balance : amount ≤ (w.coin op.payment).balance caller
  allowance : ∀ leg, op = .mint leg → amount ≤ (w.coin .reserve).allowance caller Launch.protocol

/-- What becomes of an operation, by its quote. -/
structure HoldsQuotes (w : World) (caller : Address) (op : Operation) (amount : Nat) : Prop where
  refused : ∀ (e : Failure) (least : Nat), w.chain.query Launch.protocol (.protocol (.quote op amount)) = .error e →
    w.chain.call caller Launch.protocol (op.call amount least) = .error e
  slippage : ∀ (q : Quote) (least : Nat), w.chain.query Launch.protocol (.protocol (.quote op amount)) = .ok (.quote q) →
    q.out < least → w.chain.call caller Launch.protocol (op.call amount least) = .error (.fault .slippageExceeded)
  /-- The user gets what was quoted, and the protocol announces that, once. -/
  executed : ∀ (q : Quote) (least : Nat), w.chain.query Launch.protocol (.protocol (.quote op amount)) = .ok (.quote q) →
    least ≤ q.out → w.protocol.Room op amount q →
    ∃ r, w.chain.call caller Launch.protocol (op.call amount least) = .ok r ∧ r.reply = .amount q.out ∧
      (r.events.filter fun e => e.1 = Launch.protocol) = [(Launch.protocol, op.event caller amount q)]
  /-- A ledger that the quote does not look at has no room. -/
  unmet : ∀ (q : Quote) (least : Nat), w.chain.query Launch.protocol (.protocol (.quote op amount)) = .ok (.quote q) →
    least ≤ q.out → ¬ w.protocol.Room op amount q →
    w.chain.call caller Launch.protocol (op.call amount least) = .error (.fault .mathOverflow)

/-! ### The protocol can mint -/

/-- The protocol mints both legs. -/
def Minting (w : World) : Prop := ∀ leg : Leg, (w.coin leg.coin).isMinter Launch.protocol = true

private theorem isMinter_setCoin {c : Coin} {t : Token} (ht : ∀ a, t.isMinter a = (w.coin c).isMinter a) (d : Coin)
    (a : Address) : ((w.setCoin c t).coin d).isMinter a = (w.coin d).isMinter a := by
  rw [coin_setCoin]
  split
  next h => rw [h, ht]
  next => rfl

/-- No permitted move makes a minter, or ends one. -/
theorem Move.isMinter (hn : call.Permitted target) (hm : w.Move caller target call reply w') (d : Coin) (a : Address) :
    (w'.coin d).isMinter a = (w.coin d).isMinter a := by
  cases hm with
  | token ht => exact isMinter_setCoin (Token.Call.isMinter hn.1 ht) d a
  | books | noRebalance | noHarvest | claimNothing | close => rfl
  | withdrawTreasury hp ht => exact isMinter_setCoin (Token.transfer_flow ht).1.isMinter d a
  | recapitalize hp ht => exact isMinter_setCoin (Token.transferFrom_flow ht).1.isMinter d a
  | bootstrap hp ht hf hx =>
    refine (isMinter_setCoin ?_ d a).trans ((isMinter_setCoin ?_ d a).trans (isMinter_setCoin ?_ d a))
    · exact (Token.mint_flow hx).1.isMinter
    · exact (Token.mint_flow hf).1.isMinter
    · exact (Token.transferFrom_flow ht).1.isMinter
  | mint hp ht hu =>
    refine (isMinter_setCoin ?_ d a).trans (isMinter_setCoin (Token.transferFrom_flow ht).1.isMinter d a)
    rw [coin_setReserve]
    exact (Token.mint_flow hu).1.isMinter
  | @redeem leg _ _ p _ _ u _ _ hp hu ht =>
    refine (isMinter_setCoin ?_ d a).trans (isMinter_setCoin (Token.burnFrom_flow hu).1.isMinter d a)
    rw [coin_setCoin, if_neg leg.coin_ne_reserve.symm]
    exact (Token.transfer_flow ht).1.isMinter
  | rebalance hk ht hplan hp hb hle hf ho => exact isMinter_setCoin (Token.burnFrom_flow hf).1.isMinter d a
  | harvest hk hn hi hpos hp ht => exact isMinter_setCoin (Token.transferFrom_flow ht).1.isMinter d a
  | deposit hp ht => exact isMinter_setCoin (Token.transferFrom_flow ht).1.isMinter d a
  | withdraw hp ht => exact isMinter_setCoin (Token.transfer_flow ht).1.isMinter d a
  | claim hs hpos hp ht => exact isMinter_setCoin (Token.transfer_flow ht).1.isMinter d a

theorem wired_minting (leg : Leg) :
    Launch.wired.query leg.coin.address (.token (.isMinter Launch.protocol)) = .ok (.flag true) := by
  cases leg <;> decide +kernel

theorem exists_after_wired_minting {steps : List Step} (hs : ∀ s ∈ steps, s.Wired) :
    ∃ w : World, Launch.wired.after steps = w.chain ∧ w.Sound ∧ w.Minting := by
  obtain ⟨v, hchain, hv⟩ := exists_wired
  have hminting : v.Minting := by
    intro leg
    have h := wired_minting leg
    rw [hchain, query_coin] at h
    exact Reply.flag.inj (Except.ok.inj h)
  obtain ⟨w, h, hw, hm⟩ := hv.exists_after hminting hs fun s _ u u' _ hnext hu => by
    cases hnext with
    | refused | wait => exact hu
    | move _ hn hm => exact fun leg => (hm.isMinter hn leg.coin Launch.protocol).trans (hu leg)
  exact ⟨w, hchain ▸ h, hw, hm⟩

/-! ### From the quote to the call -/

theorem query_quote (hl : w.Linked) : w.chain.query Launch.protocol (.protocol (.quote op amount)) =
    (w.protocol.price w.now (.ok w.pool.owed) op amount).map fun q => .quote q.quote := by
  rw [query_protocol, Protocol.Query.answer, Protocol.quote, owed_eq w hl.protocol.pool]
  change Except.map _ (w.protocol.price w.now _ op amount >>= _) = _
  cases w.protocol.price w.now (.ok w.pool.owed) op amount <;> rfl

/-- An operation that is not booked is not carried out. -/
theorem call_of_trade_error (hl : w.Linked)
    (h : w.protocol.trade w.now (.ok w.pool.owed) op amount least = .error e) :
    w.chain.call caller Launch.protocol (op.call amount least) = .error e := by
  have howed := owed_eq w hl.protocol.pool
  refine Outcome.bind_eq_error.2 (Or.inl ?_)
  cases op with
  | mint leg =>
    change w.protocol.mint w.chain.now _ leg amount least = _ at h
    change Chain.run caller Launch.protocol (.protocol (.mint leg amount least)) ⟨w.chain, []⟩ = _
    simp only [Chain.run, Protocol.Call.run, Protocol.runMint, Work.bind_apply, Work.lift_apply, Work.chain_apply,
      callee_protocol, Outcome.ok_bind, howed, h]
    rfl
  | redeem leg =>
    change w.protocol.redeem w.chain.now _ leg amount least = _ at h
    change Chain.run caller Launch.protocol (.protocol (.redeem leg amount least)) ⟨w.chain, []⟩ = _
    simp only [Chain.run, Protocol.Call.run, Protocol.runRedeem, Work.bind_apply, Work.lift_apply, Work.chain_apply,
      callee_protocol, Outcome.ok_bind, howed, h]
    rfl

/-- Grouping by contract keeps what the protocol announces, and its order. -/
theorem filter_grouped (w : World) (es : List (Address × Event)) :
    ((w.chain.grouped es).filter fun e => e.1 = Launch.protocol) = es.filter fun e => e.1 = Launch.protocol := by
  have hother : ∀ a, a ≠ Launch.protocol → (es.filter fun e => e.1 = a).filter (fun e => e.1 = Launch.protocol) = [] := by
    intro a ha
    rw [List.filter_eq_nil_iff]
    intro e he hp
    have := (List.mem_filter.1 he).2
    simp only [decide_eq_true_eq] at this hp
    exact ha (this.symm.trans hp)
  simp only [Chain.grouped, chain, List.flatMap_cons, List.flatMap_nil, List.filter_append,
    hother _ (Coin.address_ne_protocol _), hother _ Launch.protocol_ne_pool.symm, List.filter_filter, Bool.and_self,
    List.nil_append, List.append_nil]

/-- When two tokens and then the protocol have announced something, the protocol has announced that alone. -/
theorem filter_announced (w : World) (c d : Coin) (es fs : List Event) (e : Event) :
    ((w.chain.grouped ((es.map fun e => (c.address, e)) ++ (fs.map fun e => (d.address, e)) ++ [(Launch.protocol, e)])).filter
      fun e => e.1 = Launch.protocol) = [(Launch.protocol, e)] := by
  have hnone : ∀ (c : Coin) (es : List Event),
      (es.map fun e => (c.address, e)).filter (fun e => e.1 = Launch.protocol) = [] := by
    intro c es
    rw [List.filter_eq_nil_iff]
    intro e he hp
    obtain ⟨_, -, rfl⟩ := List.mem_map.1 he
    exact c.address_ne_protocol (of_decide_eq_true hp)
  rw [filter_grouped, List.filter_append, List.filter_append, hnone, hnone]
  simp

/-- An operation that is priced, gives enough and has room is carried out at its price. -/
theorem Sound.exists_executed (hw : w.Sound) (hm : w.Minting) (hf : w.Funds caller op amount)
    (h : w.protocol.price w.now (.ok w.pool.owed) op amount = .ok q) (hl : least ≤ q.out)
    (hroom : w.protocol.Room op amount q.quote) :
    ∃ r, w.chain.call caller Launch.protocol (op.call amount least) = .ok r ∧ r.reply = .amount q.out ∧
      (r.events.filter fun e => e.1 = Launch.protocol) = [(Launch.protocol, op.event caller amount q.quote)] := by
  obtain ⟨p, htrade⟩ := Protocol.exists_trade hw.treasury h hl hroom
  cases op with
  | mint leg =>
    obtain ⟨-, -, -, -, -, hfit⟩ := Protocol.price_mint_ok h
    have hsupply : (w.coin leg.coin).supply + q.out < wideLimit :=
      (Nat.add_le_add_right (hw.supply_le leg) _).trans_lt (hfit.trans (by decide))
    obtain ⟨t, log, ht⟩ := (hw.ordered .reserve).whole.exists_transferFrom hf.balance (hf.allowance leg rfl) Launch.protocol
    obtain ⟨u, logU, hu⟩ := (hw.ordered leg.coin).whole.exists_mint (hm leg) hsupply caller
    exact ⟨_, Outcome.bind_eq_ok.2 ⟨_, run_mint hw.linked htrade ht hu, rfl⟩, rfl, filter_announced w _ _ _ _ _⟩
  | redeem leg =>
    obtain ⟨-, -, hout, hcharge, -, -, hnet⟩ := Protocol.price_redeem_ok h
    -- The payout is there: the gross amount is in the reserve, and the bonus in the treasury.
    have hpay : q.out ≤ (w.coin .reserve).balance Launch.protocol := by
      have := hw.held
      have := hcharge.net
      have := hcharge.bonus_le
      omega
    obtain ⟨u, logU, hu⟩ := (hw.ordered leg.coin).whole.exists_burnFrom (hm leg) hf.balance
    obtain ⟨t, log, ht⟩ := (hw.ordered .reserve).whole.exists_move hpay caller
    exact ⟨_, Outcome.bind_eq_ok.2 ⟨_, run_redeem hw.linked htrade hu ht, rfl⟩, rfl, filter_announced w _ _ _ _ _⟩

theorem Sound.holdsQuotes (hw : w.Sound) (hm : w.Minting) (hf : w.Funds caller op amount) :
    w.HoldsQuotes caller op amount := by
  have hprice : ∀ q : Quote, w.chain.query Launch.protocol (.protocol (.quote op amount)) = .ok (.quote q) →
      ∃ priced : Priced, w.protocol.price w.now (.ok w.pool.owed) op amount = .ok priced ∧ priced.quote = q := by
    intro q hq
    rw [query_quote hw.linked] at hq
    obtain ⟨priced, h, e⟩ := Outcome.map_eq_ok.1 hq
    exact ⟨priced, h, Reply.quote.inj e⟩
  refine ⟨?_, ?_, ?_, ?_⟩
  · intro e least h
    rw [query_quote hw.linked, Outcome.map_eq_error] at h
    exact call_of_trade_error hw.linked (Protocol.trade_of_unpriced h)
  · intro q least hq hl
    obtain ⟨priced, h, rfl⟩ := hprice q hq
    exact call_of_trade_error hw.linked (Protocol.trade_of_slippage h hl)
  · intro q least hq hl hroom
    obtain ⟨priced, h, rfl⟩ := hprice q hq
    exact hw.exists_executed hm hf h hl hroom
  · intro q least hq hl hroom
    obtain ⟨priced, h, rfl⟩ := hprice q hq
    exact call_of_trade_error hw.linked (Protocol.trade_of_not_room hw.treasury h hl hroom)

/-- In every state of every wired run, what becomes of an operation of a user who can pay is what its quote says, as far as the
ledgers have room. -/
theorem quotes_hold_after_wired (steps : List Step) (hs : ∀ s ∈ steps, s.Wired) :
    ∃ w : World, Launch.wired.after steps = w.chain ∧ ∀ (caller : Address) (op : Operation) (amount : Nat),
      w.Funds caller op amount → w.HoldsQuotes caller op amount := by
  obtain ⟨w, hchain, hw, hm⟩ := exists_after_wired_minting hs
  exact ⟨w, hchain, fun _ _ _ hf => hw.holdsQuotes hm hf⟩

theorem quote_executed_after_firstTrades : ∃ r : Receipt,
    (Launch.wired.after Launch.firstTrades).query Launch.protocol (.protocol (.quote (.mint .x) priceScale)) =
      .ok (.quote ⟨1990000000, 5000000, 0, .normal⟩) ∧
    (Launch.wired.after Launch.firstTrades).call Launch.bob Launch.protocol (.protocol (.mint .x priceScale 1990000000)) = .ok r ∧
    r.reply = .amount 1990000000 ∧ (r.events.filter fun e => e.1 = Launch.protocol) =
      [(Launch.protocol, .minted Launch.bob (.mint .x) .normal priceScale 1990000000 5000000 0)] := by
  have hquote : (Launch.wired.after Launch.firstTrades).query Launch.protocol (.protocol (.quote (.mint .x) priceScale)) =
      .ok (.quote ⟨1990000000, 5000000, 0, .normal⟩) := by
    decide +kernel
  have hbalance : (Launch.wired.after Launch.firstTrades).query Coin.reserve.address (.token (.balance Launch.bob)) =
      .ok (.amount 1000000000000000) := by
    decide +kernel
  have hallowance : (Launch.wired.after Launch.firstTrades).query Coin.reserve.address
      (.token (.allowance Launch.bob Launch.protocol)) = .ok (.amount maxWord) := by
    decide +kernel
  have htreasury : (Launch.wired.after Launch.firstTrades).query Launch.protocol (.protocol .breakdown) =
      .ok (.treasury ⟨500000000, 500000000, 500000000, 0, 0, 0, 0, 0⟩) := by
    decide +kernel
  have hreserve : (Launch.wired.after Launch.firstTrades).query Launch.protocol (.protocol .reserve) =
      .ok (.amount 1109400000000) := by
    decide +kernel
  obtain ⟨w, hchain, hholds⟩ := quotes_hold_after_wired _ Launch.firstTrades_wired
  rw [hchain] at hquote hbalance hallowance htreasury hreserve ⊢
  rw [query_coin] at hbalance hallowance
  rw [query_protocol] at htreasury hreserve
  have hfunds : w.Funds Launch.bob (.mint .x) priceScale := by
    refine ⟨?_, fun _ _ => ?_⟩
    · exact (by decide : priceScale ≤ 1000000000000000).trans_eq (Reply.amount.inj (Except.ok.inj hbalance)).symm
    · exact (by decide : priceScale ≤ maxWord).trans_eq (Reply.amount.inj (Except.ok.inj hallowance)).symm
  have hroom : w.protocol.Room (.mint .x) priceScale ⟨1990000000, 5000000, 0, .normal⟩ := by
    have ht : w.protocol.treasury = _ := Reply.treasury.inj (Except.ok.inj htreasury)
    have hr : w.protocol.reserve = _ := Reply.amount.inj (Except.ok.inj hreserve)
    rw [Protocol.Room, Treasury.Room, ht, hr]
    exact ⟨fun _ => by decide, fun _ _ => by decide⟩
  obtain ⟨r, hr, hreply, hevents⟩ := (hholds _ _ _ hfunds).executed _ 1990000000 hquote le_rfl hroom
  exact ⟨r, hquote, hr, hreply, hevents⟩

end World

/-! ### A full reserve -/

namespace Launch

/-- The admin fills the reserve to the largest word. -/
def filledTrades : List Step :=
  [.call admin protocol (.protocol (.bootstrap firstReserve)),
    .call admin reserveToken (.token (.mint admin maxWord)),
    .call admin protocol (.protocol (.recapitalize (maxWord - firstReserve)))]

theorem filledTrades_wired : ∀ s ∈ filledTrades, s.Wired := by
  simp [filledTrades, Step.Wired, Call.Permitted, Token.Call.Managing, admin, Address.IsAccount]

end Launch

/-- A mint is quoted, its user can pay, and still it fails: there is no room in the reserve for what it brings. -/
theorem World.quote_unmet_after_filledTrades : (∀ s ∈ Launch.filledTrades, s.Wired) ∧
    (Launch.wired.after Launch.filledTrades).query Launch.protocol (.protocol (.quote (.mint .f) priceScale)) =
      .ok (.quote ⟨1990000000, 5000000, 0, .normal⟩) ∧
    (Launch.wired.after Launch.filledTrades).query Launch.reserveToken (.token (.balance Launch.bob)) =
      .ok (.amount 1000000000000000) ∧
    (Launch.wired.after Launch.filledTrades).query Launch.reserveToken (.token (.allowance Launch.bob Launch.protocol)) =
      .ok (.amount maxWord) ∧
    (Launch.wired.after Launch.filledTrades).call Launch.bob Launch.protocol (.protocol (.mint .f priceScale 0)) =
      .error (.fault .mathOverflow) := by
  have hreply : ((Launch.wired.after Launch.filledTrades).call Launch.bob Launch.protocol
      (.protocol (.mint .f priceScale 0))).map Receipt.reply = .error (.fault .mathOverflow) := by
    decide +kernel
  exact ⟨Launch.filledTrades_wired, by decide +kernel, by decide +kernel, by decide +kernel, Outcome.map_eq_error.1 hreply⟩

end SplitReserve
