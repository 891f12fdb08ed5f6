import SplitReserve.Proofs.Exchange
import SplitReserve.Proofs.Quotes
import SplitReserve.Proofs.Rebalance

/-!
# What operations move

A mint moves the reserve tokens that its user pays to the protocol, and a redemption moves what it pays to its user.  The fee and
the bonus only shift what is the reserve's and what is the treasury's: the two together change by just what is moved
(`World.Minted.conserved`, `World.Redeemed.conserved`).  All that is written is said in `World.Minted` and `World.Redeemed`, so
nothing else is.  Main statement: `World.operations_conserve_after_wired`.
-/

namespace SplitReserve

namespace Token

variable {t t' : Token} {caller a : Address} {n : Nat} {es : List Event}

theorem mint_ok (h : t.mint caller a n = .ok (t', es)) :
    t' = (t.setBalance a (t.balance a + n)).setSupply (t.supply + n) ∧ es = [.mint a n] := by
  simp only [mint, Outcome.bind_eq_ok, addWide_eq_ok] at h
  obtain ⟨-, -, balance, ⟨-, rfl⟩, supply, ⟨-, rfl⟩, h⟩ := h
  cases h
  exact ⟨rfl, rfl⟩

theorem burnFrom_ok (h : t.burnFrom caller a n = .ok (t', es)) :
    n ≤ t.balance a ∧ n ≤ t.supply ∧ t' = (t.setBalance a (t.balance a - n)).setSupply (t.supply - n) ∧ es = [.burn a n] := by
  simp only [burnFrom, destroy, Outcome.bind_eq_ok, require_eq_ok, subtract_eq_ok] at h
  obtain ⟨-, -, -, hn, supply, ⟨hs, rfl⟩, h⟩ := h
  cases h
  exact ⟨hn, hs, rfl, rfl⟩

/-- What a vault draws is there and allowed. -/
theorem Whole.draw_ok {v : Address} (hw : t.Whole) (hav : a ≠ v) (hn : n ≠ 0) (h : t.transferFrom v a v n = .ok (t', es)) :
    n ≤ t.balance a ∧ n ≤ t.allowance a v ∧ t' = t.exchange a v n 0 ∧
      es = [.transfer a v n, .approval a v (t.allowance a v - n)] := by
  simp only [hw.draw_eq hav hn, Outcome.bind_eq_ok, require_eq_ok] at h
  obtain ⟨-, hallowed, -, hbalance, h⟩ := h
  cases h
  exact ⟨hbalance, hallowed, rfl, rfl⟩

/-- What a vault pays is there. -/
theorem Whole.pay_ok {v : Address} (hw : t.Whole) (hav : a ≠ v) (hn : n ≠ 0) (h : t.transfer v a n = .ok (t', es)) :
    n ≤ t.balance v ∧ t' = t.exchange a v 0 n ∧ es = [.transfer v a n] := by
  obtain ⟨-, hle, -⟩ := transfer_flow h
  rw [hw.pay_eq hav hn hle] at h
  cases h
  exact ⟨hle, rfl, rfl⟩

theorem allowance_exchange (t : Token) (a v : Address) (drawn paid : Nat) :
    (t.exchange a v drawn paid).allowance a v = t.allowance a v - drawn := by
  unfold exchange
  split
  next h => rw [h.1, Nat.sub_zero]
  next =>
    unfold spend
    split
    next hz =>
      rw [hz, Nat.sub_zero]
      rfl
    next => rw [allowance_setAllowance, if_pos ⟨rfl, rfl⟩, allowance_setBalance, allowance_setBalance]

end Token

/-- No redemption pays nothing. -/
theorem Protocol.redeem_out_ne_zero {p p' : Protocol} {now amount least : Nat} {owed : Outcome Nat} {leg : Leg} {q : Priced}
    (h : p.redeem now owed leg amount least = .ok (p', q)) : q.out ≠ 0 := by
  simp only [redeem, Outcome.bind_eq_ok] at h
  obtain ⟨⟨p₁, q₁⟩, hs, _, -, _, -, h⟩ := h
  cases h
  obtain ⟨hprice, -⟩ := settle_ok hs
  simp only [price, Outcome.bind_eq_ok, require_eq_ok] at hprice
  obtain ⟨-, -, _, -, _, -, _, -, -, hout, -, -, h⟩ := hprice
  cases h
  exact hout

namespace World

variable {w w' : World} {a : Address} {leg : Leg} {amount least : Nat} {q : Quote}

/-! ### What is written -/

/-- What every operation of `a` with the tokens of `leg` writes besides the reserve and the supply: the treasury has the fee and
has paid the bonus, and of the tokens of `leg` there is a new balance of `a` and a new supply.  Nothing else changes but
the reserve token. -/
structure Traded (w : World) (a : Address) (op : Operation) (leg : Leg) (q : Quote) (w' : World) : Prop where
  covered : q.bonus ≤ w.protocol.treasury.balance
  treasury : w'.protocol.treasury.balance + q.bonus = w.protocol.treasury.balance + q.fee
  counters : w'.protocol.treasury =
    { w.protocol.treasury.setCollectedBy op (w.protocol.treasury.collectedBy op + q.fee) with
      balance := w'.protocol.treasury.balance
      collected := w.protocol.treasury.collected + q.fee
      bonuses := w.protocol.treasury.bonuses + q.bonus }
  protocol : w'.protocol =
    { w.protocol with treasury := w'.protocol.treasury, reserve := w'.protocol.reserve }.setSupply leg (w'.protocol.supply leg)
  token : w'.coin leg.coin =
    ((w.coin leg.coin).setBalance a ((w'.coin leg.coin).balance a)).setSupply (w'.coin leg.coin).supply
  other : ∀ k : Coin, k ≠ .reserve → k ≠ leg.coin → w'.coin k = w.coin k
  pool : w'.pool = w.pool
  clock : w'.clock = w.clock

/-- What a mint for `amount` of the reserve moves and writes. -/
structure Minted (w : World) (a : Address) (leg : Leg) (amount : Nat) (q : Quote) (w' : World) : Prop
    extends Traded w a (.mint leg) leg q w' where
  fee_le : q.fee ≤ amount
  paid : (w'.coin .reserve).balance a + amount = (w.coin .reserve).balance a
  received : (w'.coin .reserve).balance Launch.protocol = (w.coin .reserve).balance Launch.protocol + amount
  allowance : (w'.coin .reserve).allowance a Launch.protocol + amount = (w.coin .reserve).allowance a Launch.protocol
  reserve : w'.protocol.reserve + q.fee = w.protocol.reserve + amount + q.bonus
  supply : w'.protocol.supply leg = w.protocol.supply leg + q.out
  issued : (w'.coin leg.coin).supply = (w.coin leg.coin).supply + q.out
  balance : (w'.coin leg.coin).balance a = (w.coin leg.coin).balance a + q.out
  reserveToken : w'.coin .reserve = (w.coin .reserve).exchange a Launch.protocol amount 0

/-- What a redemption of `amount` tokens moves and writes.  The pool is left what it is owed. -/
structure Redeemed (w : World) (a : Address) (leg : Leg) (amount : Nat) (q : Quote) (w' : World) : Prop
    extends Traded w a (.redeem leg) leg q w' where
  reserve : w'.protocol.reserve + (q.out + q.fee) = w.protocol.reserve + q.bonus
  bonus_le : q.bonus ≤ q.out + q.fee
  reserve_covers : q.out + q.fee - q.bonus ≤ w.protocol.reserve - w.pool.owed
  supply : w'.protocol.supply leg + amount = w.protocol.supply leg
  issued : (w'.coin leg.coin).supply + amount = (w.coin leg.coin).supply
  balance : (w'.coin leg.coin).balance a + amount = (w.coin leg.coin).balance a
  paid : (w'.coin .reserve).balance Launch.protocol + q.out = (w.coin .reserve).balance Launch.protocol
  received : (w'.coin .reserve).balance a = (w.coin .reserve).balance a + q.out
  reserveToken : w'.coin .reserve = (w.coin .reserve).exchange a Launch.protocol 0 q.out

/-- What an operation does, and what it announces. -/
inductive Trades (w : World) (a : Address) : Operation → Nat → Receipt → Prop
  | mint {leg : Leg} {amount : Nat} {q : Quote} {w' : World} (h : w.Minted a leg amount q w') :
      Trades w a (.mint leg) amount ⟨w'.chain, .amount q.out,
        [(Coin.reserve.address, .transfer a Launch.protocol amount),
          (Coin.reserve.address, .approval a Launch.protocol ((w'.coin .reserve).allowance a Launch.protocol)),
          (leg.coin.address, .mint a q.out), (Launch.protocol, (Operation.mint leg).event a amount q)]⟩
  | redeem {leg : Leg} {amount : Nat} {q : Quote} {w' : World} (h : w.Redeemed a leg amount q w') :
      Trades w a (.redeem leg) amount ⟨w'.chain, .amount q.out,
        [(Coin.reserve.address, .transfer Launch.protocol a q.out), (leg.coin.address, .burn a amount),
          (Launch.protocol, (Operation.redeem leg).event a amount q)]⟩

theorem Minted.conserved (h : w.Minted a leg amount q w') :
    w'.protocol.reserve + w'.protocol.treasury.balance = w.protocol.reserve + w.protocol.treasury.balance + amount := by
  have := h.reserve
  have := h.treasury
  omega

theorem Redeemed.conserved (h : w.Redeemed a leg amount q w') :
    w'.protocol.reserve + w'.protocol.treasury.balance + q.out = w.protocol.reserve + w.protocol.treasury.balance := by
  have := h.reserve
  have := h.treasury
  omega

/-! ### From the books and the tokens -/

/-- The treasury pays a bonus that it has, and counts it and the fee. -/
private theorem counters_of_settle {t t' : Treasury} {op : Operation} {fee bonus : Nat} (h : t.settle op fee bonus = .ok t') :
    bonus ≤ t.balance ∧ t'.balance + bonus = t.balance + fee ∧
      t' = { t.setCollectedBy op (t.collectedBy op + fee) with
        balance := t'.balance, collected := t.collected + fee, bonuses := t.bonuses + bonus } := by
  obtain ⟨hle, rfl, -⟩ := Treasury.settle_ok h
  refine ⟨hle, ?_, rfl⟩
  dsimp only
  omega

private theorem traded_of {op : Operation} (hs : w.protocol.treasury.settle op q.fee q.bonus = .ok w'.protocol.treasury)
    (hprotocol : w'.protocol = { w.protocol with treasury := w'.protocol.treasury, reserve := w'.protocol.reserve }.setSupply leg
      (w'.protocol.supply leg))
    {balance supply : Nat} (htoken : w'.coin leg.coin = ((w.coin leg.coin).setBalance a balance).setSupply supply)
    (hother : ∀ k : Coin, k ≠ .reserve → k ≠ leg.coin → w'.coin k = w.coin k) (hpool : w'.pool = w.pool)
    (hclock : w'.clock = w.clock) : w.Traded a op leg q w' := by
  obtain ⟨hle, hbalance, hcounters⟩ := counters_of_settle hs
  refine ⟨hle, hbalance, hcounters, hprotocol, ?_, hother, hpool, hclock⟩
  have hheld : (w'.coin leg.coin).balance a = balance := by
    rw [htoken, Token.balance_setSupply, Token.balance_setBalance, if_pos rfl]
  have hsupply : (w'.coin leg.coin).supply = supply := by rw [htoken, Token.supply_setSupply]
  rw [hheld, hsupply, htoken]

private theorem setCoin_comm (w : World) {k l : Coin} (h : k ≠ l) (t u : Token) :
    (w.setCoin k t).setCoin l u = (w.setCoin l u).setCoin k t :=
  congrArg (fun coin => { w with coin }) (Function.update_comm h t u w.coin)

/-- The world after an operation, with its books, its reserve token and the token of `leg`. -/
def settled (w : World) (p : Protocol) (t : Token) (leg : Leg) (u : Token) : World :=
  ((w.setProtocol p).setCoin .reserve t).setCoin leg.coin u

private theorem reserve_settled (p : Protocol) (t u : Token) : (w.settled p t leg u).coin .reserve = t := by
  rw [settled, coin_setCoin, if_neg leg.coin_ne_reserve.symm, coin_setCoin, if_pos rfl]

private theorem token_settled (p : Protocol) (t u : Token) : (w.settled p t leg u).coin leg.coin = u := by
  rw [settled, coin_setCoin, if_pos rfl]

private theorem other_settled (p : Protocol) (t u : Token) (k : Coin) (hr : k ≠ .reserve) (hl : k ≠ leg.coin) :
    (w.settled p t leg u).coin k = w.coin k := by
  rw [settled, coin_setCoin, if_neg hl, coin_setCoin, if_neg hr, coin_setProtocol]

theorem Sound.minted (hw : w.Sound) (ha : a.IsAccount) {p : Protocol} {q : Priced} {t u : Token} {log logU : List Event}
    (hp : w.protocol.mint w.now (.ok w.pool.owed) leg amount least = .ok (p, q))
    (ht : (w.coin .reserve).transferFrom Launch.protocol a Launch.protocol amount = .ok (t, log))
    (hu : (w.coin leg.coin).mint Launch.protocol a q.out = .ok (u, logU)) :
    w.Minted a leg amount q.quote (w.settled p t leg u) := by
  obtain ⟨hm, -⟩ := Protocol.mint_ok hp
  have hpos : amount ≠ 0 := hm.gross ▸ hm.charge.gross_pos
  have hfee : q.charge.fee ≤ amount := hm.gross ▸ hm.charge.fee_le
  have hnet : q.charge.net = amount - q.charge.fee + q.charge.bonus := hm.gross ▸ hm.charge.net
  have hreserve := hm.reserve
  have hsupply : p.supply leg = w.protocol.supply leg + q.out := (hm.supply leg).trans (if_pos rfl)
  obtain ⟨hheld, hallowed, htoken, -⟩ := (hw.ordered .reserve).whole.draw_ok ha.ne_protocol hpos ht
  obtain ⟨hissued, -⟩ := Token.mint_ok hu
  have htraded : w.Traded a (.mint leg) leg q.quote (w.settled p t leg u) := by
    refine traded_of hm.settled ?_ ((token_settled p t u).trans hissued) (other_settled p t u) rfl rfl
    change p = { w.protocol with treasury := p.treasury, reserve := p.reserve }.setSupply leg (p.supply leg)
    rw [hreserve, hsupply]
    exact hm.books
  refine { htraded with
    fee_le := hfee
    paid := ?_, received := ?_, allowance := ?_, reserve := ?_
    supply := hsupply
    issued := ?_, balance := ?_
    reserveToken := (reserve_settled p t u).trans htoken }
  · rw [reserve_settled, htoken, Token.balance_exchange, if_neg ha.ne_protocol, if_pos rfl]
    omega
  · rw [reserve_settled, htoken, Token.balance_exchange, if_pos rfl, Nat.sub_zero]
  · rw [reserve_settled, htoken, Token.allowance_exchange]
    omega
  · change p.reserve + q.charge.fee = w.protocol.reserve + amount + q.charge.bonus
    omega
  · rw [token_settled, hissued, Token.supply_setSupply]
    rfl
  · rw [token_settled, hissued, Token.balance_setSupply, Token.balance_setBalance, if_pos rfl]
    rfl

theorem Sound.redeemed (hw : w.Sound) (ha : a.IsAccount) {p : Protocol} {q : Priced} {t u : Token} {log logU : List Event}
    (hp : w.protocol.redeem w.now (.ok w.pool.owed) leg amount least = .ok (p, q))
    (hu : (w.coin leg.coin).burnFrom Launch.protocol a amount = .ok (u, logU))
    (ht : (w.coin .reserve).transfer Launch.protocol a q.out = .ok (t, log)) :
    w.Redeemed a leg amount q.quote (w.settled p t leg u) := by
  obtain ⟨hm, -⟩ := Protocol.redeem_ok hp
  have hout := hm.out
  have hfee := hm.charge.fee_le
  have hnet := hm.charge.net
  have hle := hm.amount_le
  have hgross := hm.gross_le_net
  have hreserve := hm.reserve
  have hsupply : p.supply leg = w.protocol.supply leg - amount := (hm.supply leg).trans (if_pos rfl)
  obtain ⟨hpaid, htoken, -⟩ := (hw.ordered .reserve).whole.pay_ok ha.ne_protocol (Protocol.redeem_out_ne_zero hp) ht
  obtain ⟨hheld, hsupplied, hburned, -⟩ := Token.burnFrom_ok hu
  have htraded : w.Traded a (.redeem leg) leg q.quote (w.settled p t leg u) := by
    refine traded_of hm.settled ?_ ((token_settled p t u).trans hburned) (other_settled p t u) rfl rfl
    change p = { w.protocol with treasury := p.treasury, reserve := p.reserve }.setSupply leg (p.supply leg)
    rw [hreserve, hsupply]
    exact hm.books
  refine { htraded with
    reserve := ?_, bonus_le := ?_, reserve_covers := ?_, supply := ?_, issued := ?_, balance := ?_, paid := ?_, received := ?_
    reserveToken := (reserve_settled p t u).trans htoken }
  · change p.reserve + (q.out + q.charge.fee) = w.protocol.reserve + q.charge.bonus
    omega
  · change q.charge.bonus ≤ q.out + q.charge.fee
    omega
  · change q.out + q.charge.fee - q.charge.bonus ≤ w.protocol.reserve - w.pool.owed
    omega
  · change p.supply leg + amount = w.protocol.supply leg
    omega
  · rw [token_settled, hburned, Token.supply_setSupply]
    omega
  · rw [token_settled, hburned, Token.balance_setSupply, Token.balance_setBalance, if_pos rfl]
    omega
  · rw [reserve_settled, htoken, Token.balance_exchange, if_pos rfl, Nat.add_zero]
    exact Nat.sub_add_cancel hpaid
  · rw [reserve_settled, htoken, Token.balance_exchange, if_neg ha.ne_protocol, if_pos rfl, Nat.sub_zero]
    rfl

/-! ### From the call -/

private theorem filter_tagged (k : Coin) (a : Address) (es : List Event) :
    (es.map fun e => (k.address, e)).filter (fun e => e.1 = a) = if k.address = a then es.map fun e => (k.address, e) else [] := by
  have hconst : ((fun e : Address × Event => decide (e.1 = a)) ∘ fun e : Event => (k.address, e)) = fun _ => decide (k.address = a) :=
    rfl
  rw [List.filter_map, hconst]
  by_cases h : k.address = a
  · rw [if_pos h, decide_eq_true h, List.filter_true]
  · rw [if_neg h, decide_eq_false h, List.filter_false, List.map_nil]

/-- A receipt lists the events of the reserve token first, and those of the protocol last. -/
private theorem grouped_operation (w : World) (leg : Leg) (rs ls : List Event) (e : Event) :
    w.chain.grouped ((rs.map fun e => (Coin.reserve.address, e)) ++ (ls.map fun e => (leg.coin.address, e)) ++
        [(Launch.protocol, e)]) =
      (rs.map fun e => (Coin.reserve.address, e)) ++ (ls.map fun e => (leg.coin.address, e)) ++ [(Launch.protocol, e)] ∧
    w.chain.grouped ((ls.map fun e => (leg.coin.address, e)) ++ (rs.map fun e => (Coin.reserve.address, e)) ++
        [(Launch.protocol, e)]) =
      (rs.map fun e => (Coin.reserve.address, e)) ++ (ls.map fun e => (leg.coin.address, e)) ++ [(Launch.protocol, e)] := by
  cases leg <;>
    simp [Chain.grouped, chain, Leg.coin, filter_tagged, List.filter_cons, Coin.address_inj, Coin.address_ne_protocol,
      Coin.address_ne_pool, (Coin.address_ne_protocol _).symm, Launch.protocol_ne_pool]

/-- What an operation that succeeds has written to the books and to the tokens. -/
private theorem Move.exists_mint {target : Address} {reply : Reply}
    (hm : w.Move a target (.protocol (.mint leg amount least)) reply w') :
    ∃ (p : Protocol) (q : Priced) (t u : Token) (log logU : List Event),
      w.protocol.mint w.now (.ok w.pool.owed) leg amount least = .ok (p, q) ∧
      (w.coin .reserve).transferFrom Launch.protocol a Launch.protocol amount = .ok (t, log) ∧
      (w.coin leg.coin).mint Launch.protocol a q.out = .ok (u, logU) := by
  cases hm with
  | books hb => cases hb
  | mint hp ht hu => exact ⟨_, _, _, _, _, _, hp, ht, hu⟩

private theorem Move.exists_redeem {target : Address} {reply : Reply}
    (hm : w.Move a target (.protocol (.redeem leg amount least)) reply w') :
    ∃ (p : Protocol) (q : Priced) (t u : Token) (log logU : List Event),
      w.protocol.redeem w.now (.ok w.pool.owed) leg amount least = .ok (p, q) ∧
      (w.coin leg.coin).burnFrom Launch.protocol a amount = .ok (u, logU) ∧
      (w.coin .reserve).transfer Launch.protocol a q.out = .ok (t, log) := by
  cases hm with
  | books hb => cases hb
  | redeem hp hu ht => exact ⟨_, _, _, _, _, _, hp, hu, ht⟩

/-- What a mint that succeeds has booked and written to the tokens, and its receipt. -/
theorem Sound.mint_receipt (hw : w.Sound) (ha : a.IsAccount) {r : Receipt}
    (h : w.chain.call a Launch.protocol (.protocol (.mint leg amount least)) = .ok r) :
    ∃ (p : Protocol) (q : Priced) (t u : Token), w.protocol.mint w.now (.ok w.pool.owed) leg amount least = .ok (p, q) ∧
      w.Minted a leg amount q.quote (w.settled p t leg u) ∧
      r = ⟨(w.settled p t leg u).chain, .amount q.out,
        [(Coin.reserve.address, .transfer a Launch.protocol amount),
          (Coin.reserve.address, .approval a Launch.protocol ((w.coin .reserve).allowance a Launch.protocol - amount)),
          (leg.coin.address, .mint a q.out), (Launch.protocol, (Operation.mint leg).event a amount q.quote)]⟩ := by
  have hperm : Call.Permitted Launch.protocol (.protocol (.mint leg amount least)) := fun _ => Protocol.Call.noConfusion
  obtain ⟨_, -, hm⟩ := move_of_call hw.linked hw.pool ha hperm h
  obtain ⟨p, q, t, u, log, logU, hp, ht, hu⟩ := hm.exists_mint
  have hpos : amount ≠ 0 := by
    obtain ⟨hm, -⟩ := Protocol.mint_ok hp
    exact hm.gross ▸ hm.charge.gross_pos
  obtain ⟨-, -, -, elog⟩ := (hw.ordered .reserve).whole.draw_ok ha.ne_protocol hpos ht
  obtain ⟨-, elogU⟩ := Token.mint_ok hu
  have hcall : w.chain.call a Launch.protocol (.protocol (.mint leg amount least)) = _ :=
    Outcome.bind_eq_ok.2 ⟨_, run_mint hw.linked hp ht hu, rfl⟩
  refine ⟨p, q, t, u, hp, hw.minted ha hp ht hu, ?_⟩
  rw [hcall] at h
  cases h
  rw [(w.grouped_operation leg log logU _).1, elog, elogU]
  rfl

/-- What a redemption that succeeds has booked and written to the tokens, and its receipt. -/
theorem Sound.redeem_receipt (hw : w.Sound) (ha : a.IsAccount) {r : Receipt}
    (h : w.chain.call a Launch.protocol (.protocol (.redeem leg amount least)) = .ok r) :
    ∃ (p : Protocol) (q : Priced) (t u : Token), w.protocol.redeem w.now (.ok w.pool.owed) leg amount least = .ok (p, q) ∧
      w.Redeemed a leg amount q.quote (w.settled p t leg u) ∧
      r = ⟨(w.settled p t leg u).chain, .amount q.out,
        [(Coin.reserve.address, .transfer Launch.protocol a q.out), (leg.coin.address, .burn a amount),
          (Launch.protocol, (Operation.redeem leg).event a amount q.quote)]⟩ := by
  have hperm : Call.Permitted Launch.protocol (.protocol (.redeem leg amount least)) := fun _ => Protocol.Call.noConfusion
  obtain ⟨_, -, hm⟩ := move_of_call hw.linked hw.pool ha hperm h
  obtain ⟨p, q, t, u, log, logU, hp, hu, ht⟩ := hm.exists_redeem
  obtain ⟨-, -, elog⟩ := (hw.ordered .reserve).whole.pay_ok ha.ne_protocol (Protocol.redeem_out_ne_zero hp) ht
  obtain ⟨-, -, -, elogU⟩ := Token.burnFrom_ok hu
  have hcall : w.chain.call a Launch.protocol (.protocol (.redeem leg amount least)) = _ :=
    Outcome.bind_eq_ok.2 ⟨_, run_redeem hw.linked hp hu ht, rfl⟩
  refine ⟨p, q, t, u, hp, hw.redeemed ha hp hu ht, ?_⟩
  rw [hcall] at h
  cases h
  rw [(w.grouped_operation leg log logU _).2, elog, elogU, setCoin_comm _ leg.coin_ne_reserve]
  rfl

/-- An operation that succeeds. -/
theorem Sound.trades (hw : w.Sound) (ha : a.IsAccount) {op : Operation} {r : Receipt}
    (h : w.chain.call a Launch.protocol (op.call amount least) = .ok r) : w.Trades a op amount r := by
  cases op with
  | mint leg =>
    obtain ⟨p, q, t, u, -, hminted, rfl⟩ := hw.mint_receipt ha h
    rw [← Nat.eq_sub_of_add_eq hminted.allowance]
    exact .mint hminted
  | redeem leg =>
    obtain ⟨p, q, t, u, -, hredeemed, rfl⟩ := hw.redeem_receipt ha h
    exact .redeem hredeemed

/-- In every state of every wired run, every operation of an account that succeeds moves what it should, at the fee and the
bonus that it announces, and writes nothing else. -/
theorem operations_conserve_after_wired (steps : List Step) (hs : ∀ s ∈ steps, s.Wired) (a : Address) (ha : a.IsAccount)
    (op : Operation) (amount least : Nat) (r : Receipt)
    (h : (Launch.wired.after steps).call a Launch.protocol (op.call amount least) = .ok r) :
    ∃ w : World, Launch.wired.after steps = w.chain ∧ w.Trades a op amount r := by
  obtain ⟨w, hchain, hw⟩ := exists_after_wired hs
  rw [hchain] at h
  exact ⟨w, hchain, hw.trades ha h⟩

/-- A mint of leveraged tokens under stress, with a fee and a bonus. -/
theorem operation_conserves_after_fallingTrades : (∀ s ∈ Launch.fallingTrades 1232200, s.Wired) ∧ Launch.bob.IsAccount ∧
    ∃ (w w' : World) (r : Receipt), Launch.wired.after (Launch.fallingTrades 1232200) = w.chain ∧
      w.chain.call Launch.bob Launch.protocol (.protocol (.mint .x priceScale 0)) = .ok r ∧ r.chain = w'.chain ∧
      w.Minted Launch.bob .x priceScale ⟨7877024901, 5000000, 1000000, .l3⟩ w' := by
  have hcall : ((Launch.wired.after (Launch.fallingTrades 1232200)).call Launch.bob Launch.protocol
      (.protocol (.mint .x priceScale 0))).map (fun r => r.events.getLast?) =
        .ok (some (Launch.protocol, .minted Launch.bob (.mint .x) .l3 priceScale 7877024901 5000000 1000000)) := by
    decide +kernel
  obtain ⟨r, hr, hlast⟩ := Outcome.map_eq_ok.1 hcall
  have hbob : Launch.bob.IsAccount := trivial
  obtain ⟨w, hchain, htrades⟩ :=
    operations_conserve_after_wired _ (Launch.fallingTrades_wired 1232200) _ hbob (.mint .x) priceScale 0 r hr
  generalize hop : Operation.mint .x = op at htrades
  cases htrades with
  | redeem => cases hop
  | @mint leg amount q w' h =>
    cases hop
    obtain ⟨out, fee, bonus, level⟩ := q
    cases hlast
    exact ⟨Launch.fallingTrades_wired _, hbob, w, w', _, hchain, hchain ▸ hr, rfl, h⟩

end World

end SplitReserve
