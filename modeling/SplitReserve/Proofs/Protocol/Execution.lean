import SplitReserve.Chain.Reply
import SplitReserve.Proofs.Protocol.Trade

/-!
# From a price to an operation

An operation is carried out at its price, with the checks that pricing leaves out: the least amount that the user takes, and
that the ledgers have room for what is booked.  So a price that cannot be found is the failure of the operation
(`trade_of_unpriced`), one that gives too little fails of slippage (`trade_of_slippage`), and else the operation succeeds just when
there is room (`exists_trade`, `trade_of_not_room`).
-/

namespace SplitReserve

/-- A price as a user is told it. -/
def Priced.quote (q : Priced) : Quote := ⟨q.out, q.charge.fee, q.charge.bonus, q.level⟩

namespace Protocol

variable {p : Protocol} {now owed amount least : Nat} {op : Operation} {q : Priced} {e : Failure}

/-- The books of an operation. -/
def trade (p : Protocol) (now : Nat) (owed : Outcome Nat) (op : Operation) (amount least : Nat) :
    Outcome (Protocol × Priced) :=
  match op with
  | .mint leg => p.mint now owed leg amount least
  | .redeem leg => p.redeem now owed leg amount least

/-- The ledgers have room for an operation that is quoted at `q`: the counter of all fees for its fee, and the reserve for what a
mint brings. -/
def Room (p : Protocol) (op : Operation) (amount : Nat) (q : Quote) : Prop :=
  p.treasury.Room q.fee ∧ ∀ leg, op = .mint leg → p.reserve + (amount - q.fee + q.bonus) < wordLimit

/-- Without its settlement no operation is booked. -/
private theorem trade_of_unsettled (h : p.settle now (.ok owed) op amount least = .error e) :
    p.trade now (.ok owed) op amount least = .error e := by
  cases op with
  | mint leg =>
    rw [trade, mint, h]
    rfl
  | redeem leg =>
    rw [trade, redeem, h]
    rfl

theorem trade_of_unpriced (h : p.price now (.ok owed) op amount = .error e) :
    p.trade now (.ok owed) op amount least = .error e := by
  refine trade_of_unsettled ?_
  rw [settle, h]
  rfl

theorem trade_of_slippage (h : p.price now (.ok owed) op amount = .ok q) (hl : q.out < least) :
    p.trade now (.ok owed) op amount least = .error (.fault .slippageExceeded) := by
  refine trade_of_unsettled ?_
  rw [settle, h, Outcome.ok_bind, require, if_neg (Nat.not_le.2 hl)]
  rfl

private theorem exists_settled (ht : p.treasury.Balanced) (h : p.price now (.ok owed) op amount = .ok q) (hl : least ≤ q.out)
    (hfee : p.treasury.Room q.charge.fee) :
    ∃ treasury, p.settle now (.ok owed) op amount least = .ok ({ p with treasury }, q) := by
  obtain ⟨-, -, -, hbonus⟩ := price_ok h
  obtain ⟨treasury, hsettle⟩ : ∃ treasury, p.treasury.settle op q.charge.fee q.charge.bonus = .ok treasury :=
    ht.exists_settle hbonus hfee
  refine ⟨treasury, ?_⟩
  rw [settle, h, Outcome.ok_bind, require, if_pos hl, Outcome.ok_bind, hsettle]
  rfl

theorem exists_trade (ht : p.treasury.Balanced) (h : p.price now (.ok owed) op amount = .ok q) (hl : least ≤ q.out)
    (hroom : p.Room op amount q.quote) : ∃ p', p.trade now (.ok owed) op amount least = .ok (p', q) := by
  obtain ⟨treasury, hs⟩ := exists_settled ht h hl hroom.1
  cases op with
  | mint leg =>
    obtain ⟨-, -, hgross, hcharge, -, hfit⟩ := price_mint_ok h
    have hreserve : p.reserve + q.charge.net < wordLimit := by
      rw [hcharge.net, hgross]
      exact hroom.2 leg rfl
    have hsupply : Protocol.supply { p with treasury, reserve := p.reserve + q.charge.net } leg = p.supply leg := by
      cases leg <;> rfl
    rw [trade, mint, hs, Outcome.ok_bind]
    dsimp only [addReserve]
    rw [word?, if_pos hreserve, demand_some, Outcome.ok_bind, pure_bind, hsupply, word?, if_pos hfit]
    exact ⟨_, rfl⟩
  | redeem leg =>
    obtain ⟨-, -, -, -, hle, -, hnet⟩ := price_redeem_ok h
    have hsupply : Protocol.supply { p with treasury } leg = p.supply leg := by
      cases leg <;> rfl
    have hgross : q.gross ≤ p.reserve := hnet.trans (Nat.sub_le _ _)
    rw [trade, redeem, hs, Outcome.ok_bind]
    dsimp only
    rw [subtract, if_pos hgross, Outcome.ok_bind, hsupply, subtract, if_pos hle]
    exact ⟨_, rfl⟩

theorem trade_of_not_room (ht : p.treasury.Balanced) (h : p.price now (.ok owed) op amount = .ok q) (hl : least ≤ q.out)
    (hroom : ¬ p.Room op amount q.quote) :
    p.trade now (.ok owed) op amount least = .error (.fault .mathOverflow) := by
  obtain ⟨-, -, -, hbonus⟩ := price_ok h
  by_cases hfee : p.treasury.Room q.charge.fee
  · -- The fee fits, so it is a mint whose reserve does not.
    obtain ⟨treasury, hs⟩ := exists_settled ht h hl hfee
    rw [Room, not_and] at hroom
    obtain ⟨leg, hleg⟩ := Classical.not_forall.1 (hroom hfee)
    obtain ⟨hop, hfull⟩ := Classical.not_imp.1 hleg
    subst hop
    obtain ⟨-, -, hgross, hcharge, -⟩ := price_mint_ok h
    have hreserve : ¬ p.reserve + q.charge.net < wordLimit := by
      rw [hcharge.net, hgross]
      exact hfull
    rw [trade, mint, hs, Outcome.ok_bind]
    dsimp only [addReserve]
    rw [word?, if_neg hreserve]
    rfl
  · refine trade_of_unsettled ?_
    rw [settle, h, Outcome.ok_bind, require, if_pos hl, Outcome.ok_bind, Treasury.settle_of_not_room hbonus hfee]
    rfl

end Protocol

end SplitReserve
