import SplitReserve.Proofs.Backing
import SplitReserve.Proofs.Exchange
import SplitReserve.Proofs.Pool.Booking

/-!
# The acts of depositors

Deposits, withdrawals, claims and closings in closed form.  What an act does is its `Effect`, which follows from the standing of
the account in the pool and from its purse alone, and so does the reason when there is none.  Main statement: `Sound.call_act`, by
which such a call gives its effect and leads to `World.acted`, or fails for that reason, whatever else is in the world.
-/

namespace SplitReserve

/-- What a depositor can do; amounts are words. -/
inductive Act
  | deposit (amount : Fin wordLimit)
  | withdraw (amount : Fin wordLimit)
  | claim
  | close

/-- The stable tokens that an account has, and those that it lets the pool draw. -/
structure Purse where
  stable : Nat
  allowed : Nat

/-- All that an act does. -/
structure Effect where
  booking : Booking
  /-- Stable tokens that the pool draws. -/
  drawn : Nat := 0
  /-- Stable tokens that the pool pays. -/
  returned : Nat := 0
  reply : Reply := .nothing
  events : List (Address × Event)

namespace Act

def call : Act → Call
  | deposit n => .pool (.deposit n)
  | withdraw n => .pool (.withdraw n)
  | claim => .pool .claim
  | close => .pool .close

/-- What an act of `a` does, or why it fails. -/
def effect (a : Address) (s : Standing) (m : Purse) : Act → Outcome Effect
  | deposit n => do
    require (n.val ≠ 0) .invalidAmount
    require (n.val ≤ m.allowed) .insufficientAllowance
    require (n.val ≤ m.stable) .insufficientTokenBalance
    .ok {
      booking := s.depositing n
      drawn := n
      events := [(Launch.fToken, .transfer a Launch.pool n), (Launch.fToken, .approval a Launch.pool (m.allowed - n)),
        (Launch.pool, .deposited a n (s.issued n))] }
  | withdraw n => do
    require (n.val ≠ 0) .invalidAmount
    require (n.val ≤ s.worth) .insufficientPoolBalance
    .ok {
      booking := s.withdrawing n
      returned := n
      events := [(Launch.fToken, .transfer Launch.pool a n), (Launch.pool, .withdrawn a n (s.taken n))] }
  | claim => .ok {
      booking := s.claiming
      reply := .amount s.due
      events := if s.due = 0 then []
        else [(Launch.reserveToken, .transfer Launch.protocol a s.due), (Launch.pool, .claimed a s.due)] }
  | close => do
    require s.isOpen .noPosition
    require (s.held.shares = 0 ∧ s.due = 0) .positionNotEmpty
    .ok { booking := Standing.closing, events := [(Launch.pool, .positionClosed a)] }

end Act

/-- An effect takes no more than the account has in the pool, and it opens a position that is closed, or closes one that is
open. -/
structure Effect.Within (e : Effect) (s : Standing) : Prop where
  taken : e.booking.taken ≤ s.held.shares
  returned : e.returned ≤ s.worth
  paid : e.booking.paid ≤ s.due
  opens : ∀ o, e.booking.opens = some o → s.isOpen = !o

theorem Act.effect_within {A : Act} {a : Address} {s : Standing} {m : Purse} {e : Effect} (h : A.effect a s m = .ok e) :
    e.Within s := by
  cases A with
  | deposit n =>
    simp only [effect, Outcome.bind_eq_ok] at h
    obtain ⟨-, -, -, -, -, -, h⟩ := h
    cases h
    refine ⟨Nat.zero_le _, Nat.zero_le _, Nat.zero_le _, fun o ho => ?_⟩
    change (if s.isOpen then none else some true) = some o at ho
    split at ho
    · cases ho
    next hclosed =>
      cases ho
      exact Bool.eq_false_of_not_eq_true hclosed
  | withdraw n =>
    simp only [effect, Outcome.bind_eq_ok, require_eq_ok] at h
    obtain ⟨-, -, -, hle, h⟩ := h
    cases h
    refine ⟨s.taken_le n, hle, Nat.zero_le _, ?_⟩
    rintro o ⟨⟩
  | claim =>
    cases h
    refine ⟨Nat.zero_le _, Nat.zero_le _, le_rfl, ?_⟩
    rintro o ⟨⟩
  | close =>
    simp only [effect, Outcome.bind_eq_ok, require_eq_ok] at h
    obtain ⟨-, hopen, -, -, h⟩ := h
    cases h
    refine ⟨Nat.zero_le _, Nat.zero_le _, Nat.zero_le _, fun o ho => ?_⟩
    cases ho
    exact hopen

namespace World

variable {w : World} {a b : Address} {n : Nat} {e e' : Effect}

def purse (w : World) (a : Address) : Purse := ⟨(w.coin .f).balance a, (w.coin .f).allowance a Launch.pool⟩

/-- The world after an act of `a`. -/
def acted (w : World) (a : Address) (e : Effect) : World where
  clock := w.clock
  coin
    | .reserve => (w.coin .reserve).exchange a Launch.protocol 0 e.booking.paid
    | .f => (w.coin .f).exchange a Launch.pool e.drawn e.returned
    | .x => w.coin .x
  protocol := { w.protocol with reserve := w.protocol.reserve - e.booking.paid }
  pool := w.pool.booked a e.booking

/-! ### What is written -/

/-- An act that pays no reserve writes the pool and the stable token. -/
private theorem acted_of_unpaid (h : e.booking.paid = 0) :
    w.acted a e =
      (w.setPool (w.pool.booked a e.booking)).setCoin .f ((w.coin .f).exchange a Launch.pool e.drawn e.returned) := by
  have hcoin : (w.acted a e).coin = Function.update w.coin .f ((w.coin .f).exchange a Launch.pool e.drawn e.returned) := by
    funext c
    cases c with
    | reserve =>
      change (w.coin .reserve).exchange a Launch.protocol 0 e.booking.paid = w.coin .reserve
      rw [h, Token.exchange_zero]
    | f | x => rfl
  have hprotocol : (w.acted a e).protocol = w.protocol := by
    change { w.protocol with reserve := w.protocol.reserve - e.booking.paid } = w.protocol
    rw [h, Nat.sub_zero]
  rw [setCoin, setPool, ← hcoin]
  conv_rhs => rw [← hprotocol]
  rfl

/-- An act that moves no stable tokens writes the pool, the protocol and the reserve token. -/
private theorem acted_of_unmoved (hd : e.drawn = 0) (hr : e.returned = 0) :
    w.acted a e = ((w.setPool (w.pool.booked a e.booking)).setProtocol
      { w.protocol with reserve := w.protocol.reserve - e.booking.paid }).setCoin .reserve
        ((w.coin .reserve).exchange a Launch.protocol 0 e.booking.paid) := by
  have hcoin : (w.acted a e).coin =
      Function.update w.coin .reserve ((w.coin .reserve).exchange a Launch.protocol 0 e.booking.paid) := by
    funext c
    cases c with
    | f =>
      change (w.coin .f).exchange a Launch.pool e.drawn e.returned = w.coin .f
      rw [hd, hr, Token.exchange_zero]
    | reserve | x => rfl
  rw [setCoin, setProtocol, setPool, ← hcoin]
  rfl

private theorem setCoin_self (w : World) (c : Coin) : w.setCoin c (w.coin c) = w := by
  rw [setCoin, Function.update_eq_self]

/-- An act that moves no tokens writes the pool alone. -/
private theorem acted_of_still (h : e.booking.paid = 0) (hd : e.drawn = 0) (hr : e.returned = 0) :
    w.acted a e = w.setPool (w.pool.booked a e.booking) := by
  have := setCoin_self (w.setPool (w.pool.booked a e.booking)) .f
  rw [acted_of_unpaid h, hd, hr, Token.exchange_zero]
  exact this

/-! ### The calls -/

open Work

/-- A call of the pool, from its run to its receipt. -/
private theorem call_pool (w : World) (a : Address) (c : Pool.Call) :
    w.chain.call a Launch.pool (.pool c) =
      c.run Launch.pool a w.pool ⟨w.chain, []⟩ >>= fun r => .ok ⟨r.2.chain, r.1, w.chain.grouped r.2.events⟩ := by
  simp only [Chain.call, StateT.run, Chain.run, bind_apply, lift_apply, chain_apply, callee_pool, Outcome.ok_bind]
  rfl

/-- The booking of an act leaves the links of the pool as they are. -/
private theorem token_booked (hw : w.Sound) (a : Address) (e : Booking) :
    (w.pool.booked a e).token = Coin.f.address ∧ (w.pool.booked a e).controller = some Launch.protocol :=
  ⟨hw.linked.pool.token, hw.linked.pool.controller⟩

theorem Sound.call_deposit (hw : w.Sound) (ha : a.IsAccount) (n : Fin wordLimit) :
    w.chain.call a Launch.pool (Act.deposit n).call =
      ((Act.deposit n).effect a (w.pool.standing a) (w.purse a)).map fun e =>
        ⟨(w.acted a e).chain, e.reply, w.chain.grouped e.events⟩ := by
  have hbooks := hw.pool.deposit_eq hw.fits a n.isLt
  rw [Act.call, call_pool, Act.effect]
  simp only [Pool.Call.run, Pool.runDeposit, draw, bind_apply, lift_apply, save_apply, announce_apply, pure_apply, hbooks,
    require_bind]
  by_cases hz : n.val ≠ 0
  · have htoken : (w.coin .f).transferFrom Launch.pool a Launch.pool n = (do
        require (n.val ≤ (w.purse a).allowed) .insufficientAllowance
        require (n.val ≤ (w.purse a).stable) .insufficientTokenBalance
        return ((w.coin .f).exchange a Launch.pool n 0,
          [.transfer a Launch.pool n, .approval a Launch.pool ((w.purse a).allowed - n)])) :=
      (hw.ordered .f).whole.draw_eq ha.ne_pool hz
    simp only [if_pos hz, pure_bind, Outcome.ok_bind, set_pool, (token_booked hw a _).1, onToken_apply, coin_setPool, htoken,
      require_bind]
    by_cases hallowed : n.val ≤ (w.purse a).allowed
    · simp only [if_pos hallowed]
      by_cases hstable : n.val ≤ (w.purse a).stable
      · simp only [if_pos hstable, pure_bind, Outcome.ok_bind, Outcome.map_ok]
        rw [acted_of_unpaid rfl]
        rfl
      · simp only [if_neg hstable]
        rfl
    · simp only [if_neg hallowed]
      rfl
  · simp only [if_neg hz]
    rfl

theorem Sound.call_withdraw (hw : w.Sound) (ha : a.IsAccount) (n : Fin wordLimit) :
    w.chain.call a Launch.pool (Act.withdraw n).call =
      ((Act.withdraw n).effect a (w.pool.standing a) (w.purse a)).map fun e =>
        ⟨(w.acted a e).chain, e.reply, w.chain.grouped e.events⟩ := by
  have hbooks : w.pool.withdraw a n = (do
      require (n.val ≠ 0) .invalidAmount
      require (n.val ≤ (w.pool.standing a).worth) .insufficientPoolBalance
      return (w.pool.booked a ((w.pool.standing a).withdrawing n), (w.pool.standing a).taken n)) :=
    hw.pool.withdraw_eq hw.fits a n
  rw [Act.call, call_pool, Act.effect]
  simp only [Pool.Call.run, Pool.runWithdraw, pay, bind_apply, lift_apply, save_apply, announce_apply, pure_apply, hbooks,
    require_bind]
  by_cases hz : n.val ≠ 0
  · simp only [if_pos hz]
    by_cases hle : n.val ≤ (w.pool.standing a).worth
    · -- The pool holds what its deposits are worth.
      have hheld := (hle.trans (hw.pool.worth_le a)).trans hw.worthAll_le
      have htoken := (hw.ordered .f).whole.pay_eq ha.ne_pool hz hheld
      simp only [if_pos hle, pure_bind, Outcome.ok_bind, set_pool, (token_booked hw a _).1, onToken_apply, coin_setPool,
        htoken, Outcome.map_ok]
      rw [acted_of_unpaid rfl]
      rfl
    · simp only [if_neg hle]
      rfl
  · simp only [if_neg hz]
    rfl

theorem Sound.call_claim (hw : w.Sound) (ha : a.IsAccount) :
    w.chain.call a Launch.pool Act.claim.call =
      (Act.claim.effect a (w.pool.standing a) (w.purse a)).map fun e =>
        ⟨(w.acted a e).chain, e.reply, w.chain.grouped e.events⟩ := by
  have hbooks := hw.pool.claim_eq a
  rw [Act.call, call_pool, Act.effect, Pool.due_standing]
  simp only [Pool.Call.run, Pool.runClaim, bind_apply, lift_apply, save_apply, pure_apply, hbooks, Outcome.ok_bind,
    set_pool, Work.ite_apply, Outcome.map_ok]
  by_cases hz : w.pool.due a = 0
  · simp only [if_pos hz, Outcome.ok_bind]
    rw [acted_of_still (show ((w.pool.standing a).claiming).paid = 0 from hz) rfl rfl, hz]
  · have hreserve := (hw.pool.due_le a).trans hw.owed_le
    obtain ⟨p, hp⟩ : ∃ p, p = { w.protocol with reserve := w.protocol.reserve - w.pool.due a } := ⟨_, rfl⟩
    have hpay : w.protocol.payClaim Launch.pool (w.pool.due a) = .ok p := by
      rw [hp]
      exact Protocol.payClaim_of_le hw.linked.protocol.pool hreserve
    have hlink : p.reserveToken = Coin.reserve.address := by
      rw [hp]
      exact hw.linked.protocol.reserveToken
    have hheld := hw.held
    have htoken := (hw.ordered .reserve).whole.pay_eq ha.ne_protocol hz (by omega)
    simp only [if_neg hz, (token_booked hw a _).2, demand_some, askForPayment, Protocol.runPayClaim, pay, bind_apply,
      lift_apply, chain_apply, save_apply, announce_apply, callee_protocol, protocol_setPool, set_protocol, Outcome.ok_bind,
      hpay, hlink, onToken_apply, coin_setProtocol, coin_setPool, htoken]
    rw [acted_of_unmoved rfl rfl, hp]
    rfl

theorem Sound.call_close (hw : w.Sound) (a : Address) :
    w.chain.call a Launch.pool Act.close.call =
      (Act.close.effect a (w.pool.standing a) (w.purse a)).map fun e =>
        ⟨(w.acted a e).chain, e.reply, w.chain.grouped e.events⟩ := by
  have hbooks : w.pool.close a = (do
      require (w.pool.standing a).isOpen .noPosition
      require ((w.pool.standing a).held.shares = 0 ∧ (w.pool.standing a).due = 0) .positionNotEmpty
      return w.pool.booked a Standing.closing) := hw.pool.close_eq a
  rw [Act.call, call_pool, Act.effect]
  simp only [Pool.Call.run, Pool.runClose, commit, bind_apply, lift_apply, save_apply, announce_apply, pure_apply, hbooks,
    require_bind]
  by_cases hopen : (w.pool.standing a).isOpen = true
  · simp only [if_pos hopen]
    by_cases hempty : (w.pool.standing a).held.shares = 0 ∧ (w.pool.standing a).due = 0
    · simp only [if_pos hempty, pure_bind, Outcome.ok_bind, set_pool, Outcome.map_ok]
      rw [acted_of_still rfl rfl rfl]
      rfl
    · simp only [if_neg hempty]
      rfl
  · simp only [if_neg hopen]
    rfl

/-- An act of a depositor has its effect, or fails, as its standing and its purse say. -/
theorem Sound.call_act (hw : w.Sound) (ha : a.IsAccount) (A : Act) :
    w.chain.call a Launch.pool A.call =
      (A.effect a (w.pool.standing a) (w.purse a)).map fun e => ⟨(w.acted a e).chain, e.reply, w.chain.grouped e.events⟩ := by
  cases A with
  | deposit n => exact hw.call_deposit ha n
  | withdraw n => exact hw.call_withdraw ha n
  | claim => exact hw.call_claim ha
  | close => exact hw.call_close a

/-! ### What an act leaves -/

theorem pool_acted : (w.acted a e).pool = w.pool.booked a e.booking := rfl

theorem depositors_acted : (w.acted a e).pool.depositors = Pool.recount e.booking.opens w.pool.depositors := rfl

theorem stable_acted (ha : a.IsAccount) :
    ((w.acted a e).coin .f).balance a = (w.coin .f).balance a + e.returned - e.drawn := by
  change ((w.coin .f).exchange a Launch.pool e.drawn e.returned).balance a = _
  rw [Token.balance_exchange, if_neg ha.ne_pool, if_pos rfl]

theorem reserve_acted (ha : a.IsAccount) :
    ((w.acted a e).coin .reserve).balance a = (w.coin .reserve).balance a + e.booking.paid := by
  change ((w.coin .reserve).exchange a Launch.protocol 0 e.booking.paid).balance a = _
  rw [Token.balance_exchange, if_neg ha.ne_protocol, if_pos rfl, Nat.sub_zero]

/-! ### Other accounts -/

theorem purse_acted_of_ne (hab : b ≠ a) (hb : b.IsAccount) : (w.acted a e).purse b = w.purse b := by
  have hbalance : ((w.coin .f).exchange a Launch.pool e.drawn e.returned).balance b = (w.coin .f).balance b := by
    rw [Token.balance_exchange, if_neg hb.ne_pool, if_neg hab]
  have hallowance : ((w.coin .f).exchange a Launch.pool e.drawn e.returned).allowance b Launch.pool =
      (w.coin .f).allowance b Launch.pool := Token.allowance_exchange_of_ne _ hab _ _ _ _
  rw [purse, purse, ← hbalance, ← hallowance]
  rfl

/-- What another account can do, and what comes of it, is as before. -/
theorem effect_acted_of_ne (hab : b ≠ a) (hb : b.IsAccount) (B : Act) :
    B.effect b ((w.acted a e).pool.standing b) ((w.acted a e).purse b) = B.effect b (w.pool.standing b) (w.purse b) := by
  have hstanding : (w.acted a e).pool.standing b = w.pool.standing b := Pool.standing_booked_of_ne hab
  rw [hstanding, purse_acted_of_ne hab hb]

/-! ### Worlds after acts -/

/-- The world after an act is tried: as before if it fails. -/
def act (w : World) (a : Address) (A : Act) : World :=
  match A.effect a (w.pool.standing a) (w.purse a) with
  | .ok e => w.acted a e
  | .error _ => w

theorem act_of_effect {A : Act} (h : A.effect a (w.pool.standing a) (w.purse a) = .ok e) : w.act a A = w.acted a e := by
  rw [act, h]

theorem act_of_error {A : Act} {f : Failure} (h : A.effect a (w.pool.standing a) (w.purse a) = .error f) : w.act a A = w := by
  rw [act, h]

theorem Sound.apply_act (hw : w.Sound) (ha : a.IsAccount) (A : Act) :
    w.chain.apply a Launch.pool A.call = (w.act a A).chain := by
  rw [Chain.apply, hw.call_act ha]
  cases h : A.effect a (w.pool.standing a) (w.purse a) with
  | ok e => rw [act_of_effect h, Outcome.map_ok]
  | error f => rw [act_of_error h]; rfl

theorem permitted_act (A : Act) : A.call.Permitted Launch.pool := by
  cases A <;> exact fun _ => Pool.Call.noConfusion

theorem Sound.act (hw : w.Sound) (ha : a.IsAccount) (A : Act) : (w.act a A).Sound := by
  cases h : A.effect a (w.pool.standing a) (w.purse a) with
  | ok e =>
    have hcall := hw.call_act ha A
    rw [h, Outcome.map_ok] at hcall
    obtain ⟨w', hchain, hm⟩ := move_of_call hw.linked hw.pool ha (permitted_act A) hcall
    rw [act_of_effect h, chain_inj.1 hchain]
    exact hw.move ha (permitted_act A) hm
  | error f => rwa [act_of_error h]

/-- An act that succeeds has its effect on the chain. -/
theorem Sound.apply_of_effect (hw : w.Sound) (ha : a.IsAccount) {A : Act}
    (h : A.effect a (w.pool.standing a) (w.purse a) = .ok e) :
    w.chain.apply a Launch.pool A.call = (w.acted a e).chain ∧ (w.acted a e).Sound := by
  rw [hw.apply_act ha, ← act_of_effect h]
  exact ⟨rfl, hw.act ha A⟩

/-- Two acts, one after the other. -/
theorem Sound.apply_apply_act (hw : w.Sound) (ha : a.IsAccount) (hb : b.IsAccount) (A B : Act) :
    (w.chain.apply a Launch.pool A.call).apply b Launch.pool B.call = ((w.act a A).act b B).chain := by
  rw [hw.apply_act ha, (hw.act ha A).apply_act hb]

theorem effect_act_of_ne (hab : b ≠ a) (hb : b.IsAccount) (A B : Act) :
    B.effect b ((w.act a A).pool.standing b) ((w.act a A).purse b) = B.effect b (w.pool.standing b) (w.purse b) := by
  cases h : A.effect a (w.pool.standing a) (w.purse a) with
  | ok e => rw [act_of_effect h, effect_acted_of_ne hab hb]
  | error f => rw [act_of_error h]

end World

end SplitReserve
