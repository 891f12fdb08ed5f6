import SplitReserve.Proofs.World.Basic

/-!
# Moves

A `Move` says what a call by an account does to a world when it succeeds, in terms of the books and the tokens alone.  Main
statements: every permitted call that succeeds is a move (`move_of_call`), so whatever is true of all moves is true of all
runs; and every move is a call that succeeds (`Move.exists_call`), so to show that a call succeeds is to give its move.
-/

namespace SplitReserve

namespace World

variable {w : World} {caller : Address} {es : List (Address × Event)} {s : Session} {n : Nat}

/-- What a successful call by `caller` answers and makes of the world. -/
inductive Move (w : World) (caller : Address) : Address → Call → Reply → World → Prop
  | token {k : Coin} {c : Token.Call} {t : Token} {log : List Event} (ht : c.apply (w.coin k) caller = .ok (t, log)) :
      Move w caller k.address (.token c) c.reply (w.setCoin k t)
  | books {c : Protocol.Call} {p : Protocol} {log : List Event}
      (hp : c.onBooks w.now w.protocol caller = some (.ok (p, log))) :
      Move w caller Launch.protocol (.protocol c) .nothing (w.setProtocol p)
  | withdrawTreasury {recipient : Address} {n : Nat} {p : Protocol} {t : Token} {log : List Event}
      (hp : w.protocol.withdrawTreasury caller n = .ok p)
      (ht : (w.coin .reserve).transfer Launch.protocol recipient n = .ok (t, log)) :
      Move w caller Launch.protocol (.protocol (.withdrawTreasury recipient n)) .nothing
        ((w.setProtocol p).setCoin .reserve t)
  | recapitalize {n : Nat} {p : Protocol} {t : Token} {log : List Event}
      (hp : w.protocol.recapitalize caller n = .ok p)
      (ht : (w.coin .reserve).transferFrom Launch.protocol caller Launch.protocol n = .ok (t, log)) :
      Move w caller Launch.protocol (.protocol (.recapitalize n)) .nothing ((w.setProtocol p).setCoin .reserve t)
  | bootstrap {n : Nat} {p : Protocol} {t f x : Token} {log logF logX : List Event}
      (hp : w.protocol.bootstrap caller w.now n = .ok p)
      (ht : (w.coin .reserve).transferFrom Launch.protocol caller Launch.protocol n = .ok (t, log))
      (hf : (w.coin .f).mint Launch.protocol caller p.supplyF = .ok (f, logF))
      (hx : (w.coin .x).mint Launch.protocol caller p.supplyX = .ok (x, logX)) :
      Move w caller Launch.protocol (.protocol (.bootstrap n)) .nothing
        ((((w.setProtocol p).setCoin .reserve t).setCoin .f f).setCoin .x x)
  | mint {leg : Leg} {n least : Nat} {p : Protocol} {q : Priced} {t u : Token} {log logU : List Event}
      (hp : w.protocol.mint w.now (.ok w.pool.owed) leg n least = .ok (p, q))
      (ht : (w.coin .reserve).transferFrom Launch.protocol caller Launch.protocol n = .ok (t, log))
      (hu : (w.coin leg.coin).mint Launch.protocol caller q.out = .ok (u, logU)) :
      Move w caller Launch.protocol (.protocol (.mint leg n least)) (.amount q.out)
        (((w.setProtocol p).setCoin .reserve t).setCoin leg.coin u)
  | redeem {leg : Leg} {n least : Nat} {p : Protocol} {q : Priced} {t u : Token} {log logU : List Event}
      (hp : w.protocol.redeem w.now (.ok w.pool.owed) leg n least = .ok (p, q))
      (hu : (w.coin leg.coin).burnFrom Launch.protocol caller n = .ok (u, logU))
      (ht : (w.coin .reserve).transfer Launch.protocol caller q.out = .ok (t, log)) :
      Move w caller Launch.protocol (.protocol (.redeem leg n least)) (.amount q.out)
        (((w.setProtocol p).setCoin leg.coin u).setCoin .reserve t)
  | noRebalance {target : Nat} (hk : w.protocol.roles.requireKeeper caller = .ok ()) (ht : target ≠ 0)
      (hp : w.protocol.planRebalance w.now (.ok w.pool.owed) target = .ok none ∨
        ∃ plan p loss, w.protocol.planRebalance w.now (.ok w.pool.owed) target = .ok (some plan) ∧
          w.pool.bear Launch.protocol plan.burn plan.payout = .ok (p, loss) ∧ loss.burn = 0) :
      Move w caller Launch.protocol (.protocol (.rebalance target)) (.amounts 0 0) w
  | rebalance {target : Nat} {plan : Protocol.Plan} {p : Pool} {loss : Loss} {f : Token} {logF : List Event}
      (hk : w.protocol.roles.requireKeeper caller = .ok ()) (ht : target ≠ 0)
      (hplan : w.protocol.planRebalance w.now (.ok w.pool.owed) target = .ok (some plan))
      (hp : w.pool.bear Launch.protocol plan.burn plan.payout = .ok (p, loss)) (hb : loss.burn ≠ 0)
      (hle : loss.burn ≤ w.protocol.supplyF)
      (hf : (w.coin .f).burnFrom Launch.protocol Launch.pool loss.burn = .ok (f, logF))
      (ho : p.owed ≤ w.protocol.reserve) :
      Move w caller Launch.protocol (.protocol (.rebalance target)) (.amounts loss.burn loss.payout)
        (((w.setPool p).setProtocol { w.protocol with supplyF := w.protocol.supplyF - loss.burn }).setCoin .f f)
  | noHarvest {n : Nat} (hk : w.protocol.roles.requireKeeper caller = .ok ()) (hn : n ≠ 0)
      (hi : n - Protocol.bounty n = 0 ∨ ∃ p, w.pool.indexRewards Launch.protocol (n - Protocol.bounty n) = .ok (p, 0)) :
      Move w caller Launch.protocol (.protocol (.harvest n)) (.amount 0) w
  | harvest {n k : Nat} {s : Pool} {p : Protocol} {t : Token} {log : List Event}
      (hk : w.protocol.roles.requireKeeper caller = .ok ()) (hn : n ≠ 0)
      (hi : w.pool.indexRewards Launch.protocol (n - Protocol.bounty n) = .ok (s, k)) (hpos : k ≠ 0)
      (hp : w.protocol.addReserve k = .ok p)
      (ht : (w.coin .reserve).transferFrom Launch.protocol caller Launch.protocol k = .ok (t, log)) :
      Move w caller Launch.protocol (.protocol (.harvest n)) (.amount (Protocol.bounty n))
        (((w.setPool s).setProtocol p).setCoin .reserve t)
  | deposit {n k : Nat} {p : Pool} {t : Token} {log : List Event} (hp : w.pool.deposit caller n = .ok (p, k))
      (ht : (w.coin .f).transferFrom Launch.pool caller Launch.pool n = .ok (t, log)) :
      Move w caller Launch.pool (.pool (.deposit n)) .nothing ((w.setPool p).setCoin .f t)
  | withdraw {n k : Nat} {p : Pool} {t : Token} {log : List Event} (hp : w.pool.withdraw caller n = .ok (p, k))
      (ht : (w.coin .f).transfer Launch.pool caller n = .ok (t, log)) :
      Move w caller Launch.pool (.pool (.withdraw n)) .nothing ((w.setPool p).setCoin .f t)
  | claimNothing {p : Pool} (hp : w.pool.claim caller = .ok (p, 0)) :
      Move w caller Launch.pool (.pool .claim) (.amount 0) (w.setPool p)
  | claim {n : Nat} {s : Pool} {p : Protocol} {t : Token} {log : List Event} (hs : w.pool.claim caller = .ok (s, n))
      (hn : n ≠ 0) (hp : w.protocol.payClaim Launch.pool n = .ok p)
      (ht : (w.coin .reserve).transfer Launch.protocol caller n = .ok (t, log)) :
      Move w caller Launch.pool (.pool .claim) (.amount n) (((w.setPool s).setProtocol p).setCoin .reserve t)
  | close {p : Pool} (hp : w.pool.close caller = .ok p) :
      Move w caller Launch.pool (.pool .close) .nothing (w.setPool p)

/-! ### Calls of the pool -/

open Work

theorem move_of_withdraw (hl : w.Linked) (hs : w.pool.Sound) {u : Unit}
    (h : Pool.runWithdraw Launch.pool caller w.pool n ⟨w.chain, es⟩ = .ok (u, s)) :
    ∃ w', s.chain = w'.chain ∧ w.Move caller Launch.pool (.pool (.withdraw n)) .nothing w' := by
  simp only [Pool.runWithdraw, pay, bind_apply, lift_apply, save_apply, announce_apply, Outcome.ok_bind, bind_assoc,
    set_pool, Outcome.bind_eq_ok] at h
  obtain ⟨⟨p, k⟩, hp, r, ht, h⟩ := h
  have hp' := (hs.withdraw_ok hp).1.linked hl.pool
  simp only [hp'.token, onToken_apply, Outcome.bind_eq_ok] at ht
  obtain ⟨⟨t, log⟩, ht, e⟩ := ht
  cases e
  cases h
  exact ⟨_, rfl, .withdraw hp ht⟩

theorem move_of_deposit (hl : w.Linked) (hs : w.pool.Sound) {u : Unit}
    (h : Pool.runDeposit Launch.pool caller w.pool n ⟨w.chain, es⟩ = .ok (u, s)) :
    ∃ w', s.chain = w'.chain ∧ w.Move caller Launch.pool (.pool (.deposit n)) .nothing w' := by
  simp only [Pool.runDeposit, draw, bind_apply, lift_apply, save_apply, announce_apply, Outcome.ok_bind, bind_assoc,
    set_pool, Outcome.bind_eq_ok] at h
  obtain ⟨⟨p, k⟩, hp, r, ht, h⟩ := h
  have hp' := (hs.deposit_ok hp).1.linked hl.pool
  simp only [hp'.token, onToken_apply, Outcome.bind_eq_ok] at ht
  obtain ⟨⟨t, log⟩, ht, e⟩ := ht
  cases e
  cases h
  exact ⟨_, rfl, .deposit hp ht⟩

theorem move_of_claim (hl : w.Linked) (hs : w.pool.Sound)
    (h : Pool.runClaim Launch.pool caller w.pool ⟨w.chain, es⟩ = .ok (n, s)) :
    ∃ w', s.chain = w'.chain ∧ w.Move caller Launch.pool (.pool .claim) (.amount n) w' := by
  simp only [Pool.runClaim, bind_apply, lift_apply, save_apply, Outcome.ok_bind, bind_assoc, set_pool, Work.ite_apply,
    pure_apply, Outcome.bind_eq_ok] at h
  obtain ⟨⟨p, k⟩, hp, h⟩ := h
  have hp' : p.Linked := by
    obtain ⟨-, -, -, s, hr, -⟩ := hs.claim_ok hp
    exact hr.linked hl.pool
  split at h
  next hz =>
    cases h
    change k = 0 at hz
    subst hz
    exact ⟨_, rfl, .claimNothing hp⟩
  next hk =>
    simp only [hp'.controller, demand_some, askForPayment, Protocol.runPayClaim, pay, bind_apply, lift_apply, chain_apply,
      save_apply, announce_apply, callee_protocol, protocol_setPool, Outcome.ok_bind, bind_assoc, set_protocol,
      Outcome.bind_eq_ok] at h
    obtain ⟨q, hq, r, ht, h⟩ := h
    have hq' : q.reserveToken = Coin.reserve.address := by
      obtain ⟨-, -, rfl⟩ := Protocol.payClaim_ok hq
      exact hl.protocol.reserveToken
    simp only [hq', onToken_apply, Outcome.bind_eq_ok] at ht
    obtain ⟨⟨t, log⟩, ht, e⟩ := ht
    cases e
    cases h
    exact ⟨_, rfl, .claim hp hk hq ht⟩

theorem move_of_pool (hl : w.Linked) (hs : w.pool.Sound) (hc : caller.IsAccount) {c : Pool.Call} {reply : Reply}
    (hn : ∀ a, c ≠ .setController a) (h : c.run Launch.pool caller w.pool ⟨w.chain, es⟩ = .ok (reply, s)) :
    ∃ w', s.chain = w'.chain ∧ w.Move caller Launch.pool (.pool c) reply w' := by
  have hcontroller : ¬ w.pool.controller = some caller := by
    rw [hl.pool.controller]
    intro e
    exact hc.ne_protocol (Option.some.inj e).symm
  cases c with
  | setController a => exact absurd rfl (hn a)
  | deposit n =>
    obtain ⟨u, hr, rfl⟩ := bind_pure_eq_ok.1 h
    exact move_of_deposit hl hs hr
  | withdraw n =>
    obtain ⟨u, hr, rfl⟩ := bind_pure_eq_ok.1 h
    exact move_of_withdraw hl hs hr
  | claim =>
    obtain ⟨n, hr, rfl⟩ := bind_pure_eq_ok.1 h
    exact move_of_claim hl hs hr
  | close =>
    simp only [Pool.Call.run, Pool.runClose, commit, bind_apply, lift_apply, save_apply, announce_apply, pure_apply,
      Outcome.ok_bind, bind_assoc, set_pool, Outcome.bind_eq_ok] at h
    obtain ⟨p, hp, e⟩ := h
    cases e
    exact ⟨_, rfl, .close hp⟩
  | bear burn payout =>
    simp only [Pool.Call.run, Pool.runBear, bind_apply, lift_apply, bind_assoc, Outcome.bind_eq_ok] at h
    obtain ⟨⟨p, loss⟩, hp, -⟩ := h
    exact absurd (Pool.bear_cases hp).1 hcontroller
  | indexRewards n =>
    simp only [Pool.Call.run, Pool.runIndexRewards, bind_apply, lift_apply, bind_assoc, Outcome.bind_eq_ok] at h
    obtain ⟨⟨p, k⟩, hp, -⟩ := h
    exact absurd (Pool.indexRewards_cases hp).1 hcontroller

/-! ### Calls of the protocol -/

theorem move_of_mint (hl : w.Linked) {leg : Leg} {least k : Nat}
    (h : Protocol.runMint Launch.protocol caller w.protocol leg n least ⟨w.chain, es⟩ = .ok (k, s)) :
    ∃ w', s.chain = w'.chain ∧ w.Move caller Launch.protocol (.protocol (.mint leg n least)) (.amount k) w' := by
  simp only [Protocol.runMint, draw, Work.mint, bind_apply, lift_apply, chain_apply, save_apply, announce_apply,
    pure_apply, Outcome.ok_bind, bind_assoc, owed_eq w hl.protocol.pool, set_protocol, Outcome.bind_eq_ok] at h
  obtain ⟨⟨p, q⟩, hp, r, ht, r', hu, h⟩ := h
  have hp' := (Protocol.mint_ok hp).1.linked hl.protocol
  simp only [hp'.reserveToken, onToken_apply, Outcome.bind_eq_ok] at ht
  obtain ⟨⟨t, log⟩, ht, e⟩ := ht
  cases e
  simp only [hp'.token, onToken_apply, Outcome.bind_eq_ok] at hu
  obtain ⟨⟨u, logU⟩, hu, e⟩ := hu
  rw [coin_setCoin, if_neg (by cases leg <;> decide)] at hu
  cases e
  cases h
  exact ⟨_, rfl, .mint hp ht hu⟩

theorem move_of_redeem (hl : w.Linked) {leg : Leg} {least k : Nat}
    (h : Protocol.runRedeem Launch.protocol caller w.protocol leg n least ⟨w.chain, es⟩ = .ok (k, s)) :
    ∃ w', s.chain = w'.chain ∧ w.Move caller Launch.protocol (.protocol (.redeem leg n least)) (.amount k) w' := by
  simp only [Protocol.runRedeem, burn, pay, bind_apply, lift_apply, chain_apply, save_apply, announce_apply,
    pure_apply, Outcome.ok_bind, bind_assoc, owed_eq w hl.protocol.pool, set_protocol, Outcome.bind_eq_ok] at h
  obtain ⟨⟨p, q⟩, hp, r, hu, r', ht, h⟩ := h
  have hp' := (Protocol.redeem_ok hp).1.linked hl.protocol
  simp only [hp'.token, onToken_apply, Outcome.bind_eq_ok] at hu
  obtain ⟨⟨u, logU⟩, hu, e⟩ := hu
  cases e
  simp only [hp'.reserveToken, onToken_apply, Outcome.bind_eq_ok] at ht
  obtain ⟨⟨t, log⟩, ht, e⟩ := ht
  rw [coin_setCoin, if_neg (by cases leg <;> decide)] at ht
  cases e
  cases h
  exact ⟨_, rfl, .redeem hp hu ht⟩

theorem move_of_withdrawTreasury (hl : w.Linked) {recipient : Address} {u : Unit}
    (h : Protocol.runWithdrawTreasury Launch.protocol caller w.protocol recipient n ⟨w.chain, es⟩ = .ok (u, s)) :
    ∃ w', s.chain = w'.chain ∧
      w.Move caller Launch.protocol (.protocol (.withdrawTreasury recipient n)) .nothing w' := by
  simp only [Protocol.runWithdrawTreasury, pay, bind_apply, lift_apply, save_apply, announce_apply, Outcome.ok_bind,
    bind_assoc, set_protocol, Outcome.bind_eq_ok] at h
  obtain ⟨p, hp, r, ht, h⟩ := h
  have hp' : p.reserveToken = Coin.reserve.address := by
    obtain ⟨-, treasury, -, rfl⟩ := Protocol.withdrawTreasury_ok hp
    exact hl.protocol.reserveToken
  simp only [hp', onToken_apply, Outcome.bind_eq_ok] at ht
  obtain ⟨⟨t, log⟩, ht, e⟩ := ht
  cases e
  cases h
  exact ⟨_, rfl, .withdrawTreasury hp ht⟩

theorem move_of_recapitalize (hl : w.Linked) {u : Unit}
    (h : Protocol.runRecapitalize Launch.protocol caller w.protocol n ⟨w.chain, es⟩ = .ok (u, s)) :
    ∃ w', s.chain = w'.chain ∧ w.Move caller Launch.protocol (.protocol (.recapitalize n)) .nothing w' := by
  simp only [Protocol.runRecapitalize, draw, bind_apply, lift_apply, save_apply, chain_apply, announce_apply,
    Outcome.ok_bind, bind_assoc, set_protocol, Outcome.bind_eq_ok] at h
  obtain ⟨p, hp, r, ht, owed, -, h⟩ := h
  have hp' : p.reserveToken = Coin.reserve.address := by
    obtain ⟨-, rfl⟩ := Protocol.recapitalize_ok hp
    exact hl.protocol.reserveToken
  simp only [hp', onToken_apply, Outcome.bind_eq_ok] at ht
  obtain ⟨⟨t, log⟩, ht, e⟩ := ht
  cases e
  cases h
  exact ⟨_, rfl, .recapitalize hp ht⟩

theorem move_of_bootstrap (hl : w.Linked) {u : Unit}
    (h : Protocol.runBootstrap Launch.protocol caller w.protocol n ⟨w.chain, es⟩ = .ok (u, s)) :
    ∃ w', s.chain = w'.chain ∧ w.Move caller Launch.protocol (.protocol (.bootstrap n)) .nothing w' := by
  simp only [Protocol.runBootstrap, draw, Work.mint, bind_apply, lift_apply, save_apply, chain_apply, announce_apply,
    Outcome.ok_bind, bind_assoc, set_protocol, Outcome.bind_eq_ok] at h
  obtain ⟨p, hp, r, ht, r₁, hf, r₂, hx, h⟩ := h
  have hp' : p.reserveToken = Coin.reserve.address ∧ p.fToken = Coin.f.address ∧ p.xToken = Coin.x.address := by
    obtain ⟨-, -, -, e⟩ := Protocol.bootstrap_ok hp
    rw [e]
    exact ⟨hl.protocol.reserveToken, hl.protocol.token .f, hl.protocol.token .x⟩
  simp only [hp', onToken_apply, Outcome.bind_eq_ok] at ht
  obtain ⟨⟨t, log⟩, ht, e⟩ := ht
  cases e
  simp only [hp', onToken_apply, Outcome.bind_eq_ok] at hf
  obtain ⟨⟨f, logF⟩, hf, e⟩ := hf
  cases e
  simp only [hp', onToken_apply, Outcome.bind_eq_ok] at hx
  obtain ⟨⟨x, logX⟩, hx, e⟩ := hx
  cases e
  cases h
  exact ⟨_, rfl, .bootstrap hp ht hf hx⟩

theorem askToBear_ok {burn payout : Nat} {r : Nat × Nat}
    (h : askToBear Launch.pool Launch.protocol burn payout ⟨w.chain, es⟩ = .ok (r, s)) :
    ∃ p loss, w.pool.bear Launch.protocol burn payout = .ok (p, loss) ∧
      (loss.burn = 0 ∧ r = (0, 0) ∧ s.chain = w.chain ∨
        loss.burn ≠ 0 ∧ r = (loss.burn, loss.payout) ∧ s.chain = (w.setPool p).chain) := by
  simp only [askToBear, Pool.runBear, commit, bind_apply, lift_apply, chain_apply, callee_pool, Outcome.ok_bind,
    bind_assoc, Work.ite_apply, pure_apply, save_apply, announce_apply, set_pool, Outcome.bind_eq_ok] at h
  obtain ⟨⟨p, loss⟩, hp, h⟩ := h
  refine ⟨p, loss, hp, ?_⟩
  split at h
  next hz => cases h; exact Or.inl ⟨hz, rfl, rfl⟩
  next hz => cases h; exact Or.inr ⟨hz, rfl, rfl⟩

theorem move_of_rebalance (hl : w.Linked) {r : Nat × Nat}
    (h : Protocol.runRebalance Launch.protocol caller w.protocol n ⟨w.chain, es⟩ = .ok (r, s)) :
    ∃ w', s.chain = w'.chain ∧ w.Move caller Launch.protocol (.protocol (.rebalance n)) (.amounts r.1 r.2) w' := by
  simp only [Protocol.runRebalance, bind_apply, lift_apply, chain_apply, hl.protocol.pool, demand_some, Outcome.ok_bind,
    bind_assoc, owed_eq w hl.protocol.pool, Outcome.bind_eq_ok, require_eq_ok] at h
  obtain ⟨_, hk, _, hn, plan, hplan, h⟩ := h
  cases plan with
  | none =>
    cases h
    exact ⟨w, rfl, .noRebalance hk hn (Or.inl hplan)⟩
  | some plan =>
    simp only [bind_apply, Work.ite_apply, pure_apply, Outcome.bind_eq_ok] at h
    obtain ⟨⟨b, ⟨c, es'⟩⟩, hb, h⟩ := h
    obtain ⟨p, loss, hp, ⟨hz, rfl, rfl⟩ | ⟨hz, rfl, rfl⟩⟩ := askToBear_ok hb
    · cases h
      exact ⟨w, rfl, .noRebalance hk hn (Or.inr ⟨plan, p, loss, hplan, hp, hz⟩)⟩
    · simp only [hz, if_false] at h
      have htoken : w.protocol.fToken = Coin.f.address := hl.protocol.token .f
      simp only [burn, lift_apply, save_apply, chain_apply, announce_apply, set_protocol, Outcome.ok_bind, bind_assoc,
        Outcome.bind_eq_ok, subtract_eq_ok, require_eq_ok] at h
      obtain ⟨supplyF, ⟨hle, rfl⟩, t, hf, owed, ho, _, hcover, h⟩ := h
      rw [htoken, onToken_apply, Outcome.bind_eq_ok] at hf
      obtain ⟨⟨f, logF⟩, hf, e⟩ := hf
      cases e
      rw [owed_eq _ rfl] at ho
      cases ho
      cases h
      rw [← htoken, ← hl.protocol.pool]
      exact ⟨_, rfl, .rebalance hk hn hplan hp hz hle hf hcover⟩

theorem askToIndex_ok {k : Nat}
    (h : askToIndex Launch.pool Launch.protocol n ⟨w.chain, es⟩ = .ok (k, s)) :
    ∃ p, w.pool.indexRewards Launch.protocol n = .ok (p, k) ∧
      s.chain = if k = 0 then w.chain else (w.setPool p).chain := by
  simp only [askToIndex, Pool.runIndexRewards, commit, bind_apply, lift_apply, chain_apply, callee_pool, Outcome.ok_bind,
    bind_assoc, Work.ite_apply, pure_apply, save_apply, announce_apply, set_pool, Outcome.bind_eq_ok] at h
  obtain ⟨⟨p, k'⟩, hp, h⟩ := h
  split at h
  next hz => cases h; exact ⟨p, hz ▸ hp, (if_pos rfl).symm⟩
  next hz => cases h; exact ⟨p, hp, (if_neg hz).symm⟩

theorem move_of_harvest (hl : w.Linked) {b : Nat}
    (h : Protocol.runHarvest Launch.protocol caller w.protocol n ⟨w.chain, es⟩ = .ok (b, s)) :
    ∃ w', s.chain = w'.chain ∧ w.Move caller Launch.protocol (.protocol (.harvest n)) (.amount b) w' := by
  simp only [Protocol.runHarvest, bind_apply, lift_apply, hl.protocol.pool, demand_some, Outcome.ok_bind, bind_assoc,
    Work.ite_apply, pure_apply, Outcome.bind_eq_ok, require_eq_ok, subtract_eq_ok] at h
  obtain ⟨_, hk, _, hn, share, ⟨-, rfl⟩, h⟩ := h
  split at h
  next hz =>
    cases h
    exact ⟨w, rfl, .noHarvest hk hn (Or.inl hz)⟩
  next =>
    rw [Outcome.bind_eq_ok] at h
    obtain ⟨⟨k, ⟨c, es'⟩⟩, hi, h⟩ := h
    obtain ⟨p, hp, rfl⟩ := askToIndex_ok hi
    by_cases hz : k = 0
    · subst hz
      cases h
      exact ⟨w, rfl, .noHarvest hk hn (Or.inr ⟨p, hp⟩)⟩
    · simp only [hz, if_false] at h
      simp only [draw, save_apply, announce_apply, set_protocol, Outcome.ok_bind, Outcome.bind_eq_ok] at h
      obtain ⟨q, hq, r, ht, h⟩ := h
      have hq' : q.reserveToken = Coin.reserve.address := by
        obtain ⟨rfl, -⟩ := Protocol.addReserve_ok hq
        exact hl.protocol.reserveToken
      rw [hq', onToken_apply, Outcome.bind_eq_ok] at ht
      obtain ⟨⟨t, log⟩, ht, e⟩ := ht
      cases e
      cases h
      exact ⟨_, rfl, .harvest hk hn hp hz hq ht⟩

theorem move_of_protocol (hl : w.Linked) (hc : caller.IsAccount) {c : Protocol.Call} {reply : Reply}
    (h : c.run Launch.protocol caller w.protocol ⟨w.chain, es⟩ = .ok (reply, s)) :
    ∃ w', s.chain = w'.chain ∧ w.Move caller Launch.protocol (.protocol c) reply w' := by
  cases c with
  | setPool | grantRole | revokeRole | renounceRole | setFees | setFeedConfig =>
    simp only [Protocol.Call.run, Protocol.runOnBooks, commit, bind_apply, lift_apply, save_apply, announce_apply,
      pure_apply, set_protocol, Outcome.ok_bind, bind_assoc, Outcome.bind_eq_ok] at h
    obtain ⟨⟨p, log⟩, hp, e⟩ := h
    cases e
    exact ⟨_, rfl, .books (congrArg some hp)⟩
  | updatePrice raw seen =>
    simp only [Protocol.Call.run, Protocol.runOnBooks, commit, bind_apply, lift_apply, chain_apply, save_apply,
      announce_apply, pure_apply, set_protocol, Outcome.ok_bind, bind_assoc, Outcome.bind_eq_ok] at h
    obtain ⟨⟨p, log⟩, hp, e⟩ := h
    cases e
    exact ⟨_, rfl, .books (congrArg some hp)⟩
  | withdrawTreasury recipient n =>
    obtain ⟨u, hr, rfl⟩ := bind_pure_eq_ok.1 h
    exact move_of_withdrawTreasury hl hr
  | recapitalize n =>
    obtain ⟨u, hr, rfl⟩ := bind_pure_eq_ok.1 h
    exact move_of_recapitalize hl hr
  | bootstrap n =>
    obtain ⟨u, hr, rfl⟩ := bind_pure_eq_ok.1 h
    exact move_of_bootstrap hl hr
  | mint leg n least =>
    obtain ⟨k, hr, rfl⟩ := bind_pure_eq_ok.1 h
    exact move_of_mint hl hr
  | redeem leg n least =>
    obtain ⟨k, hr, rfl⟩ := bind_pure_eq_ok.1 h
    exact move_of_redeem hl hr
  | rebalance target =>
    obtain ⟨k, hr, rfl⟩ := bind_pure_eq_ok.1 h
    exact move_of_rebalance hl hr
  | harvest n =>
    obtain ⟨k, hr, rfl⟩ := bind_pure_eq_ok.1 h
    exact move_of_harvest hl hr
  | payClaim recipient n =>
    simp only [Protocol.Call.run, Protocol.runPayClaim, bind_apply, lift_apply, bind_assoc, Outcome.bind_eq_ok] at h
    obtain ⟨p, hp, -⟩ := h
    -- Only the pool is paid claims, and it is no account.
    have := (Protocol.payClaim_ok hp).1
    rw [hl.protocol.pool] at this
    exact absurd (Option.some.inj this).symm hc.ne_pool

/-- A call that succeeds is a call of one of the contracts there are, of its own kind. -/
theorem call_ok {target : Address} {call : Call} {r : Receipt} (h : w.chain.call caller target call = .ok r) :
    (∃ k c t log, target = Coin.address k ∧ call = .token c ∧ c.apply (w.coin k) caller = .ok (t, log) ∧
        r.reply = c.reply ∧ r.chain = (w.setCoin k t).chain) ∨
      (∃ c s, target = Launch.protocol ∧ call = .protocol c ∧
        c.run Launch.protocol caller w.protocol ⟨w.chain, []⟩ = .ok (r.reply, s) ∧ r.chain = s.chain) ∨
      ∃ c s, target = Launch.pool ∧ call = .pool c ∧ c.run Launch.pool caller w.pool ⟨w.chain, []⟩ = .ok (r.reply, s) ∧
        r.chain = s.chain := by
  obtain ⟨⟨reply, s⟩, hrun, e⟩ := Outcome.bind_eq_ok.1 h
  cases e
  clear h
  change Chain.run caller target call ⟨w.chain, []⟩ = .ok (reply, s) at hrun
  simp only [Chain.run, bind_apply, lift_apply, chain_apply, Outcome.ok_bind, bind_assoc, Outcome.bind_eq_ok] at hrun
  obtain ⟨k, hk, hrun⟩ := hrun
  rcases callee_ok hk with ⟨k, rfl, rfl⟩ | ⟨rfl, rfl⟩ | ⟨rfl, rfl⟩
  · cases call with
    | token c =>
      simp only [commit, bind_apply, lift_apply, save_apply, announce_apply, pure_apply, set_coin, Outcome.ok_bind,
        bind_assoc, Outcome.bind_eq_ok] at hrun
      obtain ⟨⟨t, log⟩, ht, e⟩ := hrun
      cases e
      exact Or.inl ⟨k, c, t, log, rfl, rfl, ht, rfl, rfl⟩
    | protocol | pool | bench => cases hrun
  · cases call with
    | protocol c => exact Or.inr (Or.inl ⟨c, s, rfl, rfl, hrun, rfl⟩)
    | token | pool | bench => cases hrun
  · cases call with
    | pool c => exact Or.inr (Or.inr ⟨c, s, rfl, rfl, hrun, rfl⟩)
    | token | protocol | bench => cases hrun

/-- A permitted call by an account that succeeds is a move. -/
theorem move_of_call (hl : w.Linked) (hs : w.pool.Sound) (hc : caller.IsAccount) {target : Address} {call : Call}
    (hn : call.Permitted target) {r : Receipt} (h : w.chain.call caller target call = .ok r) :
    ∃ w', r.chain = w'.chain ∧ w.Move caller target call r.reply w' := by
  rcases call_ok h with ⟨k, c, t, log, rfl, rfl, ht, hreply, hchain⟩ | ⟨c, s, rfl, rfl, hrun, hchain⟩ |
    ⟨c, s, rfl, rfl, hrun, hchain⟩
  · rw [hreply]
    exact ⟨_, hchain, .token ht⟩
  · rw [hchain]
    exact move_of_protocol hl hc hrun
  · rw [hchain]
    exact move_of_pool hl hs hc hn hrun

/-! ### Every move is a call -/

/-- A mint from its books to its event, which gives the price. -/
theorem run_mint (hl : w.Linked) {leg : Leg} {least : Nat} {p : Protocol} {q : Priced} {t u : Token} {log logU : List Event}
    (hp : w.protocol.mint w.now (.ok w.pool.owed) leg n least = .ok (p, q))
    (ht : (w.coin .reserve).transferFrom Launch.protocol caller Launch.protocol n = .ok (t, log))
    (hu : (w.coin leg.coin).mint Launch.protocol caller q.out = .ok (u, logU)) :
    Chain.run caller Launch.protocol (.protocol (.mint leg n least)) ⟨w.chain, []⟩ =
      .ok (.amount q.out, ⟨(((w.setProtocol p).setCoin .reserve t).setCoin leg.coin u).chain,
        (log.map fun e => (Coin.reserve.address, e)) ++ (logU.map fun e => (leg.coin.address, e)) ++
          [(Launch.protocol, .minted caller (.mint leg) q.level n q.out q.charge.fee q.charge.bonus)]⟩) := by
  have howed := owed_eq w hl.protocol.pool
  have hp' := (Protocol.mint_ok hp).1.linked hl.protocol
  change w.protocol.mint w.chain.now _ leg n least = _ at hp
  simp only [Chain.run, Protocol.Call.run, Protocol.runMint, draw, Work.mint, bind_apply, lift_apply, chain_apply, save_apply,
    announce_apply, pure_apply, callee_protocol, set_protocol, Outcome.ok_bind, howed, hp, hp'.reserveToken, hp'.token,
    onToken_apply, coin_setProtocol, coin_setCoin, Leg.coin_ne_reserve, if_false, ht, hu]
  rfl

/-- A redemption from its books to its event, which gives the price. -/
theorem run_redeem (hl : w.Linked) {leg : Leg} {least : Nat} {p : Protocol} {q : Priced} {t u : Token}
    {log logU : List Event} (hp : w.protocol.redeem w.now (.ok w.pool.owed) leg n least = .ok (p, q))
    (hu : (w.coin leg.coin).burnFrom Launch.protocol caller n = .ok (u, logU))
    (ht : (w.coin .reserve).transfer Launch.protocol caller q.out = .ok (t, log)) :
    Chain.run caller Launch.protocol (.protocol (.redeem leg n least)) ⟨w.chain, []⟩ =
      .ok (.amount q.out, ⟨(((w.setProtocol p).setCoin leg.coin u).setCoin .reserve t).chain,
        (logU.map fun e => (leg.coin.address, e)) ++ (log.map fun e => (Coin.reserve.address, e)) ++
          [(Launch.protocol, .redeemed caller (.redeem leg) q.level n q.out q.charge.fee q.charge.bonus)]⟩) := by
  have howed := owed_eq w hl.protocol.pool
  have hp' := (Protocol.redeem_ok hp).1.linked hl.protocol
  change w.protocol.redeem w.chain.now _ leg n least = _ at hp
  simp only [Chain.run, Protocol.Call.run, Protocol.runRedeem, burn, pay, bind_apply, lift_apply, chain_apply, save_apply,
    announce_apply, pure_apply, callee_protocol, set_protocol, Outcome.ok_bind, howed, hp, hp'.reserveToken, hp'.token,
    onToken_apply, coin_setProtocol, coin_setCoin, (Leg.coin_ne_reserve leg).symm, if_false, hu, ht]
  rfl

/-- A rebalance that burns nothing writes and announces nothing. -/
theorem run_noRebalance (hl : w.Linked) {target : Nat} (hk : w.protocol.roles.requireKeeper caller = .ok ())
    (ht : target ≠ 0) (hp : w.protocol.planRebalance w.now (.ok w.pool.owed) target = .ok none ∨
      ∃ plan p loss, w.protocol.planRebalance w.now (.ok w.pool.owed) target = .ok (some plan) ∧
        w.pool.bear Launch.protocol plan.burn plan.payout = .ok (p, loss) ∧ loss.burn = 0) :
    Chain.run caller Launch.protocol (.protocol (.rebalance target)) ⟨w.chain, []⟩ =
      .ok (.amounts 0 0, ⟨w.chain, []⟩) := by
  have howed := owed_eq w hl.protocol.pool
  change w.protocol.planRebalance w.chain.now _ target = _ ∨
    ∃ plan p loss, w.protocol.planRebalance w.chain.now _ target = _ ∧ _ at hp
  obtain hp | ⟨plan, p, loss, hp, hb, hz⟩ := hp <;>
    simp only [Chain.run, Protocol.Call.run, Protocol.runRebalance, bind_apply, lift_apply, chain_apply, pure_apply,
      callee_protocol, Outcome.ok_bind, hk, require, if_pos ht, hl.protocol.pool, demand_some, howed, hp]
  simp only [askToBear, Pool.runBear, bind_apply, lift_apply, chain_apply, callee_pool, Outcome.ok_bind, hb, hz, if_true,
    pure_apply]

/-- A rebalance from its plan to its event. -/
theorem run_rebalance (hl : w.Linked) {target : Nat} {plan : Protocol.Plan} {p : Pool} {loss : Loss} {f : Token}
    {logF : List Event} (hk : w.protocol.roles.requireKeeper caller = .ok ()) (ht : target ≠ 0)
    (hplan : w.protocol.planRebalance w.now (.ok w.pool.owed) target = .ok (some plan))
    (hp : w.pool.bear Launch.protocol plan.burn plan.payout = .ok (p, loss)) (hb : loss.burn ≠ 0)
    (hle : loss.burn ≤ w.protocol.supplyF)
    (hf : (w.coin .f).burnFrom Launch.protocol Launch.pool loss.burn = .ok (f, logF)) (ho : p.owed ≤ w.protocol.reserve) :
    Chain.run caller Launch.protocol (.protocol (.rebalance target)) ⟨w.chain, []⟩ =
      .ok (.amounts loss.burn loss.payout,
        ⟨(((w.setPool p).setProtocol { w.protocol with supplyF := w.protocol.supplyF - loss.burn }).setCoin .f f).chain,
          [(Launch.pool, .lossShared loss.burn loss.payout loss.scale p.index)] ++
            (logF.map fun e => (Coin.f.address, e)) ++
            [(Launch.protocol, .rebalanced caller target loss.burn loss.payout
              (collateralRatio w.protocol.reserve p.owed plan.price (w.protocol.supplyF - loss.burn) stablePrice))]⟩) := by
  have howed := owed_eq w hl.protocol.pool
  have htoken : w.protocol.fToken = Coin.f.address := hl.protocol.token .f
  have hpool := hl.protocol.pool
  change w.protocol.planRebalance w.chain.now _ target = _ at hplan
  simp only [Chain.run, Protocol.Call.run, Protocol.runRebalance, askToBear, Pool.runBear, commit, burn, bind_apply,
    lift_apply, chain_apply, save_apply, announce_apply, pure_apply, callee_protocol, callee_pool, set_protocol, set_pool,
    Outcome.ok_bind, hk, require, if_pos ht, hpool, demand_some, howed, hplan, hp, hb, if_false, subtract, if_pos hle,
    htoken, onToken_apply, coin_setProtocol, coin_setPool, hf]
  rw [owed_eq _ rfl]
  simp only [Outcome.ok_bind, pool_setCoin, pool_setProtocol, pool_setPool, if_pos ho, ← htoken, ← hpool]
  rfl

/-- A move is what the call does: the call succeeds, with the answer of the move, and leads to its world. -/
theorem Move.exists_call (hl : w.Linked) (hs : w.pool.Sound) {target : Address} {call : Call} {reply : Reply} {w' : World}
    (hm : w.Move caller target call reply w') :
    ∃ r, w.chain.call caller target call = .ok r ∧ r.reply = reply ∧ r.chain = w'.chain := by
  -- It suffices to follow the run of the call, and to forget the events.
  suffices h : (Chain.run caller target call ⟨w.chain, []⟩).map (fun r => (r.1, r.2.chain)) = .ok (reply, w'.chain) by
    obtain ⟨⟨reply', s⟩, hrun, e⟩ := Outcome.map_eq_ok.1 h
    obtain ⟨hreply, hchain⟩ := Prod.mk.inj e
    exact ⟨_, Outcome.bind_eq_ok.2 ⟨_, hrun, rfl⟩, hreply, hchain⟩
  have howed := owed_eq w hl.protocol.pool
  have hnow : w.now = w.chain.now := rfl
  cases hm with
  | token ht =>
    simp only [Chain.run, commit, bind_apply, lift_apply, chain_apply, save_apply, announce_apply, pure_apply, callee_coin,
      set_coin, Outcome.ok_bind, ht]
    rfl
  | @books c p log hp =>
    cases c with
    | setPool | grantRole | revokeRole | renounceRole | setFees | setFeedConfig | updatePrice =>
      simp only [Protocol.Call.onBooks, Option.some.injEq, hnow] at hp
      simp only [Chain.run, Protocol.Call.run, Protocol.runOnBooks, commit, bind_apply, lift_apply, chain_apply,
        save_apply, announce_apply, pure_apply, callee_protocol, Outcome.ok_bind, hp, set_protocol]
      rfl
    | withdrawTreasury | recapitalize | bootstrap | mint | redeem | rebalance | harvest | payClaim => cases hp
  | @withdrawTreasury _ _ p t log hp ht =>
    have hp' : p.reserveToken = Coin.reserve.address := by
      obtain ⟨-, treasury, -, rfl⟩ := Protocol.withdrawTreasury_ok hp
      exact hl.protocol.reserveToken
    simp only [Chain.run, Protocol.Call.run, Protocol.runWithdrawTreasury, pay, bind_apply, lift_apply, chain_apply,
      save_apply, announce_apply, pure_apply, callee_protocol, set_protocol, Outcome.ok_bind, hp, hp', onToken_apply,
      coin_setProtocol, ht]
    rfl
  | @recapitalize _ p t log hp ht =>
    have hp' : p.reserveToken = Coin.reserve.address ∧ p.pool = some Launch.pool := by
      obtain ⟨-, rfl⟩ := Protocol.recapitalize_ok hp
      exact ⟨hl.protocol.reserveToken, hl.protocol.pool⟩
    simp only [Chain.run, Protocol.Call.run, Protocol.runRecapitalize, draw, bind_apply, lift_apply, chain_apply,
      save_apply, announce_apply, pure_apply, callee_protocol, set_protocol, Outcome.ok_bind, hp, hp'.1, onToken_apply,
      coin_setProtocol, ht, owed_eq _ hp'.2]
    rfl
  | @bootstrap _ p t f x _ _ _ hp ht hf hx =>
    have hp' : p.reserveToken = Coin.reserve.address ∧ p.fToken = Coin.f.address ∧ p.xToken = Coin.x.address := by
      obtain ⟨-, -, -, e⟩ := Protocol.bootstrap_ok hp
      rw [e]
      exact ⟨hl.protocol.reserveToken, hl.protocol.token .f, hl.protocol.token .x⟩
    rw [hnow] at hp
    simp only [Chain.run, Protocol.Call.run, Protocol.runBootstrap, draw, Work.mint, bind_apply, lift_apply, chain_apply,
      save_apply, announce_apply, pure_apply, callee_protocol, set_protocol, Outcome.ok_bind, hp, hp', onToken_apply,
      coin_setProtocol, coin_setCoin, reduceCtorEq, if_false, ht, hf, hx]
    rfl
  | mint hp ht hu =>
    rw [run_mint hl hp ht hu]
    rfl
  | redeem hp hu ht =>
    rw [run_redeem hl hp hu ht]
    rfl
  | noRebalance hk ht hp =>
    rw [run_noRebalance hl hk ht hp]
    rfl
  | rebalance hk ht hplan hp hb hle hf ho =>
    rw [run_rebalance hl hk ht hplan hp hb hle hf ho]
    rfl
  | @noHarvest n hk hn hi =>
    have hle := Protocol.bounty_le n
    simp only [Chain.run, Protocol.Call.run, Protocol.runHarvest, bind_apply, lift_apply, chain_apply, pure_apply,
      callee_protocol, Outcome.ok_bind, hk, require, if_pos hn, hl.protocol.pool, demand_some, subtract, if_pos hle]
    by_cases hz : n - Protocol.bounty n = 0
    · simp only [hz, if_true, pure_apply]
      rfl
    · obtain ⟨p, hp⟩ := hi.resolve_left hz
      simp only [hz, if_false, askToIndex, Pool.runIndexRewards, bind_apply, lift_apply, chain_apply, callee_pool,
        Outcome.ok_bind, hp, if_true, pure_apply]
      rfl
  | @harvest n k s p t _ hk hn hi hpos hp ht =>
    have hle := Protocol.bounty_le n
    have hz : n - Protocol.bounty n ≠ 0 := by
      obtain ⟨-, ⟨hz, -⟩ | ⟨-, rfl, -⟩⟩ := Pool.indexRewards_cases hi
      · exact absurd hz hpos
      · exact hpos
    have hp' : p.reserveToken = Coin.reserve.address := by
      obtain ⟨rfl, -⟩ := Protocol.addReserve_ok hp
      exact hl.protocol.reserveToken
    simp only [Chain.run, Protocol.Call.run, Protocol.runHarvest, askToIndex, Pool.runIndexRewards, commit, draw, bind_apply,
      lift_apply, chain_apply, save_apply, announce_apply, pure_apply, callee_protocol, callee_pool, set_protocol, set_pool,
      Outcome.ok_bind, hk, require, if_pos hn, hl.protocol.pool, demand_some, subtract, if_pos hle, hz, if_false, hi, hpos,
      hp, hp', onToken_apply, coin_setProtocol, coin_setPool, ht]
    rfl
  | deposit hp ht =>
    have hp' := (hs.deposit_ok hp).1.linked hl.pool
    simp only [Chain.run, Pool.Call.run, Pool.runDeposit, draw, bind_apply, lift_apply, chain_apply, save_apply,
      announce_apply, pure_apply, callee_pool, set_pool, Outcome.ok_bind, hp, hp'.token, onToken_apply, coin_setPool, ht]
    rfl
  | withdraw hp ht =>
    have hp' := (hs.withdraw_ok hp).1.linked hl.pool
    simp only [Chain.run, Pool.Call.run, Pool.runWithdraw, pay, bind_apply, lift_apply, chain_apply, save_apply,
      announce_apply, pure_apply, callee_pool, set_pool, Outcome.ok_bind, hp, hp'.token, onToken_apply, coin_setPool, ht]
    rfl
  | claimNothing hp =>
    simp only [Chain.run, Pool.Call.run, Pool.runClaim, bind_apply, lift_apply, chain_apply, save_apply, pure_apply,
      callee_pool, set_pool, Outcome.ok_bind, hp, if_true]
    rfl
  | @claim _ p q t _ hp hn hq ht =>
    have hp' : p.controller = some Launch.protocol := by
      obtain ⟨-, -, -, s, hr, -⟩ := hs.claim_ok hp
      exact hr.controller.trans hl.pool.controller
    have hq' : q.reserveToken = Coin.reserve.address := by
      obtain ⟨-, -, rfl⟩ := Protocol.payClaim_ok hq
      exact hl.protocol.reserveToken
    simp only [Chain.run, Pool.Call.run, Pool.runClaim, askForPayment, Protocol.runPayClaim, pay, bind_apply, lift_apply,
      chain_apply, save_apply, announce_apply, pure_apply, callee_pool, callee_protocol, protocol_setPool, set_pool,
      set_protocol, Outcome.ok_bind, hp, hn, if_false, hp', demand_some, hq, hq', onToken_apply, coin_setProtocol,
      coin_setPool, ht]
    rfl
  | close hp =>
    simp only [Chain.run, Pool.Call.run, Pool.runClose, commit, bind_apply, lift_apply, chain_apply, save_apply,
      announce_apply, pure_apply, callee_pool, set_pool, Outcome.ok_bind, hp]
    rfl

end World

end SplitReserve
