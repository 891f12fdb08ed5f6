import SplitReserve.Proofs.World.Tally

/-!
# Supplies

The protocol books every token that it mints or burns, so the supply of a leg changes as its books do.  But anyone who holds tokens
of a leg can also burn them at the token, without the protocol, and then the books have too many, for good: what is on the books is
always the supply with all that holders have burned so.  The protocol's own check holds as long as nobody has burned any.
-/

namespace SplitReserve

/-- The tokens of a leg that a call destroys without the protocol. -/
def Call.burned (leg : Leg) (target : Address) : Call → Nat
  | .token c => if target = leg.coin.address then c.burned else 0
  | .protocol _ | .pool _ | .bench _ => 0

/-- The tokens of a leg that holders have burned in a run. -/
def Chain.burned (c : Chain) (leg : Leg) (steps : List Step) : Nat :=
  c.tally (fun _ target call => call.burned leg target) steps

namespace World

variable {w w' : World} {caller target : Address} {call : Call} {reply : Reply} {leg : Leg} {k : Nat}

theorem supplyAt_coin (w : World) (c : Coin) : w.chain.supplyAt c.address = .ok (w.coin c).supply := by
  rw [Chain.supplyAt, callee_coin]
  rfl

theorem balanceAt_coin (w : World) (c : Coin) (a : Address) : w.chain.balanceAt c.address a = .ok ((w.coin c).balance a) := by
  rw [Chain.balanceAt, callee_coin]
  rfl

/-- Since the reserve covers the rewards and the protocol holds what it must, its check is about the supplies alone. -/
theorem Sound.invariant_eq (hw : w.Sound) : w.protocol.invariant w.chain Launch.protocol =
    .ok (decide ((w.coin .f).supply = w.protocol.supplyF ∧ (w.coin .x).supply = w.protocol.supplyX)) := by
  have hlinked := hw.linked.protocol
  have hf : w.protocol.fToken = Coin.f.address := hlinked.token .f
  have hx : w.protocol.xToken = Coin.x.address := hlinked.token .x
  have hwide : addWide w.protocol.reserve w.protocol.treasury.balance =
      .ok (w.protocol.reserve + w.protocol.treasury.balance) := by
    have hwhole := (hw.ordered .reserve).whole
    have := hw.held
    have := hwhole.balance_le Launch.protocol
    have := hwhole.wide
    exact addWide_eq_ok.2 ⟨by omega, rfl⟩
  simp only [Protocol.invariant, owed_eq w hlinked.pool, hf, hx, hlinked.reserveToken, supplyAt_coin, balanceAt_coin, hwide,
    Outcome.ok_bind, if_neg (Nat.not_lt.2 hw.owed_le)]
  by_cases hsF : (w.coin .f).supply = w.protocol.supplyF <;> by_cases hsX : (w.coin .x).supply = w.protocol.supplyX <;>
    simp [hsF, hsX, hw.held, pure, Except.pure]

/-- What is on the books of a leg is the supply of its token, with `k` tokens that holders have burned. -/
def Booked (w : World) (leg : Leg) (k : Nat) : Prop := (w.coin leg.coin).supply + k = w.protocol.supply leg

namespace Booked

variable {n : Nat} {log logU : List Event}

/-- Neither the supply nor the books have changed. -/
theorem of_eq (h : w.Booked leg k) (ht : (w'.coin leg.coin).supply = (w.coin leg.coin).supply)
    (hp : w'.protocol.supply leg = w.protocol.supply leg) : w'.Booked leg k := by
  rw [Booked, ht, hp]
  exact h

theorem token (h : w.Booked leg k) (hw : w.Sound) (hc : caller.IsAccount) {c : Coin} {call : Token.Call} {t : Token}
    (ht : call.apply (w.coin c) caller = .ok (t, log)) :
    (w.setCoin c t).Booked leg (k + (Call.token call).burned leg c.address) := by
  unfold Booked at h ⊢
  rw [coin_setCoin, protocol_setCoin, Call.burned]
  by_cases he : leg.coin = c
  · subst he
    have hminter := (hw.ordered leg.coin).not_minter leg.coin_ne_reserve hc
    have := Token.Call.supply_add_burned hminter ht
    rw [if_pos rfl, if_pos rfl]
    omega
  · rw [if_neg he, if_neg fun e => he (Coin.address_inj.1 e).symm]
    exact h

/-- There were no tokens of the leg before, and none were burned. -/
theorem bootstrap (h : w.Booked leg k) (hw : w.Sound) {p : Protocol} {t f x : Token} {logF logX : List Event}
    (hp : w.protocol.bootstrap caller w.now n = .ok p)
    (hf : (w.coin .f).mint Launch.protocol caller p.supplyF = .ok (f, logF))
    (hx : (w.coin .x).mint Launch.protocol caller p.supplyX = .ok (x, logX)) :
    ((((w.setProtocol p).setCoin .reserve t).setCoin .f f).setCoin .x x).Booked leg k := by
  unfold Booked at h
  have hzero := (hw.dormant (Protocol.bootstrap_ok hp).1).2 leg
  cases leg with
  | f =>
    have : f.supply + 0 = (w.coin .f).supply + p.supplyF := (Token.mint_flow hf).1.supply
    change (w.coin .f).supply + k = _ at h
    change f.supply + k = p.supplyF
    omega
  | x =>
    have : x.supply + 0 = (w.coin .x).supply + p.supplyX := (Token.mint_flow hx).1.supply
    change (w.coin .x).supply + k = _ at h
    change x.supply + k = p.supplyX
    omega

theorem mint (h : w.Booked leg k) {l : Leg} {least : Nat} {p : Protocol} {q : Priced} {t u : Token}
    (hp : w.protocol.mint w.now (.ok w.pool.owed) l n least = .ok (p, q))
    (hu : (w.coin l.coin).mint Launch.protocol caller q.out = .ok (u, logU)) :
    (((w.setProtocol p).setCoin .reserve t).setCoin l.coin u).Booked leg k := by
  have hsupply : u.supply + 0 = (w.coin l.coin).supply + q.out := (Token.mint_flow hu).1.supply
  unfold Booked at h
  change _ = p.supply leg
  rw [coin_setCoin, coin_setReserve, (Protocol.mint_ok hp).1.supply]
  simp only [Leg.coin_inj]
  split
  next e =>
    subst e
    omega
  next => exact h

theorem redeem (h : w.Booked leg k) {l : Leg} {least : Nat} {p : Protocol} {q : Priced} {t u : Token}
    (hp : w.protocol.redeem w.now (.ok w.pool.owed) l n least = .ok (p, q))
    (hu : (w.coin l.coin).burnFrom Launch.protocol caller n = .ok (u, logU)) :
    (((w.setProtocol p).setCoin l.coin u).setCoin .reserve t).Booked leg k := by
  obtain ⟨hr, -⟩ := Protocol.redeem_ok hp
  have hle := hr.amount_le
  have hsupply : u.supply + n = (w.coin l.coin).supply + 0 := (Token.burnFrom_flow hu).1.supply
  unfold Booked at h
  change _ = p.supply leg
  rw [coin_setReserve, coin_setCoin, hr.supply]
  simp only [Leg.coin_inj]
  split
  next e =>
    subst e
    omega
  next => exact h

theorem rebalance (h : w.Booked leg k) {s : Pool} {f : Token}
    (hf : (w.coin .f).burnFrom Launch.protocol Launch.pool n = .ok (f, log)) :
    (((w.setPool s).setProtocol { w.protocol with supplyF := w.protocol.supplyF - n }).setCoin .f f).Booked leg k := by
  cases leg with
  | f =>
    have hsupply : f.supply + n = (w.coin .f).supply + 0 := (Token.burnFrom_flow hf).1.supply
    change (w.coin .f).supply + k = w.protocol.supplyF at h
    change f.supply + k = w.protocol.supplyF - n
    omega
  | x => exact h

/-- Stable tokens that come to the pool or leave it stay in the supply. -/
theorem move (h : w.Booked leg k) {s : Pool} {t : Token} (ht : t.supply + 0 = (w.coin .f).supply + 0) :
    ((w.setPool s).setCoin .f t).Booked leg k := by
  refine h.of_eq ?_ rfl
  cases leg with
  | f => exact ht
  | x => rfl

end Booked

/-- Calls of the protocol and of the pool book what they mint and burn; calls of a token are counted. -/
theorem Sound.booked_move (hw : w.Sound) (hc : caller.IsAccount) (hn : call.Permitted target)
    (hm : w.Move caller target call reply w') (h : w.Booked leg k) : w'.Booked leg (k + call.burned leg target) := by
  cases hm with
  | token ht => exact h.token hw hc ht
  | books hp =>
    obtain ⟨roles, feed, fees, rfl, -⟩ := Protocol.Call.onBooks_ok hp hn
    exact h.of_eq rfl (by cases leg <;> rfl)
  | withdrawTreasury hp ht =>
    obtain ⟨-, treasury, -, rfl⟩ := Protocol.withdrawTreasury_ok hp
    exact h.of_eq (by rw [coin_setReserve, coin_setProtocol]) (by cases leg <;> rfl)
  | recapitalize hp ht =>
    obtain ⟨-, rfl⟩ := Protocol.recapitalize_ok hp
    exact h.of_eq (by rw [coin_setReserve, coin_setProtocol]) (by cases leg <;> rfl)
  | bootstrap hp ht hf hx => exact h.bootstrap hw hp hf hx
  | mint hp ht hu => exact h.mint hp hu
  | redeem hp hu ht => exact h.redeem hp hu
  | noRebalance | noHarvest | claimNothing | close => exact h
  | rebalance hk ht hplan hp hb hle hf ho => exact h.rebalance hf
  | harvest hk hn hi hpos hp ht =>
    obtain ⟨rfl, -⟩ := Protocol.addReserve_ok hp
    exact h.of_eq (by rw [coin_setReserve, coin_setProtocol, coin_setPool]) (by cases leg <;> rfl)
  | deposit hp ht => exact h.move (Token.transferFrom_flow ht).1.supply
  | withdraw hp ht => exact h.move (Token.transfer_flow ht).1.supply
  | claim hs hpos hp ht =>
    obtain ⟨-, -, rfl⟩ := Protocol.payClaim_ok hp
    exact h.of_eq (by rw [coin_setReserve, coin_setProtocol, coin_setPool]) (by cases leg <;> rfl)

theorem exists_after_wired_booked {steps : List Step} (hs : ∀ s ∈ steps, s.Wired) (leg : Leg) :
    ∃ w : World, Launch.wired.after steps = w.chain ∧ w.Sound ∧ w.Booked leg (Launch.wired.burned leg steps) := by
  refine exists_after_wired_tally (P := fun v k => v.Booked leg k) hs ?_ ?_ fun v clock k h => h
  · intro v hv hnew _
    have hzero := (hv.dormant hnew).2 leg
    have := hv.supply_le leg
    unfold Booked
    omega
  · intro caller target call hmem v v' reply k hv hm h
    obtain ⟨hc, hn⟩ := hs _ hmem
    exact hv.booked_move hc hn hm h

/-- In every state of every wired run, what is on the books of a leg is the supply of its token with what holders have burned
of it, and the protocol's check holds just when they have burned nothing. -/
theorem supply_add_burned_after_wired (steps : List Step) (hs : ∀ s ∈ steps, s.Wired) :
    ∃ w : World, Launch.wired.after steps = w.chain ∧
      (∀ leg : Leg, (w.coin leg.coin).supply + Launch.wired.burned leg steps = w.protocol.supply leg) ∧
      w.chain.query Launch.protocol (.protocol .invariant) =
        .ok (.flag (decide (Launch.wired.burned .f steps = 0 ∧ Launch.wired.burned .x steps = 0))) := by
  obtain ⟨w, hchain, hw, hf⟩ := exists_after_wired_booked hs .f
  obtain ⟨v, hv, -, hx⟩ := exists_after_wired_booked hs .x
  obtain rfl := chain_inj.1 (hv.symm.trans hchain)
  refine ⟨v, hchain, fun leg => by cases leg <;> assumption, ?_⟩
  change (v.coin .f).supply + _ = v.protocol.supplyF at hf
  change (v.coin .x).supply + _ = v.protocol.supplyX at hx
  rw [query_protocol, Protocol.Query.answer, hw.invariant_eq, Outcome.map_ok]
  congr 3
  exact propext (by omega)

end World

/-! ### A burn -/

namespace Launch

/-- After the first trades a holder burns a stable token, and another tries to burn one that it does not have. -/
def burntTrades : List Step :=
  firstTrades ++ [.call alice fToken (.token (.burn 1)), .call bob fToken (.token (.burn 1))]

theorem burntTrades_wired : ∀ s ∈ burntTrades, s.Wired := by
  intro s hs
  rcases List.mem_append.1 hs with h | h
  · exact firstTrades_wired s h
  · simp only [List.mem_cons, List.not_mem_nil, or_false] at h
    obtain rfl | rfl := h <;> exact ⟨trivial, not_false, fun _ _ => Token.Call.noConfusion⟩

end Launch

theorem World.supply_add_burned_after_burntTrades : (∀ s ∈ Launch.burntTrades, s.Wired) ∧
    ∃ w : World, Launch.wired.after Launch.burntTrades = w.chain ∧
      (w.coin .f).supply + 1 = w.protocol.supplyF ∧ (w.coin .x).supply = w.protocol.supplyX ∧
      w.chain.query Launch.protocol (.protocol .invariant) = .ok (.flag false) := by
  have hf : Launch.wired.burned .f Launch.burntTrades = 1 := by decide +kernel
  have hx : Launch.wired.burned .x Launch.burntTrades = 0 := by decide +kernel
  obtain ⟨w, hchain, hbooked, hcheck⟩ := supply_add_burned_after_wired _ Launch.burntTrades_wired
  rw [hf, hx] at hcheck
  have hbookedF := hbooked .f
  have hbookedX := hbooked .x
  rw [hf] at hbookedF
  rw [hx] at hbookedX
  exact ⟨Launch.burntTrades_wired, w, hchain, hbookedF, hbookedX, hcheck⟩

/-- The token has one stable token fewer than the books, and the protocol's check fails. -/
theorem World.supply_lt_books_after_burntTrades : (∀ s ∈ Launch.burntTrades, s.Wired) ∧
    (Launch.wired.after Launch.burntTrades).query Launch.fToken (.token .supply) = .ok (.amount 1198999999999) ∧
    (Launch.wired.after Launch.burntTrades).query Launch.protocol (.protocol .supplyF) = .ok (.amount 1199000000000) ∧
    (Launch.wired.after Launch.burntTrades).query Launch.protocol (.protocol .invariant) = .ok (.flag false) := by
  refine ⟨Launch.burntTrades_wired, ?_, ?_, ?_⟩ <;> decide +kernel

end SplitReserve
