import SplitReserve.Proofs.World.Tally

/-!
# Holdings

As long as nobody else touches its reserve tokens, the protocol knows of all that it has: its balance is the reserve and the treasury
on its books, down to the last unit.  There is one exception.  The first reserve is written over what was on the books before it,
so the gifts to a protocol that had no reserve yet are held but on no book from then on (`Chain.earlyGifts`).
-/

namespace SplitReserve

/-- The permitted calls that leave the reserve tokens of the protocol to itself. -/
@[mk_iff]
structure Call.Orderly (target : Address) (c : Call) : Prop where
  permitted : c.Permitted target
  untouched : ∀ t, c = .token t → target = Launch.reserveToken → ¬ t.Touches Launch.protocol
  withdrawn : ∀ n, c ≠ .protocol (.withdrawTreasury Launch.protocol n)

/-- The steps of a wired run in which the calls are orderly. -/
def Step.Orderly : Step → Prop
  | .call caller target c => caller.IsAccount ∧ c.Orderly target
  | .wait _ => True

theorem Step.Orderly.wired {s : Step} (h : s.Orderly) : s.Wired := by
  cases s with
  | call => exact ⟨h.1, h.2.permitted⟩
  | wait => trivial

/-- What a call gives to a protocol that has not had its first reserve. -/
def Chain.earlyGift (c : Chain) (target : Address) : Call → Nat
  | .protocol (.recapitalize n) => if c.query target (.protocol .bootstrapped) = .ok (.flag false) then n else 0
  | _ => 0

/-- What was given in a run before the first reserve. -/
def Chain.earlyGifts (c : Chain) (steps : List Step) : Nat := c.tally earlyGift steps

namespace World

variable {w w' : World} {caller target : Address} {call : Call} {reply : Reply} {k : Nat}

/-- All that the protocol holds is on its books, but for the gifts `k` that came before the first reserve, which are on them only
until it comes. -/
structure Accounted (w : World) (k : Nat) : Prop where
  held : (w.coin .reserve).balance Launch.protocol =
    w.protocol.reserve + w.protocol.treasury.balance + if w.protocol.bootstrapped then k else 0
  early : w.protocol.bootstrapped = false → w.protocol.reserve = k

theorem Accounted.balance_eq (h : w.Accounted k) (hb : w.protocol.bootstrapped = true) :
    (w.coin .reserve).balance Launch.protocol = w.protocol.reserve + w.protocol.treasury.balance + k := by
  have hheld := h.held
  rwa [hb, if_pos rfl] at hheld

theorem accounted_of_bootstrapped (hb : w.protocol.bootstrapped = true)
    (h : (w.coin .reserve).balance Launch.protocol = w.protocol.reserve + w.protocol.treasury.balance + k) :
    w.Accounted k where
  held := by rw [h, hb, if_pos rfl]
  early hnew := by
    rw [hb] at hnew
    cases hnew

/-- Nothing is harvested before the first reserve. -/
theorem Sound.bootstrapped_of_shares (hw : w.Sound) (h : w.pool.shares ≠ 0) : w.protocol.bootstrapped = true := by
  by_contra hb
  exact h (hw.shares_eq_zero (Bool.not_eq_true _ ▸ hb))

/-- Nothing is claimed before the first reserve. -/
theorem Sound.bootstrapped_of_owed (hw : w.Sound) (h : w.pool.owed ≠ 0) : w.protocol.bootstrapped = true := by
  by_contra hb
  exact h (hw.dormant (Bool.not_eq_true _ ▸ hb)).1

theorem earlyGift_recapitalize (w : World) (n : Nat) :
    w.chain.earlyGift Launch.protocol (.protocol (.recapitalize n)) = if w.protocol.bootstrapped then 0 else n := by
  rw [Chain.earlyGift, query_protocol, Protocol.Query.answer]
  cases w.protocol.bootstrapped <;> simp

namespace Accounted

variable {n : Nat} {log : List Event}

/-- A gift before the first reserve is counted, since the first reserve will take its place on the books. -/
theorem recapitalize (h : w.Accounted k) (hc : caller.IsAccount) {p : Protocol} {t : Token}
    (hp : w.protocol.recapitalize caller n = .ok p)
    (ht : (w.coin .reserve).transferFrom Launch.protocol caller Launch.protocol n = .ok (t, log)) :
    ((w.setProtocol p).setCoin .reserve t).Accounted (k + if w.protocol.bootstrapped then 0 else n) := by
  obtain ⟨-, rfl⟩ := Protocol.recapitalize_ok hp
  have hin := (Token.transferFrom_flow ht).1.balance_target hc.ne_protocol
  by_cases hb : w.protocol.bootstrapped = true
  · have hheld := h.balance_eq hb
    refine accounted_of_bootstrapped hb ?_
    rw [if_pos hb]
    change t.balance Launch.protocol = w.protocol.reserve + n + w.protocol.treasury.balance + k
    omega
  · have hheld := h.held
    rw [if_neg hb] at hheld ⊢
    refine ⟨?_, fun hnew => congrArg (· + n) (h.early hnew)⟩
    change t.balance Launch.protocol = w.protocol.reserve + n + w.protocol.treasury.balance +
      if w.protocol.bootstrapped then k + n else 0
    rw [if_neg hb]
    omega

/-- The first reserve takes the place of the gifts on the books, but not in the balance. -/
theorem bootstrap (h : w.Accounted k) (hc : caller.IsAccount) {p : Protocol} {t f x : Token}
    (hp : w.protocol.bootstrap caller w.now n = .ok p)
    (ht : (w.coin .reserve).transferFrom Launch.protocol caller Launch.protocol n = .ok (t, log)) :
    ((((w.setProtocol p).setCoin .reserve t).setCoin .f f).setCoin .x x).Accounted k := by
  obtain ⟨hnew, -, -, e⟩ := Protocol.bootstrap_ok hp
  have hin := (Token.transferFrom_flow ht).1.balance_target hc.ne_protocol
  have hheld := h.held
  have hgifts := h.early hnew
  have hreserve : p.reserve = n := by rw [e]
  have htreasury : p.treasury = w.protocol.treasury := by rw [e]
  rw [hnew, if_neg Bool.false_ne_true] at hheld
  refine accounted_of_bootstrapped (show p.bootstrapped = true by rw [e]) ?_
  change t.balance Launch.protocol = p.reserve + p.treasury.balance + k
  rw [hreserve, htreasury]
  omega

/-- What comes in is split between the reserve and the treasury. -/
theorem mint (h : w.Accounted k) (hc : caller.IsAccount) {leg : Leg} {least : Nat} {p : Protocol} {q : Priced} {t u : Token}
    (hp : w.protocol.mint w.now (.ok w.pool.owed) leg n least = .ok (p, q))
    (ht : (w.coin .reserve).transferFrom Launch.protocol caller Launch.protocol n = .ok (t, log)) :
    (((w.setProtocol p).setCoin .reserve t).setCoin leg.coin u).Accounted k := by
  obtain ⟨hm, -⟩ := Protocol.mint_ok hp
  obtain ⟨hbonus, -, -⟩ := Treasury.settle_ok hm.settled
  have hheld := h.balance_eq hm.bootstrapped
  have hin := (Token.transferFrom_flow ht).1.balance_target hc.ne_protocol
  have := hm.charge.net
  have := hm.charge.fee_le
  have := hm.gross
  refine accounted_of_bootstrapped hm.bootstrapped_after ?_
  rw [coin_setCoin, if_neg (leg.coin_ne_reserve).symm]
  change t.balance Launch.protocol = p.reserve + p.treasury.balance + k
  rw [hm.reserve, Treasury.settle_balance hm.settled]
  omega

/-- What goes out comes from the reserve, but for the fee, which stays, and the bonus. -/
theorem redeem (h : w.Accounted k) (hc : caller.IsAccount) {leg : Leg} {least : Nat} {p : Protocol} {q : Priced}
    {t u : Token} (hp : w.protocol.redeem w.now (.ok w.pool.owed) leg n least = .ok (p, q))
    (ht : (w.coin .reserve).transfer Launch.protocol caller q.out = .ok (t, log)) :
    (((w.setProtocol p).setCoin leg.coin u).setCoin .reserve t).Accounted k := by
  obtain ⟨hr, -⟩ := Protocol.redeem_ok hp
  obtain ⟨hbonus, -, -⟩ := Treasury.settle_ok hr.settled
  have hheld := h.balance_eq hr.bootstrapped
  have hout := (Token.transfer_flow ht).1.balance_source hc.ne_protocol.symm
  have := hr.charge.net
  have := hr.charge.fee_le
  have := hr.gross_le_net
  have := hr.out
  refine accounted_of_bootstrapped hr.bootstrapped_after ?_
  change t.balance Launch.protocol = p.reserve + p.treasury.balance + k
  rw [hr.reserve, Treasury.settle_balance hr.settled]
  omega

theorem harvest (h : w.Accounted k) (hw : w.Sound) (hc : caller.IsAccount) {m : Nat} {s : Pool} {p : Protocol} {t : Token}
    (hi : w.pool.indexRewards Launch.protocol m = .ok (s, n)) (hn : n ≠ 0) (hp : w.protocol.addReserve n = .ok p)
    (ht : (w.coin .reserve).transferFrom Launch.protocol caller Launch.protocol n = .ok (t, log)) :
    (((w.setPool s).setProtocol p).setCoin .reserve t).Accounted k := by
  obtain ⟨rfl, -⟩ := Protocol.addReserve_ok hp
  obtain ⟨-, ⟨hz, -⟩ | ⟨-, -, ha, -⟩⟩ := Pool.indexRewards_cases hi
  · exact absurd hz hn
  have hb := hw.bootstrapped_of_shares ha.shares_pos
  have hheld := h.balance_eq hb
  have hin := (Token.transferFrom_flow ht).1.balance_target hc.ne_protocol
  refine accounted_of_bootstrapped hb ?_
  change t.balance Launch.protocol = w.protocol.reserve + n + w.protocol.treasury.balance + k
  omega

theorem claim (h : w.Accounted k) (hw : w.Sound) (hc : caller.IsAccount) {s : Pool} {p : Protocol} {t : Token}
    (hs : w.pool.claim caller = .ok (s, n)) (hn : n ≠ 0) (hp : w.protocol.payClaim Launch.pool n = .ok p)
    (ht : (w.coin .reserve).transfer Launch.protocol caller n = .ok (t, log)) :
    (((w.setPool s).setProtocol p).setCoin .reserve t).Accounted k := by
  obtain ⟨-, hle, rfl⟩ := Protocol.payClaim_ok hp
  have howed := (hw.claimed hs).2.2.1
  have hb := hw.bootstrapped_of_owed (by omega)
  have hheld := h.balance_eq hb
  have hout := (Token.transfer_flow ht).1.balance_source hc.ne_protocol.symm
  refine accounted_of_bootstrapped hb ?_
  change t.balance Launch.protocol = w.protocol.reserve - n + w.protocol.treasury.balance + k
  omega

theorem withdrawTreasury (h : w.Accounted k) {recipient : Address} (hr : recipient ≠ Launch.protocol) {p : Protocol}
    {t : Token} (hp : w.protocol.withdrawTreasury caller n = .ok p)
    (ht : (w.coin .reserve).transfer Launch.protocol recipient n = .ok (t, log)) :
    ((w.setProtocol p).setCoin .reserve t).Accounted k := by
  obtain ⟨-, treasury, htreasury, rfl⟩ := Protocol.withdrawTreasury_ok hp
  obtain ⟨-, hle, rfl⟩ := Treasury.withdraw_ok htreasury
  have hheld := h.held
  have hout := (Token.transfer_flow ht).1.balance_source hr.symm
  refine ⟨?_, h.early⟩
  change t.balance Launch.protocol = w.protocol.reserve + (w.protocol.treasury.balance - n) +
    if w.protocol.bootstrapped then k else 0
  omega

theorem token (h : w.Accounted k) (hc : caller.IsAccount) {c : Coin} {call : Token.Call} {t : Token}
    (hn : (Call.token call).Orderly c.address) (ht : call.apply (w.coin c) caller = .ok (t, log)) :
    (w.setCoin c t).Accounted k := by
  refine ⟨Eq.trans ?_ h.held, h.early⟩
  rw [coin_setCoin]
  split
  next e =>
    subst e
    exact Token.Call.balance_eq ht hc.ne_protocol.symm (hn.untouched _ rfl rfl)
  next => rfl

theorem books (h : w.Accounted k) {c : Protocol.Call} (hn : (Call.protocol c).Orderly Launch.protocol) {p : Protocol}
    (hp : c.onBooks w.now w.protocol caller = some (.ok (p, log))) : (w.setProtocol p).Accounted k := by
  obtain ⟨roles, feed, fees, rfl, -⟩ := Protocol.Call.onBooks_ok hp hn.permitted
  exact ⟨h.held, h.early⟩

end Accounted

/-- Every orderly move books what it adds to the holdings of the protocol and what it takes from them. -/
theorem Sound.accounted_move (hw : w.Sound) (hc : caller.IsAccount) (hn : call.Orderly target)
    (hm : w.Move caller target call reply w') (h : w.Accounted k) :
    w'.Accounted (k + w.chain.earlyGift target call) := by
  cases hm with
  | token ht => exact h.token hc hn ht
  | @books c _ _ hp =>
    have hgift : w.chain.earlyGift Launch.protocol (.protocol c) = 0 := by
      cases c with
      | recapitalize => cases hp
      | setPool | grantRole | revokeRole | renounceRole | setFees | setFeedConfig | withdrawTreasury | bootstrap | updatePrice
      | mint | redeem | rebalance | harvest | payClaim => rfl
    rw [hgift]
    exact h.books hn hp
  | @withdrawTreasury recipient n _ _ _ hp ht =>
    exact h.withdrawTreasury (fun e => hn.withdrawn n (by rw [e])) hp ht
  | recapitalize hp ht =>
    rw [earlyGift_recapitalize]
    exact h.recapitalize hc hp ht
  | bootstrap hp ht hf hx => exact h.bootstrap hc hp ht
  | mint hp ht hu => exact h.mint hc hp ht
  | redeem hp hu ht => exact h.redeem hc hp ht
  | noRebalance | noHarvest | rebalance | deposit | withdraw | claimNothing | close => exact ⟨h.held, h.early⟩
  | harvest hk hn hi hpos hp ht => exact h.harvest hw hc hi hpos hp ht
  | claim hs hpos hp ht => exact h.claim hw hc hs hpos hp ht

/-- In every state of every orderly run, the protocol holds the reserve and the treasury on its books, and once it has had its
first reserve also the gifts that it was made before. -/
theorem balance_eq_after_orderly (steps : List Step) (hs : ∀ s ∈ steps, s.Orderly) :
    ∃ w : World, Launch.wired.after steps = w.chain ∧
      (w.coin .reserve).balance Launch.protocol = w.protocol.reserve + w.protocol.treasury.balance +
        if w.protocol.bootstrapped then Launch.wired.earlyGifts steps else 0 := by
  obtain ⟨w, hchain, -, hw⟩ : ∃ w : World, Launch.wired.after steps = w.chain ∧ w.Sound ∧
      w.Accounted (Launch.wired.earlyGifts steps) := by
    refine exists_after_wired_tally (fun s h => (hs s h).wired) ?_ ?_ ?_
    · intro v hv hnew hempty
      have hheld := hv.held
      refine ⟨?_, fun _ => by omega⟩
      rw [hnew, if_neg Bool.false_ne_true]
      omega
    · intro caller target call hmem v v' reply k hv hm h
      obtain ⟨hc, hn⟩ := hs _ hmem
      exact hv.accounted_move hc hn hm h
    · exact fun v clock k h => ⟨h.held, h.early⟩
  exact ⟨w, hchain, hw.held⟩

end World

/-! ### A gift that comes too early -/

namespace Launch

/-- The admin gives to the protocol before the first reserve, and the first trades follow. -/
def giftedTrades : List Step := .call admin protocol (.protocol (.recapitalize (5 * priceScale))) :: firstTrades

theorem giftedTrades_orderly : ∀ s ∈ giftedTrades, s.Orderly := by
  simp [giftedTrades, firstTrades, Step.Orderly, Call.orderly_iff, Call.Permitted, Token.Call.Managing, admin, alice, keeper,
    Address.IsAccount, fToken_ne_reserveToken]

end Launch

theorem World.balance_eq_after_giftedTrades : (∀ s ∈ Launch.giftedTrades, s.Orderly) ∧
    ∃ w : World, Launch.wired.after Launch.giftedTrades = w.chain ∧ w.protocol.bootstrapped = true ∧
      (w.coin .reserve).balance Launch.protocol =
        w.protocol.reserve + w.protocol.treasury.balance + 5 * priceScale := by
  have hgifts : Launch.wired.earlyGifts Launch.giftedTrades = 5 * priceScale := by decide +kernel
  have hquery : (Launch.wired.after Launch.giftedTrades).query Launch.protocol (.protocol .bootstrapped) =
      .ok (.flag true) := by
    decide +kernel
  obtain ⟨w, hchain, hbalance⟩ := balance_eq_after_orderly _ Launch.giftedTrades_orderly
  rw [hchain, query_protocol] at hquery
  have hboot : w.protocol.bootstrapped = true := Reply.flag.inj (Except.ok.inj hquery)
  rw [hgifts, if_pos hboot] at hbalance
  exact ⟨Launch.giftedTrades_orderly, w, hchain, hboot, hbalance⟩

/-- Five of the reserve tokens that the protocol holds are neither on the books of the reserve nor in the treasury. -/
theorem World.books_lt_balance_after_giftedTrades : (∀ s ∈ Launch.giftedTrades, s.Orderly) ∧
    (Launch.wired.after Launch.giftedTrades).query Launch.reserveToken (.token (.balance Launch.protocol)) =
      .ok (.amount 1114900000000) ∧
    (Launch.wired.after Launch.giftedTrades).query Launch.protocol (.protocol .reserve) = .ok (.amount 1109400000000) ∧
    (Launch.wired.after Launch.giftedTrades).query Launch.protocol (.protocol .treasuryBalance) = .ok (.amount 500000000) ∧
    1109400000000 + 500000000 + 5 * priceScale = 1114900000000 := by
  refine ⟨Launch.giftedTrades_orderly, ?_, ?_, ?_, rfl⟩ <;> decide +kernel

end SplitReserve
