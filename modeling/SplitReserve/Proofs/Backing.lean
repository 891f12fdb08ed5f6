import SplitReserve.Proofs.Pool.Worth
import SplitReserve.Proofs.World.Run

/-!
# Backing

Whatever happens in a wired run, the pool holds the stable tokens that its shares are worth.  So the deposits together are
worth at most what the pool says it has, that is at most what it holds, and every depositor can withdraw up to the full worth
of the deposit (`Sound.exists_withdraw`).
-/

namespace SplitReserve.World

variable {w : World} {a : Address} {n : Nat}

/-- A world in which all deposits are backed by stable tokens. -/
structure Backed (w : World) : Prop where
  shares_le : w.pool.shares * w.pool.scale ≤ (w.coin .f).balance Launch.pool * shareScale
  actual : ∀ a, w.chain.query Launch.pool (.pool (.actual a)) = .ok (.amount (w.pool.worth a))
  total : w.chain.query Launch.pool (.pool .total) = .ok (.amount w.pool.worthAll)
  sum_worth_le : ∀ s : Finset Address, ∑ a ∈ s, w.pool.worth a ≤ w.pool.worthAll
  worthAll_le : w.pool.worthAll ≤ (w.coin .f).balance Launch.pool
  withdraw_paid : ∀ (a : Address) (n : Nat), a.IsAccount → 1 ≤ n → n ≤ w.pool.worth a →
    ∃ (v : World) (r : Receipt), w.chain.call a Launch.pool (.pool (.withdraw n)) = .ok r ∧ r.chain = v.chain ∧
      (v.coin .f).balance a = (w.coin .f).balance a + n ∧
      (v.coin .f).balance Launch.pool + n = (w.coin .f).balance Launch.pool

theorem Sound.worthAll_le (hw : w.Sound) : w.pool.worthAll ≤ (w.coin .f).balance Launch.pool :=
  Nat.div_le_of_le_mul (hw.backed.trans_eq (Nat.mul_comm _ _))

/-- What the shares are worth is within range, since there are no more stable tokens than that. -/
theorem Sound.fits (hw : w.Sound) : w.pool.Fits := by
  have hbalance := (hw.ordered .f).whole.balance_le Launch.pool
  have hsupply : (w.coin .f).supply ≤ w.protocol.supply .f := hw.supply_le .f
  exact (hw.worthAll_le.trans (hbalance.trans hsupply)).trans_lt (hw.supply_lt .f)

/-- A withdrawal of at most the worth of a deposit pays just what is asked. -/
theorem Sound.exists_withdraw (hw : w.Sound) (ha : a.IsAccount) (hn : n ≠ 0) (hle : n ≤ w.pool.worth a) :
    ∃ (v : World) (r : Receipt), w.chain.call a Launch.pool (.pool (.withdraw n)) = .ok r ∧ r.chain = v.chain ∧
      (v.coin .f).balance a = (w.coin .f).balance a + n ∧
      (v.coin .f).balance Launch.pool + n = (w.coin .f).balance Launch.pool := by
  obtain ⟨p, k, hp⟩ := hw.pool.exists_withdraw hw.fits hn hle
  have hheld := (hle.trans (hw.pool.worth_le a)).trans hw.worthAll_le
  obtain ⟨t, log, ht⟩ := (hw.ordered .f).whole.exists_move hheld a
  obtain ⟨r, hr, -, hchain⟩ := (Move.withdraw hp ht).exists_call hw.linked hw.pool
  obtain ⟨hflow, -⟩ := Token.transfer_flow ht
  exact ⟨_, r, hr, hchain, hflow.balance_target ha.ne_pool.symm, hflow.balance_source ha.ne_pool.symm⟩

theorem Sound.backed_deposits (hw : w.Sound) : w.Backed where
  shares_le := hw.backed
  actual a := by
    rw [Chain.query, callee_pool]
    change (w.pool.actual a).map Reply.amount = _
    rw [hw.fits.actual hw.pool, Outcome.map_ok]
  total := by
    rw [Chain.query, callee_pool]
    change w.pool.total.map Reply.amount = _
    rw [hw.fits.total, Outcome.map_ok]
  sum_worth_le := hw.pool.sum_worth_le
  worthAll_le := hw.worthAll_le
  withdraw_paid _ _ ha hn := hw.exists_withdraw ha (Nat.pos_iff_ne_zero.1 hn)

/-- In every state of every wired run, all deposits are backed by stable tokens. -/
theorem backed_after_wired (steps : List Step) (hs : ∀ s ∈ steps, s.Wired) :
    ∃ w : World, Launch.wired.after steps = w.chain ∧ w.Backed := by
  obtain ⟨w, hchain, hw⟩ := exists_after_wired hs
  exact ⟨w, hchain, hw.backed_deposits⟩

theorem backed_after_firstTrades : (∀ s ∈ Launch.firstTrades, s.Wired) ∧
    ∃ w : World, Launch.wired.after Launch.firstTrades = w.chain ∧ w.Backed :=
  ⟨Launch.firstTrades_wired, backed_after_wired _ Launch.firstTrades_wired⟩

end SplitReserve.World
