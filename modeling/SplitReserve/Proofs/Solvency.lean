import SplitReserve.Proofs.World.Run

/-!
# Solvency

Whatever happens in a wired run, the reserve covers the rewards: those that depositors may claim add up to at most what the
pool is owed, the reserve covers that, and the protocol holds the reserve and its treasury in reserve tokens.  So every claim is
paid in full, in whatever order claims come (`Sound.exists_claim`, `Sound.claim_after`), and an admin can withdraw whatever is
in the treasury (`Sound.exists_withdrawTreasury`).
-/

namespace SplitReserve.World

variable {w w' : World} {a b : Address} {n : Nat}

/-- The call by which an account claims its rewards. -/
def claimCall : Call := .pool .claim

/-- A world in which all rewards and all fees can be paid out. -/
structure Solvent (w : World) : Prop where
  pending : ∀ a, w.chain.query Launch.pool (.pool (.pending a)) = .ok (.amount (w.pool.due a))
  sum_due_le : ∀ s : Finset Address, ∑ a ∈ s, w.pool.due a ≤ w.pool.owed
  owed_le : w.pool.owed ≤ w.protocol.reserve
  held : w.protocol.reserve + w.protocol.treasury.balance ≤ (w.coin .reserve).balance Launch.protocol
  /-- After the claims of any others, in any order, a claim pays just what was pending before them. -/
  claim_paid : ∀ (others : List Address) (a : Address), (∀ b ∈ others, b.IsAccount) → a.IsAccount → a ∉ others →
    ∃ (v v' : World) (r : Receipt), w.chain.after (others.map fun b => .call b Launch.pool claimCall) = v.chain ∧
      v.chain.call a Launch.pool claimCall = .ok r ∧ r.reply = .amount (w.pool.due a) ∧ r.chain = v'.chain ∧
      (v'.coin .reserve).balance a = (v.coin .reserve).balance a + w.pool.due a
  treasury_paid : ∀ (admin recipient : Address) (n : Nat), admin.IsAccount → w.protocol.roles.holds .admin admin = true →
    n ≠ 0 → n ≤ w.protocol.treasury.balance →
    ∃ (v : World) (r : Receipt),
      w.chain.call admin Launch.protocol (.protocol (.withdrawTreasury recipient n)) = .ok r ∧ r.chain = v.chain ∧
      v.protocol.treasury.balance + n = w.protocol.treasury.balance ∧
      (recipient ≠ Launch.protocol → (v.coin .reserve).balance recipient = (w.coin .reserve).balance recipient + n)

/-- A claim pays what is pending. -/
theorem Sound.exists_claim (hw : w.Sound) (ha : a.IsAccount) :
    ∃ (v : World) (r : Receipt), w.chain.call a Launch.pool claimCall = .ok r ∧ r.reply = .amount (w.pool.due a) ∧
      r.chain = v.chain ∧ (v.coin .reserve).balance a = (w.coin .reserve).balance a + w.pool.due a := by
  obtain ⟨p, hp⟩ := hw.pool.exists_claim a
  by_cases hz : w.pool.due a = 0
  · rw [hz] at hp
    obtain ⟨r, hr, hreply, hchain⟩ := (Move.claimNothing hp).exists_call hw.linked hw.pool
    refine ⟨_, r, hr, hz ▸ hreply, hchain, ?_⟩
    rw [hz]
    rfl
  · have hreserve := (hw.pool.due_le a).trans hw.owed_le
    have hpay := Protocol.payClaim_of_le hw.linked.protocol.pool hreserve
    have hheld := hw.held
    obtain ⟨t, log, ht⟩ := (hw.ordered .reserve).whole.exists_move (a := Launch.protocol) (n := w.pool.due a) (by omega) a
    obtain ⟨r, hr, hreply, hchain⟩ := (Move.claim hp hz hpay ht).exists_call hw.linked hw.pool
    exact ⟨_, r, hr, hreply, hchain, (Token.transfer_flow ht).1.balance_target ha.ne_protocol.symm⟩

/-- A claim changes nobody else's rewards. -/
theorem Sound.due_of_claim (hw : w.Sound) {target : Address} {reply : Reply} (hm : w.Move b target claimCall reply w')
    (hab : a ≠ b) : w'.pool.due a = w.pool.due a := by
  cases hm with
  | claimNothing hp =>
    obtain ⟨-, -, -, s, hr, -⟩ := hw.pool.claim_ok hp
    exact hr.due_of_ne hab
  | claim hp hn hq ht =>
    obtain ⟨-, -, -, s, hr, -⟩ := hw.pool.claim_ok hp
    exact hr.due_of_ne hab

theorem Sound.claim_after (hw : w.Sound) {others : List Address} (hb : ∀ b ∈ others, b.IsAccount) (ha : a ∉ others) :
    ∃ v : World, w.chain.after (others.map fun b => .call b Launch.pool claimCall) = v.chain ∧ v.Sound ∧
      v.pool.due a = w.pool.due a := by
  refine hw.exists_after (P := fun v => v.pool.due a = w.pool.due a) rfl ?_ ?_
  · intro s hs
    obtain ⟨b, hbo, rfl⟩ := List.mem_map.1 hs
    exact ⟨hb b hbo, fun _ => Pool.Call.noConfusion⟩
  · intro s hs v v' hv hn hp
    obtain ⟨b, hbo, rfl⟩ := List.mem_map.1 hs
    cases hn with
    | refused => exact hp
    | move hc hperm hm =>
      have hab : a ≠ b := by
        rintro rfl
        exact ha hbo
      exact (hv.due_of_claim hm hab).trans hp

theorem Sound.exists_withdrawTreasury (hw : w.Sound) {admin recipient : Address}
    (hr : w.protocol.roles.holds .admin admin = true) (hn : n ≠ 0) (hle : n ≤ w.protocol.treasury.balance) :
    ∃ (v : World) (r : Receipt),
      w.chain.call admin Launch.protocol (.protocol (.withdrawTreasury recipient n)) = .ok r ∧ r.chain = v.chain ∧
      v.protocol.treasury.balance + n = w.protocol.treasury.balance ∧
      (recipient ≠ Launch.protocol → (v.coin .reserve).balance recipient = (w.coin .reserve).balance recipient + n) := by
  have hbooks : ∃ p, w.protocol.withdrawTreasury admin n = .ok p ∧ p.treasury.balance = w.protocol.treasury.balance - n := by
    rw [Protocol.withdrawTreasury, Roles.requireAdmin, require, if_pos hr, hw.treasury.withdraw hn hle]
    exact ⟨_, rfl, rfl⟩
  obtain ⟨p, hp, hbalance⟩ := hbooks
  have hheld := hw.held
  obtain ⟨t, log, ht⟩ := (hw.ordered .reserve).whole.exists_move (a := Launch.protocol) (n := n) (by omega) recipient
  obtain ⟨r, hcall, -, hchain⟩ := (Move.withdrawTreasury hp ht).exists_call hw.linked hw.pool
  refine ⟨_, r, hcall, hchain, ?_, fun hne => (Token.transfer_flow ht).1.balance_target hne.symm⟩
  change p.treasury.balance + n = _
  omega

theorem Sound.solvent (hw : w.Sound) : w.Solvent where
  pending a := by
    rw [Chain.query, callee_pool]
    change (w.pool.pending a).map Reply.amount = _
    rw [hw.pool.pending, Outcome.map_ok]
  sum_due_le := hw.pool.sum_due_le
  owed_le := hw.owed_le
  held := hw.held
  claim_paid others a hb ha hnot := by
    obtain ⟨v, hchain, hv, hdue⟩ := hw.claim_after hb hnot
    obtain ⟨v', r, hr, hreply, hchain', hpaid⟩ := hv.exists_claim ha
    rw [hdue] at hreply hpaid
    exact ⟨v, v', r, hchain, hr, hreply, hchain', hpaid⟩
  treasury_paid _ _ _ _ := hw.exists_withdrawTreasury

/-- In every state of every wired run, all rewards and all fees can be paid out. -/
theorem solvent_after_wired (steps : List Step) (hs : ∀ s ∈ steps, s.Wired) :
    ∃ w : World, Launch.wired.after steps = w.chain ∧ w.Solvent := by
  obtain ⟨w, hchain, hw⟩ := exists_after_wired hs
  exact ⟨w, hchain, hw.solvent⟩

theorem solvent_after_firstTrades : (∀ s ∈ Launch.firstTrades, s.Wired) ∧
    ∃ w : World, Launch.wired.after Launch.firstTrades = w.chain ∧ w.Solvent :=
  ⟨Launch.firstTrades_wired, solvent_after_wired _ Launch.firstTrades_wired⟩

end SplitReserve.World
