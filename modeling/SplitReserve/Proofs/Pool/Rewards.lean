import SplitReserve.Pool.Basic
import SplitReserve.Proofs.Pool.Loss
import SplitReserve.Proofs.Table

/-!
# Rewards of a pool

The rewards of a position are worth its `credit`, in units of one part in `indexScale`.  Credits are never stored: they follow
from the shares and from how far the index has risen since the last settlement.  A pool is `Sound` when its shares are those
of its positions and the credits are covered by what it owes; then no settlement saturates or overflows, and the rewards of
any accounts add up to at most the debt (`Sound.sum_due_le`).

Whatever is done to a pool either rewrites one position (`Rewrites`) or brings rewards to all of them (`Accrues`), and both
keep it sound.
-/

namespace SplitReserve

/-- What a position has earned and not claimed when the index stands at `index`. -/
def Position.credit (s : Position) (index : Nat) : Nat := s.claimable * indexScale + s.shares * (index - s.snapshot)

theorem Position.credit_default (index : Nat) : (default : Position).credit index = 0 := by
  change 0 * indexScale + 0 * (index - 0) = 0
  omega

theorem Position.credit_settled (shares index claimable : Nat) :
    (⟨shares, index, claimable⟩ : Position).credit index = claimable * indexScale := by
  simp [Position.credit]

namespace Pool

variable {p p' : Pool} {a : Address} {s : Position} {n k : Nat}

/-- The rewards that an account may claim. -/
def due (p : Pool) (a : Address) : Nat :=
  (p.position a).claimable + (p.position a).shares * (p.index - (p.position a).snapshot) / indexScale

theorem due_eq_credit_div (p : Pool) (a : Address) : p.due a = (p.position a).credit p.index / indexScale := by
  rw [Position.credit, Nat.add_comm, Nat.add_mul_div_right _ _ (by decide), Nat.add_comm, due]

/-- Settling loses less than one unit. -/
theorem due_bounds (p : Pool) (a : Address) :
    p.due a * indexScale ≤ (p.position a).credit p.index ∧
      (p.position a).credit p.index < p.due a * indexScale + indexScale := by
  rw [due_eq_credit_div]
  exact ⟨Nat.div_mul_le_self _ _, Nat.lt_div_mul_add (by decide)⟩

/-- The books of a pool agree with its positions. -/
structure Sound (p : Pool) : Prop where
  shares : (p.positions.sum fun _ s => s.shares) = p.shares
  snapshot_le : ∀ a, (p.position a).snapshot ≤ p.index
  credit_le : (p.positions.sum fun _ s => s.credit p.index) ≤ p.owed * indexScale
  owed_lt : p.owed < wordLimit
  scale_pos : 0 < p.scale
  scale_le : p.scale ≤ shareScale

theorem init_sound (token creator : Address) : (init token creator).Sound where
  shares := rfl
  snapshot_le _ := Nat.zero_le _
  credit_le := Nat.zero_le _
  owed_lt := (by decide : 0 < wordLimit)
  scale_pos := (by decide : 0 < shareScale)
  scale_le := le_rfl

namespace Sound

theorem shares_le (hp : p.Sound) (a : Address) : (p.position a).shares ≤ p.shares := by
  rw [← hp.shares]
  exact Table.le_sum (f := fun _ s => s.shares) (fun _ => rfl) p.positions a

theorem credit_le_owed (hp : p.Sound) (a : Address) : (p.position a).credit p.index ≤ p.owed * indexScale :=
  (Table.le_sum (f := fun _ s => s.credit p.index) (fun _ => Position.credit_default _) p.positions a).trans hp.credit_le

/-- The rewards of any accounts together are covered by what the pool owes. -/
theorem sum_due_le (hp : p.Sound) (s : Finset Address) : ∑ a ∈ s, p.due a ≤ p.owed := by
  refine Nat.le_of_mul_le_mul_right (c := indexScale) ?_ (by decide)
  calc (∑ a ∈ s, p.due a) * indexScale = ∑ a ∈ s, p.due a * indexScale := Finset.sum_mul _ _ _
    _ ≤ ∑ a ∈ s, (p.position a).credit p.index := Finset.sum_le_sum fun a _ => (p.due_bounds a).1
    _ ≤ p.positions.sum fun _ s => s.credit p.index :=
      Table.sum_get_le (f := fun _ s => s.credit p.index) (fun _ => Position.credit_default _) p.positions s
    _ ≤ p.owed * indexScale := hp.credit_le

theorem due_le (hp : p.Sound) (a : Address) : p.due a ≤ p.owed := by
  simpa using hp.sum_due_le {a}

/-- No settlement overflows or saturates. -/
theorem settled (hp : p.Sound) (a : Address) : p.settled a = .ok ⟨(p.position a).shares, p.index, p.due a⟩ := by
  have hcredit := hp.credit_le_owed a
  have hdue := hp.due_le a
  have howed := hp.owed_lt
  have hlimit : wordLimit * indexScale < wideLimit := by decide
  have hprod : (p.position a).shares * (p.index - (p.position a).snapshot) < wideLimit := by
    have := Nat.mul_le_mul_right indexScale howed.le
    unfold Position.credit at hcredit
    omega
  unfold due at hdue
  rw [Pool.settled, pendingReward, mulWide, if_pos hprod]
  change Except.ok _ = _
  rw [due, clampWord_of_lt (n := _ / indexScale) (by omega), clampWord_of_lt (by omega)]

theorem pending (hp : p.Sound) (a : Address) : p.pending a = .ok (p.due a) := by
  rw [Pool.pending, hp.settled]
  rfl

end Sound

/-! ### One position -/

/-- `p'` has the position `s` for `a`, and else the positions, the index and the terms of `p`. -/
structure Rewrites (p p' : Pool) (a : Address) (s : Position) : Prop where
  position : ∀ b, p'.position b = if b = a then s else p.position b
  index : p'.index = p.index
  scale : p'.scale = p.scale
  controller : p'.controller = p.controller
  token : p'.token = p.token

theorem Rewrites.sum {f : Address → Position → Nat} (h : Rewrites p p' a s) (hf : ∀ a, f a default = 0) :
    p'.positions.sum f + f a (p.position a) = p.positions.sum f + f a s :=
  Table.sum_of_get_eq hf h.position

theorem Rewrites.due_of_ne (h : Rewrites p p' a s) {b : Address} (hb : b ≠ a) : p'.due b = p.due b := by
  unfold due
  rw [h.position, if_neg hb, h.index]

theorem Rewrites.sound (h : Rewrites p p' a s) (hp : p.Sound) (hs : s.snapshot ≤ p.index)
    (hshares : p'.shares + (p.position a).shares = p.shares + s.shares) (howed : p'.owed ≤ p.owed)
    (hcredit : s.credit p.index + p.owed * indexScale ≤ (p.position a).credit p.index + p'.owed * indexScale) :
    p'.Sound where
  shares := by
    have := h.sum (f := fun _ s => s.shares) fun _ => rfl
    have := hp.shares
    omega
  snapshot_le b := by
    rw [h.position, h.index]
    split
    · exact hs
    · exact hp.snapshot_le b
  credit_le := by
    rw [h.index]
    have := h.sum (f := fun _ s => s.credit p.index) fun _ => Position.credit_default _
    have := hp.credit_le
    omega
  owed_lt := howed.trans_lt hp.owed_lt
  scale_pos := h.scale ▸ hp.scale_pos
  scale_le := h.scale ▸ hp.scale_le

theorem rewrites_setPosition (p : Pool) (a : Address) (s : Position) : Rewrites p (p.setPosition a s) a s :=
  ⟨fun _ => Table.get_insert _ _ _ _, rfl, rfl, rfl, rfl⟩

theorem rewrites_openPosition (h : Rewrites p p' a s) : Rewrites p (p'.openPosition a) a s := by
  unfold openPosition
  split
  · exact h
  · exact ⟨h.position, h.index, h.scale, h.controller, h.token⟩

theorem owed_openPosition (p : Pool) (a : Address) : (p.openPosition a).owed = p.owed := by
  unfold openPosition
  split <;> rfl

/-- A deposit issues shares that are worth at most what is deposited. -/
theorem Sound.deposit_ok (hp : p.Sound) (h : p.deposit a n = .ok (p', k)) :
    Rewrites p p' a ⟨(p.position a).shares + k, p.index, p.due a⟩ ∧ n ≠ 0 ∧ k * p.scale ≤ n * shareScale ∧
      p'.shares = p.shares + k ∧ p'.owed = p.owed := by
  simp only [deposit, hp.settled, Outcome.bind_eq_ok, require_eq_ok, demand_eq_ok, wide?_eq_some] at h
  obtain ⟨-, hn, -, -, s, hs, k', hk, -, -, held, ⟨-, rfl⟩, total, ⟨-, rfl⟩, h⟩ := h
  cases hs
  cases h
  have hr := rewrites_openPosition (rewrites_setPosition p a ⟨(p.position a).shares + k, p.index, p.due a⟩)
  refine ⟨⟨hr.position, hr.index, hr.scale, hr.controller, hr.token⟩, hn, mulDivWide_mul_le hk, rfl, ?_⟩
  change (Pool.openPosition _ a).owed = _
  rw [owed_openPosition]
  rfl

/-- A withdrawal takes shares that are worth at least what is withdrawn. -/
theorem Sound.withdraw_ok (hp : p.Sound) (h : p.withdraw a n = .ok (p', k)) :
    Rewrites p p' a ⟨(p.position a).shares - k, p.index, p.due a⟩ ∧ n ≠ 0 ∧ k ≤ (p.position a).shares ∧
      n * shareScale ≤ k * p.scale ∧ p'.shares = p.shares - k ∧ p'.owed = p.owed := by
  simp only [withdraw, hp.settled, Outcome.bind_eq_ok, require_eq_ok, sharesToStable_eq_ok] at h
  obtain ⟨-, hn, s, hs, worth, ⟨-, hworth⟩, -, hle, h⟩ := h
  cases hs
  have hall : n * shareScale ≤ (p.position a).shares * p.scale :=
    (Nat.mul_le_mul_right _ ((hle.trans (clampWord_le _)).trans hworth.le)).trans (Nat.div_mul_le_self _ _)
  -- Either all shares are taken, or as many as rounding up asks for; both are worth enough.
  have htaken : ∃ m, n * shareScale ≤ m * p.scale ∧ m ≤ (p.position a).shares ∧
      (p', k) = ({ p.setPosition a ⟨(p.position a).shares - m, p.index, p.due a⟩ with shares := p.shares - m }, m) := by
    split at h
    · simp only [Outcome.bind_eq_ok, subtract_eq_ok] at h
      obtain ⟨m, hm, left, ⟨hml, rfl⟩, h⟩ := h
      cases hm
      exact ⟨_, hall, hml, (Except.ok.inj h).symm⟩
    · simp only [Outcome.bind_eq_ok, subtract_eq_ok] at h
      obtain ⟨m, hm, left, ⟨hml, rfl⟩, h⟩ := h
      refine ⟨m, ?_, hml, (Except.ok.inj h).symm⟩
      cases hup : sharesTaken n p.scale with
      | none => rw [hup] at hm; cases hm
      | some q =>
        rw [hup] at hm
        cases hm
        change n * shareScale ≤ min q (p.position a).shares * p.scale
        rcases Nat.le_total q (p.position a).shares with hq | hq
        · rw [Nat.min_eq_left hq]
          exact le_mulDivWideUp_mul hup
        · rw [Nat.min_eq_right hq]
          exact hall
  obtain ⟨m, hm, hml, e⟩ := htaken
  cases e
  have hr := rewrites_setPosition p a ⟨(p.position a).shares - k, p.index, p.due a⟩
  exact ⟨⟨hr.position, hr.index, hr.scale, hr.controller, hr.token⟩, hn, hml, hm, rfl, rfl⟩

/-- A claim pays all rewards and leaves none. -/
theorem Sound.claim_ok (hp : p.Sound) (h : p.claim a = .ok (p', n)) :
    n = p.due a ∧ p'.owed = p.owed - n ∧ p'.shares = p.shares ∧
      ∃ s, Rewrites p p' a s ∧ s.shares = (p.position a).shares ∧ s.snapshot ≤ p.index ∧ s.credit p.index = 0 := by
  unfold claim at h
  split at h
  next hnone =>
    cases h
    have hd : p.position a = default := by rw [position, Table.get, hnone, Option.getD_none]
    have hdue : p.due a = 0 := by
      have := (p.due_bounds a).1
      rw [hd, Position.credit_default] at this
      unfold indexScale at this
      omega
    refine ⟨hdue.symm, rfl, rfl, p.position a, ⟨?_, rfl, rfl, rfl, rfl⟩, rfl, hp.snapshot_le a, ?_⟩
    · intro b
      split
      next hb => rw [hb]
      · rfl
    · rw [hd, Position.credit_default]
  next =>
    simp only [hp.settled, Outcome.bind_eq_ok] at h
    obtain ⟨s, hs, h⟩ := h
    cases hs
    have hr := rewrites_setPosition p a ⟨(p.position a).shares, p.index, 0⟩
    have hc : (⟨(p.position a).shares, p.index, 0⟩ : Position).credit p.index = 0 := by
      rw [Position.credit_settled, Nat.zero_mul]
    split at h
    next hzero =>
      cases h
      exact ⟨hzero.symm, rfl, rfl, _, hr, rfl, le_rfl, hc⟩
    next =>
      simp only [Outcome.bind_eq_ok, require_eq_ok] at h
      obtain ⟨-, -, h⟩ := h
      cases h
      exact ⟨rfl, rfl, rfl, _, ⟨hr.position, hr.index, hr.scale, hr.controller, hr.token⟩, rfl, le_rfl, hc⟩

/-- The books never stand in the way of a claim. -/
theorem Sound.exists_claim (hp : p.Sound) (a : Address) : ∃ p', p.claim a = .ok (p', p.due a) := by
  have hok : ∃ r, p.claim a = .ok r := by
    unfold claim
    split
    · exact ⟨_, rfl⟩
    · rw [hp.settled]
      change ∃ r, (if p.due a = 0 then _ else (require (p.due a ≤ p.owed) _ >>= _)) = Except.ok r
      split
      · exact ⟨_, rfl⟩
      · rw [require, if_pos (hp.due_le a)]
        exact ⟨_, rfl⟩
  obtain ⟨⟨p', n⟩, h⟩ := hok
  exact ⟨p', (hp.claim_ok h).1 ▸ h⟩

/-- Only a position without shares and rewards can be closed. -/
theorem Sound.close_ok (hp : p.Sound) (h : p.close a = .ok p') :
    Rewrites p p' a default ∧ (p.position a).shares = 0 ∧ p.due a = 0 ∧ p'.shares = p.shares ∧ p'.owed = p.owed := by
  simp only [close, hp.settled, Outcome.bind_eq_ok, require_eq_ok] at h
  obtain ⟨-, -, s, hs, -, ⟨hshares, hdue⟩, h⟩ := h
  cases hs
  cases h
  have hr := rewrites_setPosition p a default
  exact ⟨⟨hr.position, hr.index, hr.scale, hr.controller, hr.token⟩, hshares, hdue, rfl, rfl⟩

theorem Sound.deposit (hp : p.Sound) (h : p.deposit a n = .ok (p', k)) : p'.Sound := by
  obtain ⟨hr, -, -, hs, ho⟩ := hp.deposit_ok h
  have hc := (p.due_bounds a).1
  refine hr.sound hp le_rfl ?_ ho.le ?_
  · rw [hs]
    simp only
    omega
  · rw [Position.credit_settled, ho]
    omega

theorem Sound.withdraw (hp : p.Sound) (h : p.withdraw a n = .ok (p', k)) : p'.Sound := by
  obtain ⟨hr, -, hk, -, hs, ho⟩ := hp.withdraw_ok h
  have hc := (p.due_bounds a).1
  have hle := hp.shares_le a
  refine hr.sound hp le_rfl ?_ ho.le ?_
  · rw [hs]
    simp only
    omega
  · rw [Position.credit_settled, ho]
    omega

theorem Sound.claim (hp : p.Sound) (h : p.claim a = .ok (p', n)) : p'.Sound := by
  obtain ⟨rfl, ho, hs, s, hr, hshares, hsnap, hcredit⟩ := hp.claim_ok h
  have hc := (p.due_bounds a).1
  have hle := hp.due_le a
  refine hr.sound hp hsnap (by omega) (by omega) ?_
  rw [hcredit, ho, Nat.sub_mul]
  have := Nat.mul_le_mul_right indexScale hle
  omega

theorem Sound.close (hp : p.Sound) (h : p.close a = .ok p') : p'.Sound := by
  obtain ⟨hr, hshares, -, hs, ho⟩ := hp.close_ok h
  refine hr.sound hp (Nat.zero_le _) ?_ ho.le ?_
  · rw [hs, hshares]
    rfl
  · rw [Position.credit_default, ho]
    omega

/-! ### All positions -/

/-- `p'` has the positions of `p` after rewards of `amount`, which the index spreads by rising by `delta`. -/
structure Accrues (p p' : Pool) (amount delta : Nat) : Prop where
  positions : p'.positions = p.positions
  shares : p'.shares = p.shares
  shares_pos : p.shares ≠ 0
  index : p'.index = p.index + delta
  delta_le : delta * p.shares ≤ amount * indexScale
  lt_delta_succ : amount * indexScale < (delta + 1) * p.shares
  owed : p'.owed = p.owed + amount
  owed_lt : p'.owed < wordLimit
  scale_pos : 0 < p.scale → 0 < p'.scale
  scale_le : p'.scale ≤ p.scale
  controller : p'.controller = p.controller
  token : p'.token = p.token

theorem Accrues.position {amount delta : Nat} (h : Accrues p p' amount delta) (a : Address) :
    p'.position a = p.position a := by
  rw [Pool.position, h.positions, Pool.position]

/-- A rise of the index adds to a credit in proportion to the shares. -/
theorem Accrues.credit {amount delta : Nat} (h : Accrues p p' amount delta) (hp : p.Sound) (a : Address) :
    (p.position a).credit p'.index = (p.position a).credit p.index + (p.position a).shares * delta := by
  have hsub : p.index + delta - (p.position a).snapshot = p.index - (p.position a).snapshot + delta := by
    have := hp.snapshot_le a
    omega
  rw [Position.credit, Position.credit, h.index, hsub, Nat.mul_add, Nat.add_assoc]

theorem Accrues.sound {amount delta : Nat} (h : Accrues p p' amount delta) (hp : p.Sound) : p'.Sound where
  shares := by rw [h.positions, h.shares, hp.shares]
  snapshot_le a := by
    rw [h.position, h.index]
    exact (hp.snapshot_le a).trans (Nat.le_add_right _ _)
  credit_le := by
    let shares := fun (_ : Address) (s : Position) => s.shares
    let credit := fun (index : Nat) (_ : Address) (s : Position) => s.credit index
    have hc : ∀ index a, credit index a default = 0 := fun index _ => Position.credit_default index
    have hs : ∀ a, shares a default * delta = 0 := fun _ => Nat.zero_mul _
    have hsum : p.positions.sum (credit p'.index) = p.positions.sum (credit p.index) + p.shares * delta := by
      rw [← hp.shares, ← Table.sum_mul (f := shares) (fun _ => rfl), ← Table.sum_add (hc _) hs]
      exact Table.sum_congr (hc _) (fun a => by rw [hc _ a, hs a]) _ (h.credit hp)
    rw [h.positions]
    change p.positions.sum (credit p'.index) ≤ _
    rw [hsum, h.owed, Nat.add_mul, Nat.mul_comm p.shares]
    exact Nat.add_le_add hp.credit_le h.delta_le
  owed_lt := h.owed_lt
  scale_pos := h.scale_pos hp.scale_pos
  scale_le := h.scale_le.trans hp.scale_le

theorem requireController_eq_ok {caller : Address} {u : Unit} :
    p.requireController caller = .ok u ↔ p.controller = some caller := by
  simp only [requireController, Outcome.bind_eq_ok, demand_eq_ok, require_eq_ok]
  constructor
  · rintro ⟨c, hc, rfl⟩
    exact hc
  · intro h
    exact ⟨caller, h, rfl⟩

/-- Only the controller lets the pool bear a loss; one that burns nothing changes nothing. -/
theorem bear_cases {caller : Address} {burn payout : Nat} {loss : Loss}
    (h : p.bear caller burn payout = .ok (p', loss)) :
    p.controller = some caller ∧ (loss.burn = 0 ∧ p' = p ∨
      loss.burn ≠ 0 ∧ Loss.Fits p.scale p.shares burn payout loss ∧ Accrues p p' loss.payout loss.indexDelta ∧
        p'.scale = loss.scale) := by
  simp only [bear, Outcome.bind_eq_ok, requireController_eq_ok] at h
  obtain ⟨-, hc, l, hl, h⟩ := h
  refine ⟨hc, ?_⟩
  split at h
  next hz =>
    cases h
    exact Or.inl ⟨hz, rfl⟩
  next hz =>
    simp only [Outcome.bind_eq_ok, demand_eq_ok, wide?_eq_some, word?_eq_some] at h
    obtain ⟨index, ⟨-, rfl⟩, owed, ⟨ho, rfl⟩, h⟩ := h
    cases h
    have hf := Loss.share_fits hl hz
    exact Or.inr ⟨hz, hf, ⟨rfl, rfl, hf.shares_pos, rfl, hf.delta_le, hf.lt_delta_succ, rfl, ho, fun _ => hf.scale_pos,
      hf.scale_lt.le, rfl, rfl⟩, rfl⟩

/-- Only the controller indexes rewards; without shares there is nobody to index them for. -/
theorem indexRewards_cases {caller : Address} (h : p.indexRewards caller n = .ok (p', k)) :
    p.controller = some caller ∧ (k = 0 ∧ p' = p ∨
      k ≠ 0 ∧ k = n ∧ Accrues p p' n (p'.index - p.index) ∧ p'.scale = p.scale) := by
  simp only [indexRewards, Outcome.bind_eq_ok, requireController_eq_ok] at h
  obtain ⟨-, hc, h⟩ := h
  refine ⟨hc, ?_⟩
  split at h
  · cases h
    exact Or.inl ⟨rfl, rfl⟩
  next hz =>
    rw [not_or] at hz
    simp only [Outcome.bind_eq_ok, demand_eq_ok, wide?_eq_some, word?_eq_some] at h
    obtain ⟨delta, hd, index, ⟨-, rfl⟩, owed, ⟨ho, rfl⟩, h⟩ := h
    cases h
    refine Or.inr ⟨hz.1, rfl, ?_, rfl⟩
    rw [show p.index + delta - p.index = delta by omega]
    obtain ⟨-, -, rfl⟩ := mulDivWide_eq_some.1 hd
    refine ⟨rfl, rfl, hz.2, rfl, Nat.div_mul_le_self _ _, ?_, rfl, ho, id, le_rfl, rfl, rfl⟩
    have := Nat.lt_mul_div_succ (n * indexScale) (Nat.pos_of_ne_zero hz.2)
    rwa [Nat.mul_comm p.shares] at this

theorem Sound.bear (hp : p.Sound) {caller : Address} {burn payout : Nat} {loss : Loss}
    (h : p.bear caller burn payout = .ok (p', loss)) : p'.Sound := by
  rcases (bear_cases h).2 with ⟨-, rfl⟩ | ⟨-, -, ha, -⟩
  · exact hp
  · exact ha.sound hp

theorem Sound.indexRewards (hp : p.Sound) {caller : Address} (h : p.indexRewards caller n = .ok (p', k)) :
    p'.Sound := by
  rcases (indexRewards_cases h).2 with ⟨-, rfl⟩ | ⟨-, -, ha, -⟩
  · exact hp
  · exact ha.sound hp

theorem Sound.setController (hp : p.Sound) {caller c : Address} (h : p.setController caller c = .ok p') : p'.Sound := by
  simp only [Pool.setController, Outcome.bind_eq_ok] at h
  obtain ⟨-, -, h⟩ := h
  cases h
  exact ⟨hp.shares, hp.snapshot_le, hp.credit_le, hp.owed_lt, hp.scale_pos, hp.scale_le⟩

end Pool

end SplitReserve
