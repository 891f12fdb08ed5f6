import SplitReserve.Proofs.Pool.Rewards

/-!
# What deposits are worth

A deposit is worth its shares at the scale, rounded down.  In a sound pool the deposits together are worth at most what all
shares are (`Sound.sum_worth_le`), and while that is within range nothing but the balance of the pool stands in the way of a
withdrawal (`Sound.exists_withdraw`).
-/

namespace SplitReserve.Pool

variable {p p' : Pool} {a : Address} {n k : Nat}

/-- The stable tokens that the deposit of an account is worth. -/
def worth (p : Pool) (a : Address) : Nat := (p.position a).shares * p.scale / shareScale

/-- The stable tokens that all shares are worth. -/
def worthAll (p : Pool) : Nat := p.shares * p.scale / shareScale

/-- Rounding down the parts leaves at most the whole, rounded down. -/
theorem Sound.sum_worth_le (hp : p.Sound) (s : Finset Address) : ∑ a ∈ s, p.worth a ≤ p.worthAll := by
  refine (Nat.le_div_iff_mul_le (by decide)).2 ?_
  calc (∑ a ∈ s, p.worth a) * shareScale = ∑ a ∈ s, p.worth a * shareScale := Finset.sum_mul _ _ _
    _ ≤ ∑ a ∈ s, (p.position a).shares * p.scale := Finset.sum_le_sum fun a _ => Nat.div_mul_le_self _ _
    _ = (∑ a ∈ s, (p.position a).shares) * p.scale := (Finset.sum_mul _ _ _).symm
    _ ≤ p.shares * p.scale := by
      rw [← hp.shares]
      exact Nat.mul_le_mul_right _ (Table.sum_get_le (f := fun _ s => s.shares) (fun _ => rfl) p.positions s)

theorem Sound.worth_le (hp : p.Sound) (a : Address) : p.worth a ≤ p.worthAll := by
  simpa using hp.sum_worth_le {a}

/-- The shares are worth a number of stable tokens within range. -/
def Fits (p : Pool) : Prop := p.worthAll < wordLimit

namespace Fits

theorem product_lt (h : p.Fits) : p.shares * p.scale < wideLimit := by
  have hlt : p.shares * p.scale < p.worthAll * shareScale + shareScale := Nat.lt_div_mul_add (by decide)
  have hlimit : wordLimit * shareScale < wideLimit := by decide
  have := Nat.mul_le_mul_right shareScale (h : p.worthAll + 1 ≤ wordLimit)
  rw [Nat.succ_mul] at this
  omega

theorem total (h : p.Fits) : p.total = .ok p.worthAll := by
  rw [Pool.total, sharesToStable, mulWide, if_pos h.product_lt]
  exact congrArg Except.ok (clampWord_of_lt h)

theorem toStable (h : p.Fits) (hp : p.Sound) (a : Address) :
    sharesToStable (p.position a).shares p.scale = .ok (p.worth a) :=
  sharesToStable_eq_ok.2 ⟨(Nat.mul_le_mul_right _ (hp.shares_le a)).trans_lt h.product_lt, rfl⟩

theorem worth_lt (h : p.Fits) (hp : p.Sound) (a : Address) : p.worth a < wordLimit := (hp.worth_le a).trans_lt h

theorem actual (h : p.Fits) (hp : p.Sound) (a : Address) : p.actual a = .ok (p.worth a) := by
  rw [Pool.actual, h.toStable hp]
  exact congrArg Except.ok (clampWord_of_lt (h.worth_lt hp a))

end Fits

/-- The books never stand in the way of a withdrawal of what a deposit is worth. -/
theorem Sound.exists_withdraw (hp : p.Sound) (h : p.Fits) (hn : n ≠ 0) (hle : n ≤ p.worth a) :
    ∃ p' k, p.withdraw a n = .ok (p', k) := by
  have hlt := h.worth_lt hp a
  have hactual : clampWord (p.worth a) = p.worth a := clampWord_of_lt hlt
  simp only [Pool.withdraw, require, if_pos hn, hp.settled, h.toStable hp a, hactual, if_pos hle, Outcome.ok_bind]
  split
  · -- All shares are taken.
    rw [subtract, if_pos le_rfl]
    exact ⟨_, _, rfl⟩
  · have hfit : n * shareScale < wideLimit := by
      have : wordLimit * shareScale < wideLimit := by decide
      exact (Nat.mul_le_mul_right _ (hle.trans hlt.le)).trans_lt this
    obtain ⟨q, hq⟩ : ∃ q, sharesTaken n p.scale = some q := ⟨_, mulDivWideUp_eq_some.2 ⟨hp.scale_pos.ne', hfit, rfl⟩⟩
    simp only [hq, demand_some, Outcome.map_ok, Outcome.ok_bind, subtract, if_pos (Nat.min_le_right q _)]
    exact ⟨_, _, rfl⟩

end SplitReserve.Pool
