import SplitReserve.Launch
import SplitReserve.Proofs.Pool.Accrual
import SplitReserve.Proofs.Pool.Worth

/-!
# Losses in proportion

The guard on a loss looks at the pool as a whole: rounding may take a millionth of what the burn leaves, and a unit at least.
What the guard says of the whole holds of every deposit in proportion to its shares (`mul_worthAll_lt`, `mul_worth_le`), however
the shares are distributed and however small the scale has become.  Main statement: `History.bear_proRata`.

A balance is its part of the whole pool, each rounded down.  So a balance can fall by more than its part of the burn and of the
slack and one unit (`History.fall_after_coarsened`): before the loss it may stand above its part of the pool, by less than its
part of one unit.
-/

namespace SplitReserve.Pool

variable {p p' : Pool} {caller : Address} {burn payout : Nat} {loss : Loss}

/-- Of two quotients that are rounded down, neither is more than its part of the other and one unit. -/
private theorem mul_quotient_lt {s t c d : Nat} (ht : 0 < t) (hd : 0 < d) : s * (t * c / d) < t * (s * c / d + 1) := by
  have hlt : s * c < (s * c / d + 1) * d := by
    rw [Nat.add_mul, Nat.one_mul]
    exact Nat.lt_div_mul_add hd
  refine Nat.lt_of_mul_lt_mul_right (a := d) ?_
  calc s * (t * c / d) * d = s * (t * c / d * d) := Nat.mul_assoc _ _ _
    _ ≤ s * (t * c) := Nat.mul_le_mul_left _ (Nat.div_mul_le_self _ _)
    _ = t * (s * c) := Nat.mul_left_comm _ _ _
    _ < t * ((s * c / d + 1) * d) := Nat.mul_lt_mul_of_pos_left hlt ht
    _ = t * (s * c / d + 1) * d := (Nat.mul_assoc _ _ _).symm

theorem mul_worthAll_lt (h : p.shares ≠ 0) (a : Address) :
    (p.position a).shares * p.worthAll < p.shares * (p.worth a + 1) :=
  mul_quotient_lt (Nat.pos_of_ne_zero h) (by decide)

theorem mul_worth_le (p : Pool) (a : Address) :
    p.shares * p.worth a ≤ (p.position a).shares * (p.worthAll + 1) := by
  rcases Nat.eq_zero_or_pos (p.position a).shares with hz | hpos
  · have : p.worth a = 0 := by rw [worth, hz, Nat.zero_mul, Nat.zero_div]
    rw [this, Nat.mul_zero]
    exact Nat.zero_le _
  · exact (mul_quotient_lt hpos (by decide)).le

theorem bear_share (h : p.bear caller burn payout = .ok (p', loss)) :
    Loss.share p.scale p.shares burn payout = .ok loss := by
  simp only [bear, Outcome.bind_eq_ok] at h
  obtain ⟨-, -, l, hl, h⟩ := h
  split at h
  · cases h
    exact hl
  · simp only [Outcome.bind_eq_ok] at h
    obtain ⟨index, -, owed, -, h⟩ := h
    cases h
    exact hl

/-- What a loss leaves of a pool: what was there less the burn, and less the slack at most. -/
theorem bear_leaves (h : p.bear caller burn payout = .ok (p', loss)) (hb : loss.burn ≠ 0) :
    p.Fits ∧ loss.burn + Loss.slack (p.worthAll - loss.burn) ≤ p.worthAll ∧ p'.worthAll ≤ p.worthAll - loss.burn ∧
      p.worthAll - loss.burn - Loss.slack (p.worthAll - loss.burn) ≤ p'.worthAll := by
  obtain ⟨total, rfl, -, hword, hburn, -, -, -, -, -, hexcess⟩ := Loss.share_ok (bear_share h) hb
  obtain ⟨-, ⟨hz, -⟩ | ⟨-, hfits, haccrues, hscale⟩⟩ := bear_cases h
  · exact absurd hz hb
  have hafter : p'.worthAll = p.shares * loss.scale / shareScale := by
    rw [worthAll, haccrues.shares, hscale]
  have hle : p'.worthAll + loss.burn ≤ p.worthAll := hafter ▸ hfits.after_add_burn_le
  -- At most half is burned, so something is left, and the slack is a part of that.
  have hhalf : loss.burn ≤ p.worthAll / 2 := by
    have : loss.burn ≤ burnCap p.worthAll := hburn.trans_le (Nat.min_le_right _ _)
    unfold burnCap maxLossShare bpsScale at this
    omega
  rw [← hafter] at hexcess
  change p.worthAll - loss.burn - p'.worthAll ≤ Loss.slack (p.worthAll - loss.burn) at hexcess
  refine ⟨hword, ?_, by omega, by omega⟩
  unfold Loss.slack Loss.tolerance
  omega

/-- What a deposit is worth after a loss, against its part of the whole and against what it was worth before. -/
theorem worth_after_bear (h : p.bear caller burn payout = .ok (p', loss)) (hb : loss.burn ≠ 0) (a : Address) :
    (p.position a).shares * (p.worthAll - loss.burn - Loss.slack (p.worthAll - loss.burn)) < p.shares * (p'.worth a + 1) ∧
      p.shares * p'.worth a ≤ (p.position a).shares * (p.worthAll - loss.burn + 1) ∧
      (p.position a).shares * p.worthAll < p.shares * p'.worth a +
        (p.position a).shares * (loss.burn + Loss.slack (p.worthAll - loss.burn)) + p.shares ∧
      p.shares * p.worth a < p.shares * p'.worth a +
        (p.position a).shares * (loss.burn + Loss.slack (p.worthAll - loss.burn) + 1) + p.shares := by
  obtain ⟨-, hsum, hle, hge⟩ := bear_leaves h hb
  obtain ⟨-, ⟨hz, -⟩ | ⟨-, -, haccrues, -⟩⟩ := bear_cases h
  · exact absurd hz hb
  generalize Loss.slack (p.worthAll - loss.burn) = slack at *
  -- After the loss, against its part of the whole; the shares are those before.
  have hlower : (p.position a).shares * p'.worthAll < p.shares * (p'.worth a + 1) := by
    have := mul_worthAll_lt (p := p') (haccrues.shares.symm ▸ haccrues.shares_pos) a
    rwa [haccrues.position, haccrues.shares] at this
  have hupper : p.shares * p'.worth a ≤ (p.position a).shares * (p'.worthAll + 1) := by
    have := mul_worth_le p' a
    rwa [haccrues.position, haccrues.shares] at this
  have hkeep : (p.position a).shares * (p.worthAll - loss.burn - slack) < p.shares * (p'.worth a + 1) :=
    (Nat.mul_le_mul_left _ hge).trans_lt hlower
  have hloss : (p.position a).shares * p.worthAll <
      p.shares * p'.worth a + (p.position a).shares * (loss.burn + slack) + p.shares := by
    have hsplit : (p.position a).shares * p.worthAll = (p.position a).shares * (p.worthAll - loss.burn - slack) +
        (p.position a).shares * (loss.burn + slack) := by
      rw [← Nat.mul_add]
      congr 1
      omega
    rw [Nat.mul_add, Nat.mul_one] at hkeep
    omega
  refine ⟨hkeep, hupper.trans (Nat.mul_le_mul_left _ (Nat.succ_le_succ hle)), hloss, ?_⟩
  have hbefore := mul_worth_le p a
  rw [Nat.mul_add, Nat.mul_one] at hbefore
  rw [Nat.mul_add _ (loss.burn + slack), Nat.mul_one]
  omega

namespace History

/-- Whatever has happened to a pool since its creation, a loss that burns something leaves every position as it is and takes from
all balances in proportion: the balance of an account with `s` of all `t` shares becomes its part of what the burn leaves of the
whole, within the slack and one unit.  So equal shares keep equal balances and more shares never keep less; measured from its
part of the whole an account loses less than its part of the burn and of the slack and one unit more, and its balance falls by
less than that and its part of one unit. -/
theorem bear_proRata {token creator caller : Address} {attempts : List Attempt} {burn payout : Nat} {p' : Pool} {loss : Loss}
    (h : (after token creator attempts).pool.bear caller burn payout = .ok (p', loss)) (hb : loss.burn ≠ 0) :
    let p := (after token creator attempts).pool
    let slack := Loss.slack (p.worthAll - loss.burn)
    (p.total = .ok p.worthAll ∧ loss.burn + slack ≤ p.worthAll ∧ ∀ a, p'.position a = p.position a) ∧
    (∀ a, ∃ n n', p.actual a = .ok n ∧ p'.actual a = .ok n' ∧
      (p.position a).shares * (p.worthAll - loss.burn - slack) < p.shares * (n' + 1) ∧
      p.shares * n' ≤ (p.position a).shares * (p.worthAll - loss.burn + 1) ∧
      (p.position a).shares * p.worthAll < p.shares * n' + (p.position a).shares * (loss.burn + slack) + p.shares ∧
      p.shares * n < p.shares * n' + (p.position a).shares * (loss.burn + slack + 1) + p.shares) ∧
    (∀ a b, (p.position a).shares = (p.position b).shares → p'.actual a = p'.actual b) ∧
    ∀ a b, (p.position a).shares ≤ (p.position b).shares →
      ∃ n m, p'.actual a = .ok n ∧ p'.actual b = .ok m ∧ n ≤ m := by
  have hp := (after_exact token creator attempts).sound
  generalize (after token creator attempts).pool = p at h hp
  have hp' : p'.Sound := hp.bear h
  obtain ⟨hfits, hsum, hle, -⟩ := bear_leaves h hb
  have hfits' : p'.Fits := (hle.trans (Nat.sub_le _ _)).trans_lt hfits
  obtain ⟨-, ⟨hz, -⟩ | ⟨-, -, haccrues, -⟩⟩ := bear_cases h
  · exact absurd hz hb
  refine ⟨⟨hfits.total, hsum, haccrues.position⟩, ?_, ?_, ?_⟩
  · intro a
    exact ⟨p.worth a, p'.worth a, hfits.actual hp a, hfits'.actual hp' a, worth_after_bear h hb a⟩
  · intro a b hab
    rw [hfits'.actual hp' a, hfits'.actual hp' b, worth, worth, haccrues.position, haccrues.position, hab]
  · intro a b hab
    refine ⟨_, _, hfits'.actual hp' a, hfits'.actual hp' b, ?_⟩
    rw [worth, worth, haccrues.position, haccrues.position]
    exact Nat.div_le_div_right (Nat.mul_le_mul_right _ hab)

/-! ### A coarse scale -/

/-- Nine losses of half a pool and a tenth cut the scale to little more than a thousandth; then one unit is deposited, which is
worth less than a unit, and three million more. -/
def coarsened : List Attempt :=
  ⟨Launch.admin, .setController Launch.admin, true⟩ :: ⟨Launch.alice, .deposit 2560, true⟩ ::
    [1280, 640, 320, 160, 80, 40, 20, 10, 5, 2].map (fun n => ⟨Launch.admin, .bear n 0, true⟩) ++
    [⟨Launch.alice, .deposit 1, true⟩, ⟨Launch.bob, .deposit 3000000, true⟩]

private theorem bear_coarsened : ∃ p' loss, (after Launch.fToken Launch.admin coarsened).pool.bear Launch.admin 900000 0 =
    .ok (p', loss) ∧ loss.burn = 900000 ∧ p'.actual Launch.bob = .ok 2099998 := by
  have h : ((after Launch.fToken Launch.admin coarsened).pool.bear Launch.admin 900000 0).map
      (fun r => (r.2.burn, r.1.actual Launch.bob)) = .ok (900000, .ok 2099998) := by
    decide +kernel
  obtain ⟨⟨p', loss⟩, hbear, e⟩ := Outcome.map_eq_ok.1 h
  obtain ⟨hburn, hactual⟩ := Prod.mk.inj e
  exact ⟨p', loss, hbear, hburn, hactual⟩

theorem bear_proRata_coarsened :
    let p := (after Launch.fToken Launch.admin coarsened).pool
    ∃ p' loss n, p.bear Launch.admin 900000 0 = .ok (p', loss) ∧ loss.burn ≠ 0 ∧ p'.actual Launch.bob = .ok n ∧
      (p.position Launch.bob).shares * (p.worthAll - loss.burn - Loss.slack (p.worthAll - loss.burn)) < p.shares * (n + 1) ∧
      p.shares * n ≤ (p.position Launch.bob).shares * (p.worthAll - loss.burn + 1) := by
  obtain ⟨p', loss, h, hburn, -⟩ := bear_coarsened
  have hb : loss.burn ≠ 0 := by
    rw [hburn]
    decide
  obtain ⟨-, hbalance, -⟩ := bear_proRata h hb
  obtain ⟨-, n, -, hn, hlower, hupper, -⟩ := hbalance Launch.bob
  exact ⟨p', loss, n, h, hb, hn, hlower, hupper⟩

/-- With a burn of 900000 and a slack of 2 a balance falls by 900002, which is more than its part of both and one unit: before the
loss the balance stood above its part of the whole. -/
theorem fall_after_coarsened :
    let p := (after Launch.fToken Launch.admin coarsened).pool
    ∃ p' loss, p.bear Launch.admin 900000 0 = .ok (p', loss) ∧ loss.burn = 900000 ∧
      p.actual Launch.bob = .ok 3000000 ∧ p'.actual Launch.bob = .ok 2099998 ∧
      Loss.slack (p.worthAll - 900000) = 2 ∧
      (p.position Launch.bob).shares * (900000 + 2) + p.shares < p.shares * (3000000 - 2099998) := by
  obtain ⟨p', loss, h, hburn, hafter⟩ := bear_coarsened
  exact ⟨p', loss, h, hburn, by decide +kernel, hafter, by decide +kernel, by decide +kernel⟩

end History

end SplitReserve.Pool
