import Mathlib.Tactic.Ring
import SplitReserve.Pool.Loss
import SplitReserve.Proofs.Amount

/-!
# What a loss leaves

The bounds on a loss that burns something.  The shares lose at least what is burned (`Fits.worth_le`), the index hands out at
most what is paid (`Fits.delta_le`), and the payout is cut in the same proportion as the burn (`Fits.payout_le`).

A loss fails only when the worth of the shares overflows, and nothing is burned only when it is `Idle`: `share_outcomes`.
-/

namespace SplitReserve

theorem sharesToStable_eq_ok {shares scale n : Nat} :
    sharesToStable shares scale = .ok n ↔ shares * scale < wideLimit ∧ n = shares * scale / shareScale := by
  simp only [sharesToStable, Outcome.bind_eq_ok, mulWide_eq_ok]
  constructor
  · rintro ⟨-, ⟨h, rfl⟩, e⟩
    cases e
    exact ⟨h, rfl⟩
  · rintro ⟨h, rfl⟩
    exact ⟨_, ⟨h, rfl⟩, rfl⟩

namespace Loss

/-- How a loss that burns something fits the pool that bears it, and the burn and payout that were asked for. -/
structure Fits (scale shares burn payout : Nat) (l : Loss) : Prop where
  burn_pos : l.burn ≠ 0
  burn_le : l.burn ≤ burn
  shares_pos : shares ≠ 0
  /-- The payout is at most the part of `payout` that the burn is of `burn`. -/
  payout_le : l.payout * burn ≤ payout * l.burn
  delta_le : l.indexDelta * shares ≤ l.payout * indexScale
  lt_delta_succ : l.payout * indexScale < (l.indexDelta + 1) * shares
  scale_pos : 0 < l.scale
  scale_lt : l.scale < scale
  /-- What the shares are worth after the loss, and the burn, are covered by what they were worth before. -/
  worth_le : shares * l.scale + l.burn * shareScale ≤ shares * scale

/-- After the loss the shares are worth at most what the burn leaves. -/
theorem Fits.after_add_burn_le {scale shares burn payout : Nat} {l : Loss} (h : Fits scale shares burn payout l) :
    shares * l.scale / shareScale + l.burn ≤ shares * scale / shareScale := by
  rw [← Nat.add_mul_div_right _ _ (by decide : 0 < shareScale)]
  exact Nat.div_le_div_right h.worth_le

/-- A part of the burn is paid a part of the payout. -/
theorem Fits.payout_le_payout {scale shares burn payout : Nat} {l : Loss} (h : Fits scale shares burn payout l) :
    l.payout ≤ payout := by
  refine Nat.le_of_mul_le_mul_right (h.payout_le.trans (Nat.mul_le_mul_left _ h.burn_le)) ?_
  exact (Nat.pos_of_ne_zero h.burn_pos).trans_le h.burn_le

/-- A loss is paid at most the worth of what is burned, when that is so for what was asked. -/
theorem Fits.payout_mul_le {scale shares burn payout price unit : Nat} {l : Loss} (h : Fits scale shares burn payout l)
    (hburn : burn ≠ 0) (hle : payout * price ≤ burn * unit) : l.payout * price ≤ l.burn * unit := by
  refine Nat.le_of_mul_le_mul_right (c := burn) ?_ (Nat.pos_of_ne_zero hburn)
  calc l.payout * price * burn = l.payout * burn * price := by ring
    _ ≤ payout * l.burn * price := Nat.mul_le_mul_right _ h.payout_le
    _ = payout * price * l.burn := by ring
    _ ≤ burn * unit * l.burn := Nat.mul_le_mul_right _ hle
    _ = l.burn * unit * burn := by ring

/-- What rounding may take from `left`: a millionth of it, and a unit at least. -/
def slack (left : Nat) : Nat := max 1 (left / tolerance)

/-- A scale cut to `(total - burn) / total` takes at least the burn from shares that are worth `total`. -/
private theorem worth_of_cut {shares scale total burn newScale : Nat} (ht : total * shareScale ≤ shares * scale)
    (hpos : 0 < total) (hb : burn ≤ total) (hn : newScale * total ≤ scale * (total - burn)) :
    shares * newScale + burn * shareScale ≤ shares * scale := by
  have h1 : shares * newScale * total ≤ shares * scale * (total - burn) := by
    rw [Nat.mul_assoc, Nat.mul_assoc]
    exact Nat.mul_le_mul_left _ hn
  have h2 : burn * shareScale * total ≤ shares * scale * burn := by
    calc burn * shareScale * total = total * shareScale * burn := by ring
      _ ≤ shares * scale * burn := Nat.mul_le_mul_right _ ht
  have h3 : shares * scale * (total - burn) + shares * scale * burn = shares * scale * total := by
    rw [← Nat.mul_add, Nat.sub_add_cancel hb]
  refine Nat.le_of_mul_le_mul_right ?_ hpos
  rw [Nat.add_mul]
  omega

/-- A loss that burns something, in terms of what `shares` are worth before: the payout is cut as the burn is, the scale is cut
to what the burn leaves, and rounding takes no more from that than is tolerated. -/
theorem share_ok {scale shares burn payout : Nat} {l : Loss} (h : share scale shares burn payout = .ok l)
    (hl : l.burn ≠ 0) : ∃ total, total = shares * scale / shareScale ∧ 0 < total ∧ total < wordLimit ∧
      l.burn = min burn (burnCap total) ∧ l.burn ≤ total ∧ mulDiv payout l.burn burn = some l.payout ∧
      mulDivWide l.payout indexScale shares = some l.indexDelta ∧ mulDiv scale (total - l.burn) total = some l.scale ∧
      l.scale ≠ 0 ∧ total - l.burn - shares * l.scale / shareScale ≤ slack (total - l.burn) := by
  simp only [share, Outcome.bind_eq_ok, sharesToStable_eq_ok, demand_eq_ok, word?_eq_some] at h
  obtain ⟨-, ⟨-, rfl⟩, total, ⟨hw, htotal⟩, h⟩ := h
  rw [← htotal] at hw
  refine ⟨total, htotal, ?_⟩
  split at h
  · cases h; exact absurd rfl hl
  next h0 =>
    rw [not_or] at h0
    split at h
    · cases h; exact absurd rfl hl
    next =>
      simp only [Outcome.bind_eq_ok, demand_eq_ok, subtract_eq_ok, sharesToStable_eq_ok, word?_eq_some] at h
      obtain ⟨paid, hpaid, delta, hdelta, target, ⟨hle, rfl⟩, newScale, hscale, h⟩ := h
      obtain ⟨-, ⟨-, rfl⟩, after, ⟨-, rfl⟩, h⟩ := h
      split at h
      · cases h; exact absurd rfl hl
      next hs =>
        cases h
        rw [not_or] at hs
        refine ⟨Nat.pos_of_ne_zero h0.1, hw, rfl, hle, hpaid, hdelta, hscale, hs.1, ?_⟩
        dsimp only [slack]
        omega

theorem share_fits {scale shares burn payout : Nat} {l : Loss} (h : share scale shares burn payout = .ok l)
    (hl : l.burn ≠ 0) : Fits scale shares burn payout l := by
  obtain ⟨total, rfl, hpos, -, hburn, hle, hpaid, hdelta, hscale, hs, -⟩ := share_ok h hl
  have hworth : shares * scale / shareScale * shareScale ≤ shares * scale := Nat.div_mul_le_self _ _
  generalize shares * scale / shareScale = total at *
  have hcut := mulDiv_mul_le hscale
  obtain ⟨hshares, -, hquot⟩ := mulDivWide_eq_some.1 hdelta
  refine ⟨hl, hburn ▸ Nat.min_le_left _ _, hshares, mulDiv_mul_le hpaid, mulDivWide_mul_le hdelta, ?_,
    Nat.pos_of_ne_zero hs, ?_, worth_of_cut hworth hpos hle hcut⟩
  · rw [hquot, Nat.mul_comm _ shares]
    exact Nat.lt_mul_div_succ _ (Nat.pos_of_ne_zero hshares)
  · -- A cut that takes something leaves less.
    refine Nat.lt_of_mul_lt_mul_right (a := total) (Nat.lt_of_le_of_lt hcut ?_)
    refine Nat.mul_lt_mul_of_pos_left (by omega) (Nat.pos_of_ne_zero ?_)
    rintro rfl
    simp at hworth
    unfold shareScale at hworth
    omega

/-! ### When a loss is shared -/

theorem burnCap_eq (total : Nat) : burnCap total = total / 2 := by
  unfold burnCap maxLossShare bpsScale
  omega

/-- What a burn leaves of `total`, of which it takes half at most. -/
def left (total burn : Nat) : Nat := total - min burn (total / 2)

/-- The scale that a burn leaves of shares that are worth `total`. -/
def cut (scale total burn : Nat) : Nat := scale * left total burn / total

/-- Nothing is burned of shares that are worth `total`: there is too little, or the scale that is left is too coarse. -/
def Idle (scale shares total burn : Nat) : Prop :=
  total < 2 ∨ burn = 0 ∨ cut scale total burn = 0 ∨
    shares * cut scale total burn / shareScale + slack (left total burn) < left total burn

instance (scale shares total burn : Nat) : Decidable (Idle scale shares total burn) :=
  inferInstanceAs (Decidable (_ ∨ _ ∨ _ ∨ _))

/-- A loss of shares that are worth `total`: half of it is burned at most, and paid for in proportion, and what rounding takes
is tolerated. -/
structure Shared (scale shares total burn payout : Nat) (l : Loss) : Prop extends Fits scale shares burn payout l where
  burn_eq : l.burn = min burn (total / 2)
  payout_eq : l.payout = payout * l.burn / burn
  delta_eq : l.indexDelta = l.payout * indexScale / shares
  left_le : total - l.burn - slack (total - l.burn) ≤ shares * l.scale / shareScale
  le_left : shares * l.scale / shareScale ≤ total - l.burn

theorem share_shared {scale shares burn payout : Nat} {l : Loss} (h : share scale shares burn payout = .ok l)
    (hl : l.burn ≠ 0) : Shared scale shares (shares * scale / shareScale) burn payout l := by
  have hfits := share_fits h hl
  obtain ⟨total, rfl, -, -, hburn, -, hpaid, hdelta, -, -, hslack⟩ := share_ok h hl
  exact ⟨hfits, by rw [hburn, burnCap_eq], (mulDiv_eq_some.1 hpaid).2.2, (mulDivWide_eq_some.1 hdelta).2.2,
    tsub_le_iff_tsub_le.1 hslack, Nat.le_sub_of_add_le hfits.after_add_burn_le⟩

private theorem mul_div_le {a b c : Nat} (h : b ≤ c) : a * b / c ≤ a :=
  Nat.div_le_of_le_mul ((Nat.mul_le_mul_left a h).trans_eq (Nat.mul_comm a c))

/-- A loss is shared unless the worth of the shares overflows. -/
theorem share_eq {scale shares burn payout : Nat} (hscale : scale < wordLimit) (hpayout : payout < wordLimit)
    (hworth : shares * scale < wideLimit) : share scale shares burn payout =
      if wordLimit ≤ shares * scale / shareScale then .error (.fault .mathOverflow)
      else if Idle scale shares (shares * scale / shareScale) burn then .ok (none scale)
      else
        let taken := min burn (shares * scale / shareScale / 2)
        let paid := payout * taken / burn
        .ok ⟨taken, paid, paid * indexScale / shares, cut scale (shares * scale / shareScale) burn⟩ := by
  rw [share, sharesToStable_eq_ok.2 ⟨hworth, rfl⟩, Outcome.ok_bind]
  generalize htotal : shares * scale / shareScale = total
  by_cases hfull : wordLimit ≤ total
  · rw [if_pos hfull, word?, if_neg (Nat.not_lt.2 hfull)]
    rfl
  rw [if_neg hfull, word?, if_pos (Nat.lt_of_not_le hfull), demand_some, Outcome.ok_bind, burnCap_eq]
  by_cases hz : total = 0 ∨ burn = 0
  · have hidle : Idle scale shares total burn := hz.elim (fun h => .inl (by omega)) (fun h => .inr (.inl h))
    rw [if_pos hz, if_pos hidle]
    rfl
  rw [if_neg hz]
  by_cases hnone : min burn (total / 2) = 0
  · have hidle : Idle scale shares total burn := .inl (by omega)
    dsimp only
    rw [if_pos hnone, if_pos hidle]
    rfl
  dsimp only
  rw [if_neg hnone]
  have hpaid : mulDiv payout (min burn (total / 2)) burn = some (payout * min burn (total / 2) / burn) :=
    mulDiv_eq_some.2 ⟨by omega, (mul_div_le (Nat.min_le_left _ _)).trans_lt hpayout, rfl⟩
  have hindex : mulDivWide (payout * min burn (total / 2) / burn) indexScale shares =
      some (payout * min burn (total / 2) / burn * indexScale / shares) := by
    refine mulDivWide_eq_some.2 ⟨?_, ?_, rfl⟩
    · rintro rfl
      rw [Nat.zero_mul, Nat.zero_div] at htotal
      omega
    · exact (Nat.mul_le_mul_right _ ((mul_div_le (Nat.min_le_left _ _)).trans hpayout.le)).trans_lt (by decide)
  have hcut : mulDiv scale (total - min burn (total / 2)) total = some (cut scale total burn) :=
    mulDiv_eq_some.2 ⟨by omega, (mul_div_le (Nat.sub_le _ _)).trans_lt hscale, rfl⟩
  have hafter : shares * cut scale total burn ≤ shares * scale := Nat.mul_le_mul_left _ (mul_div_le (Nat.sub_le _ _))
  have hleft : shares * cut scale total burn / shareScale < wordLimit := by
    have := Nat.div_le_div_right (c := shareScale) hafter
    omega
  rw [hpaid, demand_some, Outcome.ok_bind, hindex, demand_some, Outcome.ok_bind, subtract_eq_ok.2 ⟨by omega, rfl⟩,
    Outcome.ok_bind, hcut, demand_some, Outcome.ok_bind, sharesToStable_eq_ok.2 ⟨hafter.trans_lt hworth, rfl⟩,
    Outcome.ok_bind, word?, if_pos hleft, demand_some, Outcome.ok_bind]
  refine if_congr ?_ rfl rfl
  rw [not_or] at hz
  have htwo : ¬ total < 2 := by omega
  simp only [Idle, htwo, hz.2, false_or]
  refine or_congr_right ?_
  dsimp only [slack, left]
  omega

theorem share_of_idle {scale shares burn payout : Nat} (hscale : scale < wordLimit) (hpayout : payout < wordLimit)
    (hworth : shares * scale < wideLimit) (hfit : shares * scale / shareScale < wordLimit)
    (h : Idle scale shares (shares * scale / shareScale) burn) : share scale shares burn payout = .ok (none scale) := by
  rw [share_eq hscale hpayout hworth, if_neg (Nat.not_le.2 hfit), if_pos h]

theorem exists_share {scale shares burn payout : Nat} (hscale : scale < wordLimit) (hpayout : payout < wordLimit)
    (hworth : shares * scale < wideLimit) (hfit : shares * scale / shareScale < wordLimit)
    (h : ¬ Idle scale shares (shares * scale / shareScale) burn) :
    ∃ l, share scale shares burn payout = .ok l ∧ Shared scale shares (shares * scale / shareScale) burn payout l := by
  have heq := @share_eq scale shares burn payout hscale hpayout hworth
  rw [if_neg (Nat.not_le.2 hfit), if_neg h] at heq
  have hburn : min burn (shares * scale / shareScale / 2) ≠ 0 := by
    simp only [Idle, not_or] at h
    omega
  exact ⟨_, heq, share_shared heq hburn⟩

/-- The worth of the shares overflows, or nothing is burned, or the loss is shared. -/
theorem share_outcomes {scale shares burn payout : Nat} (hscale : scale < wordLimit) (hpayout : payout < wordLimit)
    (hworth : shares * scale < wideLimit) :
    (∀ e, share scale shares burn payout = .error e ↔
      wordLimit ≤ shares * scale / shareScale ∧ e = .fault .mathOverflow) ∧
    (shares * scale / shareScale < wordLimit →
      (share scale shares burn payout = .ok (none scale) ↔ Idle scale shares (shares * scale / shareScale) burn) ∧
      (¬ Idle scale shares (shares * scale / shareScale) burn → ∃ l, share scale shares burn payout = .ok l ∧
        Shared scale shares (shares * scale / shareScale) burn payout l)) := by
  rcases Nat.lt_or_ge (shares * scale / shareScale) wordLimit with hfit | hfull
  · have hidle := @share_of_idle scale shares burn payout hscale hpayout hworth hfit
    have hshared := @exists_share scale shares burn payout hscale hpayout hworth hfit
    refine ⟨fun e => ⟨fun h => ?_, fun h => absurd hfit (Nat.not_lt.2 h.1)⟩,
      fun _ => ⟨⟨fun h => ?_, hidle⟩, hshared⟩⟩
    · by_cases hi : Idle scale shares (shares * scale / shareScale) burn
      · cases h.symm.trans (hidle hi)
      · obtain ⟨l, hl, -⟩ := hshared hi
        cases h.symm.trans hl
    · by_contra hi
      obtain ⟨l, hl, hl'⟩ := hshared hi
      cases hl.symm.trans h
      exact hl'.burn_pos rfl
  · have heq := @share_eq scale shares burn payout hscale hpayout hworth
    rw [if_pos hfull] at heq
    refine ⟨fun e => ?_, fun hfit => absurd hfit (Nat.not_lt.2 hfull)⟩
    rw [heq]
    exact ⟨fun h => ⟨hfull, (Except.error.inj h).symm⟩, fun h => h.2 ▸ rfl⟩

/-- Rounding the scale takes 80 more than was burned, which is tolerated. -/
theorem share_outcomes_tolerated :
    1000000000 < wordLimit ∧ 1 < wordLimit ∧ 400000000000 * 1000000000 < wideLimit ∧
      share 1000000000 400000000000 157733537520 1 = .ok ⟨157733537520, 1, 2500000, 605666156⟩ ∧
      Shared 1000000000 400000000000 400000000000 157733537520 1 ⟨157733537520, 1, 2500000, 605666156⟩ := by
  have h := @share_outcomes 1000000000 400000000000 157733537520 1 (by decide) (by decide) (by decide)
  obtain ⟨l, hl, hshared⟩ := (h.2 (by decide)).2 (by decide)
  have hl' : share 1000000000 400000000000 157733537520 1 = .ok ⟨157733537520, 1, 2500000, 605666156⟩ := rfl
  cases Except.ok.inj (hl.symm.trans hl')
  exact ⟨by decide, by decide, by decide, hl, hshared⟩

end Loss

end SplitReserve
