import Mathlib.Tactic.Linarith
import Mathlib.Tactic.Zify
import SplitReserve.Proofs.Amount
import SplitReserve.Sheet

/-!
# Ratios, levels and prices

What is read off a balance sheet is a quotient, rounded down and stopped at the largest word.  Neither shows in a comparison: a
ratio reaches a bound just when the exact products do (`le_collateralRatio_iff`), and so does the price of the leveraged tokens
(`le_xPrice_iff`).  Hence the level is that of the exact products, and a better sheet is never graded worse.  The burn that is
needed for a target is the least that reaches it, since both ask the same of the supply that is left (`burnNeeded_le_iff`).
Main statements: `graded`, `burnNeeded_least`.
-/

namespace SplitReserve

variable {reserve owed price supply face reserve' owed' price' supply' supplyF supplyX net target k n m : Nat}

/-! ### Ratios -/

theorem collateralRatio_le_maxWord (reserve owed price supply face : Nat) :
    collateralRatio reserve owed price supply face ≤ maxWord := by
  unfold collateralRatio
  split
  · exact le_rfl
  · exact Nat.min_le_right _ _

/-- Without stable tokens the ratio is as high as it can be. -/
theorem collateralRatio_of_none (reserve owed price face : Nat) : collateralRatio reserve owed price 0 face = maxWord :=
  if_pos (Or.inl rfl)

/-- A ratio is reached when the net reserve is worth that many times the stable tokens. -/
theorem le_collateralRatio_iff (ht : target ≤ maxWord) :
    target ≤ collateralRatio reserve owed price supply face ↔
      target * (supply * face) ≤ netReserve reserve owed * price * ratioScale := by
  unfold collateralRatio
  split
  next h =>
    have hnone : supply * face = 0 := Nat.mul_eq_zero.2 h
    rw [hnone]
    exact iff_of_true ht (Nat.zero_le _)
  next h =>
    have hpos : 0 < supply * face := Nat.pos_of_ne_zero (mt Nat.mul_eq_zero.1 h)
    rw [clampWord, Nat.le_min, Nat.le_div_iff_mul_le hpos]
    exact and_iff_left ht

/-- More reserve, less of it owed and a higher price are worth more. -/
theorem worth_le_worth (hr : reserve ≤ reserve') (ho : owed' ≤ owed) (hp : price ≤ price') :
    netReserve reserve owed * price ≤ netReserve reserve' owed' * price' :=
  Nat.mul_le_mul (tsub_le_tsub hr ho) hp

/-- A better sheet has no lower ratio. -/
theorem collateralRatio_mono (hr : reserve ≤ reserve') (ho : owed' ≤ owed) (hp : price ≤ price') (hs : supply' ≤ supply) :
    collateralRatio reserve owed price supply face ≤ collateralRatio reserve' owed' price' supply' face := by
  have hword := collateralRatio_le_maxWord reserve owed price supply face
  have hreached := (le_collateralRatio_iff hword).1 le_rfl
  refine (le_collateralRatio_iff hword).2 ?_
  generalize collateralRatio reserve owed price supply face = ratio at *
  calc ratio * (supply' * face)
      ≤ ratio * (supply * face) := Nat.mul_le_mul_left _ (Nat.mul_le_mul_right _ hs)
    _ ≤ netReserve reserve owed * price * ratioScale := hreached
    _ ≤ netReserve reserve' owed' * price' * ratioScale := Nat.mul_le_mul_right _ (worth_le_worth hr ho hp)

/-! ### Levels -/

namespace Level

/-- The level of a worth, scaled as ratios are, against what is due, without a quotient. -/
def ofWorth (worth due : Nat) : Level :=
  if calmRatio * due ≤ worth then normal
  else if firstRatio * due ≤ worth then l1
  else if secondRatio * due ≤ worth then l2
  else l3

/-- A higher ratio has no worse level. -/
theorem rank_ofRatio_le (h : n ≤ m) : (ofRatio m).rank ≤ (ofRatio n).rank := by
  unfold ofRatio
  split_ifs <;> simp only [rank] <;> omega

end Level

/-- The level of a ratio is that of the products it was taken of. -/
theorem ofRatio_collateralRatio (reserve owed price supply face : Nat) :
    Level.ofRatio (collateralRatio reserve owed price supply face) =
      Level.ofWorth (netReserve reserve owed * price * ratioScale) (supply * face) := by
  have hcalm : Level.calmRatio ≤ maxWord := by decide
  have hfirst : Level.firstRatio ≤ maxWord := by decide
  have hsecond : Level.secondRatio ≤ maxWord := by decide
  simp only [Level.ofRatio, Level.ofWorth, le_collateralRatio_iff hcalm, le_collateralRatio_iff hfirst,
    le_collateralRatio_iff hsecond]

/-! ### The price of the leveraged tokens -/

/-- What the net reserve is worth beyond the stable tokens. -/
def surplus (reserve owed price supplyF : Nat) : ℤ := (netReserve reserve owed * price : ℤ) - supplyF * stablePrice

/-- A leveraged token is worth at least `k`, a word, just when the net reserve has that much for each beyond the stable ones. -/
theorem le_xPrice_iff (hx : supplyX ≠ 0) (hk : k ≠ 0) :
    k ≤ xPrice reserve owed price supplyF supplyX ↔
      k ≤ maxWord ∧ k * supplyX ≤ netReserve reserve owed * price - supplyF * stablePrice := by
  have hworth : k * supplyX ≠ 0 := Nat.mul_ne_zero hk hx
  rw [xPrice, if_neg hx]
  split
  next hz =>
    rw [Nat.sub_eq_zero_of_le hz]
    omega
  next =>
    rw [clampWord, le_min_iff, and_comm, Nat.le_div_iff_mul_le (Nat.pos_of_ne_zero hx)]

/-- On a better sheet a leveraged token is worth no less. -/
theorem xPrice_mono (hr : reserve ≤ reserve') (ho : owed' ≤ owed) (hp : price ≤ price') (hs : supply' ≤ supply)
    (hx : supplyX ≠ 0) : xPrice reserve owed price supply supplyX ≤ xPrice reserve' owed' price' supply' supplyX := by
  by_cases hz : xPrice reserve owed price supply supplyX = 0
  · rw [hz]
    exact Nat.zero_le _
  · obtain ⟨hword, hworth⟩ := (le_xPrice_iff hx hz).1 le_rfl
    have hleft : netReserve reserve owed * price - supply * stablePrice ≤
        netReserve reserve' owed' * price' - supply' * stablePrice :=
      tsub_le_tsub (worth_le_worth hr ho hp) (Nat.mul_le_mul_right _ hs)
    exact (le_xPrice_iff hx hz).2 ⟨hword, hworth.trans hleft⟩

theorem xPrice_of_surplus_nonpos (hx : supplyX ≠ 0) (h : surplus reserve owed price supplyF ≤ 0) :
    xPrice reserve owed price supplyF supplyX = 0 := by
  have hle : netReserve reserve owed * price ≤ supplyF * stablePrice := by
    unfold surplus at h
    zify
    linarith
  rw [xPrice, if_neg hx, if_pos hle]

/-- The leveraged tokens share the surplus, but for less than one unit of price, or have the largest price there is. -/
theorem xPrice_of_surplus_pos (hx : supplyX ≠ 0) (h : 0 < surplus reserve owed price supplyF) :
    (0 ≤ surplus reserve owed price supplyF - supplyX * xPrice reserve owed price supplyF supplyX ∧
      surplus reserve owed price supplyF - supplyX * xPrice reserve owed price supplyF supplyX < supplyX) ∨
    (xPrice reserve owed price supplyF supplyX = maxWord ∧ (supplyX * maxWord : ℤ) ≤ surplus reserve owed price supplyF) := by
  have hlt : supplyF * stablePrice < netReserve reserve owed * price := by
    unfold surplus at h
    zify
    linarith
  have hleft : surplus reserve owed price supplyF =
      ((netReserve reserve owed * price - supplyF * stablePrice : Nat) : ℤ) := by
    rw [surplus, Nat.cast_sub hlt.le]
    push_cast
    rfl
  rw [hleft, xPrice, if_neg hx, if_neg (Nat.not_le.2 hlt)]
  generalize netReserve reserve owed * price - supplyF * stablePrice = left
  have hdiv := Nat.div_add_mod left supplyX
  have hmod := Nat.mod_lt left (Nat.pos_of_ne_zero hx)
  generalize left / supplyX = each, left % supplyX = rest at *
  rcases Nat.le_total each maxWord with hle | hge
  · rw [clampWord, Nat.min_eq_left hle, ← hdiv]
    push_cast
    exact Or.inl ⟨by linarith, by linarith⟩
  · rw [clampWord, Nat.min_eq_right hge]
    have hall : supplyX * maxWord ≤ left := by
      have := Nat.mul_le_mul_left supplyX hge
      omega
    exact Or.inr ⟨rfl, by exact_mod_cast hall⟩

/-- While a leveraged token is worth anything, the net reserve covers the stable tokens. -/
theorem ratioScale_le_of_xPrice (hx : supplyX ≠ 0) (h : xPrice reserve owed price supplyF supplyX ≠ 0) :
    ratioScale ≤ collateralRatio reserve owed price supplyF stablePrice := by
  have hlt : supplyF * stablePrice < netReserve reserve owed * price := by
    by_contra hge
    rw [xPrice, if_neg hx, if_pos (Nat.not_lt.1 hge)] at h
    exact h rfl
  refine (le_collateralRatio_iff (by decide)).2 ?_
  rw [Nat.mul_comm]
  exact Nat.mul_le_mul_right _ hlt.le

/-! ### Wide arithmetic -/

/-- The ratio, with products that must be wide. -/
def collateralRatioWide (reserve owed price supply face : Nat) : Outcome Nat :=
  if supply = 0 ∨ face = 0 then .ok maxWord
  else do
    let worth ← mulWide (netReserve reserve owed) price
    let scaled ← mulWide worth ratioScale
    let due ← mulWide supply face
    return clampWord (scaled / due)

/-- The price of a leveraged token, with products that must be wide and a difference that must not be negative. -/
def xPriceWide (reserve owed price supplyF supplyX : Nat) : Outcome Nat :=
  if supplyX = 0 then .ok stablePrice
  else do
    let worth ← mulWide (netReserve reserve owed) price
    let due ← mulWide supplyF stablePrice
    if worth ≤ due then return 0
    let left ← subtract worth due
    return clampWord (left / supplyX)

private theorem mulWide_of_lt {a b c d : Nat} (ha : a < c) (hb : b < d) (h : c * d ≤ wideLimit) :
    mulWide a b = .ok (a * b) :=
  mulWide_eq_ok.2 ⟨(Nat.mul_lt_mul'' ha hb).trans_le h, rfl⟩

private theorem worth_wide (hr : reserve < wordLimit) (hp : price < wordLimit) :
    mulWide (netReserve reserve owed) price = .ok (netReserve reserve owed * price) :=
  mulWide_of_lt ((Nat.sub_le _ _).trans_lt hr) hp (by decide)

/-- All products of words are wide. -/
theorem collateralRatioWide_eq (hr : reserve < wordLimit) (hp : price < wordLimit) (hs : supply < wordLimit)
    (hf : face < wordLimit) : collateralRatioWide reserve owed price supply face =
      .ok (collateralRatio reserve owed price supply face) := by
  unfold collateralRatioWide collateralRatio
  split
  next => rfl
  next =>
    have hworth : netReserve reserve owed * price < wordLimit * wordLimit :=
      Nat.mul_lt_mul'' ((Nat.sub_le _ _).trans_lt hr) hp
    have hscale : ratioScale < wordLimit := by decide
    rw [worth_wide hr hp, Outcome.ok_bind, mulWide_of_lt hworth hscale (by decide), Outcome.ok_bind,
      mulWide_of_lt hs hf (by decide)]
    rfl

theorem xPriceWide_eq (hr : reserve < wordLimit) (hp : price < wordLimit) (hf : supplyF < wordLimit) :
    xPriceWide reserve owed price supplyF supplyX = .ok (xPrice reserve owed price supplyF supplyX) := by
  unfold xPriceWide xPrice
  split
  next => rfl
  next =>
    have hface : stablePrice < wordLimit := by decide
    rw [worth_wide hr hp, Outcome.ok_bind, mulWide_of_lt hf hface (by decide), Outcome.ok_bind]
    split
    next => rfl
    next h =>
      rw [subtract, if_pos (Nat.le_of_not_le h)]
      rfl

/-! ### Graded sheets -/

/-- What the level and the price of the leveraged tokens say of a sheet. -/
structure Graded (reserve owed price supplyF supplyX : Nat) : Prop where
  /-- The level is that of the exact products. -/
  level : Level.ofRatio (collateralRatio reserve owed price supplyF stablePrice) =
    Level.ofWorth (netReserve reserve owed * price * ratioScale) (supplyF * stablePrice)
  /-- More reserve, less of it owed, a higher price and fewer stable tokens make nothing worse. -/
  better : ∀ reserve' owed' price' supplyF', reserve ≤ reserve' → owed' ≤ owed → price ≤ price' → supplyF' ≤ supplyF →
    collateralRatio reserve owed price supplyF stablePrice ≤ collateralRatio reserve' owed' price' supplyF' stablePrice ∧
    (supplyX ≠ 0 → xPrice reserve owed price supplyF supplyX ≤ xPrice reserve' owed' price' supplyF' supplyX) ∧
    (currentLevel reserve' owed' price' supplyF' stablePrice).rank ≤ (currentLevel reserve owed price supplyF stablePrice).rank
  worthless : supplyX ≠ 0 → surplus reserve owed price supplyF ≤ 0 → xPrice reserve owed price supplyF supplyX = 0
  /-- The price is the surplus for each token, rounded down, or as much as a word can say. -/
  shared : supplyX ≠ 0 → 0 < surplus reserve owed price supplyF →
    (0 ≤ surplus reserve owed price supplyF - supplyX * xPrice reserve owed price supplyF supplyX ∧
      surplus reserve owed price supplyF - supplyX * xPrice reserve owed price supplyF supplyX < supplyX) ∨
    (xPrice reserve owed price supplyF supplyX = maxWord ∧ (supplyX * maxWord : ℤ) ≤ surplus reserve owed price supplyF)
  covered : supplyX ≠ 0 → 0 < xPrice reserve owed price supplyF supplyX →
    ratioScale ≤ collateralRatio reserve owed price supplyF stablePrice
  /-- No product on the way leaves the wide numbers. -/
  ratio_wide : ∀ face < wordLimit, collateralRatioWide reserve owed price supplyF face =
    .ok (collateralRatio reserve owed price supplyF face)
  price_wide : xPriceWide reserve owed price supplyF supplyX = .ok (xPrice reserve owed price supplyF supplyX)

/-- Every sheet of words is graded. -/
theorem graded (owed supplyX : Nat) (hr : reserve < wordLimit) (hp : price < wordLimit) (hf : supplyF < wordLimit) :
    Graded reserve owed price supplyF supplyX where
  level := ofRatio_collateralRatio _ _ _ _ _
  better reserve' owed' price' supplyF' hr ho hp hs := by
    have hratio : collateralRatio reserve owed price supplyF stablePrice ≤
        collateralRatio reserve' owed' price' supplyF' stablePrice := collateralRatio_mono hr ho hp hs
    exact ⟨hratio, xPrice_mono hr ho hp hs, Level.rank_ofRatio_le hratio⟩
  worthless := xPrice_of_surplus_nonpos
  shared := xPrice_of_surplus_pos
  covered hx h := ratioScale_le_of_xPrice hx (Nat.ne_of_gt h)
  ratio_wide _ hface := collateralRatioWide_eq hr hp hf hface
  price_wide := xPriceWide_eq hr hp hf

/-- One unit of the reserve short of the second bound. -/
theorem graded_below_secondRatio : 1144 * priceScale - 1 < wordLimit ∧ priceScale < wordLimit ∧ 1000 * priceScale < wordLimit ∧
    Graded (1144 * priceScale - 1) 0 priceScale (1000 * priceScale) priceScale ∧
    Level.ofRatio (collateralRatio (1144 * priceScale - 1) 0 priceScale (1000 * priceScale) stablePrice) = .l3 := by
  have hr : 1144 * priceScale - 1 < wordLimit := by decide
  have hp : priceScale < wordLimit := by decide
  have hf : 1000 * priceScale < wordLimit := by decide
  have hgraded := graded 0 priceScale hr hp hf
  refine ⟨hr, hp, hf, hgraded, ?_⟩
  rw [hgraded.level]
  decide

/-! ### The burn that is needed -/

/-- Some burn is enough for a target just when the supply that it leaves has the target ratio. -/
theorem burnNeeded_le_iff (hs : supply ≤ maxWord) (hf : face ≠ 0) (ht : target ≠ 0) (hw : target ≤ maxWord) (burn : Nat) :
    burnNeeded net price supply face target ≤ burn ↔ target ≤ collateralRatio net 0 price (supply - burn) face := by
  have hpos : 0 < target * face := Nat.mul_pos (Nat.pos_of_ne_zero ht) (Nat.pos_of_ne_zero hf)
  have hleft : supply - burn ≤ maxWord := (Nat.sub_le _ _).trans hs
  calc burnNeeded net price supply face target ≤ burn
      ↔ supply - burn ≤ clampWord (net * price * ratioScale / (target * face)) := by
        rw [burnNeeded, if_neg (not_or.2 ⟨ht, hf⟩)]
        omega
    _ ↔ (supply - burn) * (target * face) ≤ net * price * ratioScale := by
        rw [clampWord, Nat.le_min, Nat.le_div_iff_mul_le hpos]
        exact and_iff_left hleft
    _ ↔ target ≤ collateralRatio net 0 price (supply - burn) face := by
        rw [le_collateralRatio_iff hw, Nat.mul_left_comm]
        rfl

/-- What is needed is the least burn that reaches the target, and nothing when the target is reached already. -/
theorem burnNeeded_least (net price : Nat) (hs : supply < wordLimit) (hf : face ≠ 0) (ht : target ≠ 0) (hw : target < wordLimit) :
    burnNeeded net price supply face target ≤ supply ∧
    target ≤ collateralRatio net 0 price (supply - burnNeeded net price supply face target) face ∧
    (∀ burn < burnNeeded net price supply face target, collateralRatio net 0 price (supply - burn) face < target) ∧
    (burnNeeded net price supply face target = 0 ↔ target ≤ collateralRatio net 0 price supply face) := by
  have hiff : ∀ burn, burnNeeded net price supply face target ≤ burn ↔
      target ≤ collateralRatio net 0 price (supply - burn) face :=
    burnNeeded_le_iff (Nat.le_pred_of_lt hs) hf ht (Nat.le_pred_of_lt hw)
  refine ⟨(hiff supply).2 ?_, (hiff _).1 le_rfl, fun burn hburn => ?_, ?_⟩
  · rw [Nat.sub_self, collateralRatio_of_none]
    exact Nat.le_pred_of_lt hw
  · rw [← Nat.not_le, ← hiff, Nat.not_le]
    exact hburn
  · rw [← Nat.le_zero]
    exact hiff 0

/-- One token fewer would not do. -/
theorem burnNeeded_least_calm : 1000 * priceScale < wordLimit ∧ stablePrice ≠ 0 ∧ Level.calmRatio ≠ 0 ∧
    Level.calmRatio < wordLimit ∧
    burnNeeded (1000 * priceScale) 1100000000 (1000 * priceScale) stablePrice Level.calmRatio = 157733537520 ∧
    Level.calmRatio ≤ collateralRatio (1000 * priceScale) 0 1100000000 (1000 * priceScale - 157733537520) stablePrice ∧
    collateralRatio (1000 * priceScale) 0 1100000000 (1000 * priceScale - 157733537519) stablePrice < Level.calmRatio := by
  have hs : 1000 * priceScale < wordLimit := by decide
  have hf : stablePrice ≠ 0 := by decide
  have ht : Level.calmRatio ≠ 0 := by decide
  have hw : Level.calmRatio < wordLimit := by decide
  have hneed : burnNeeded (1000 * priceScale) 1100000000 (1000 * priceScale) stablePrice Level.calmRatio = 157733537520 := by
    decide
  obtain ⟨-, hreached, hleast, -⟩ := burnNeeded_least (1000 * priceScale) 1100000000 hs hf ht hw
  rw [hneed] at hreached hleast
  exact ⟨hs, hf, ht, hw, hneed, hreached, hleast _ (by decide)⟩

end SplitReserve
