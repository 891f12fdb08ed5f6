import Mathlib.Algebra.Order.Ring.Abs
import Mathlib.Tactic.Linarith
import Mathlib.Tactic.Positivity
import Mathlib.Tactic.Ring
import Mathlib.Tactic.Zify
import SplitReserve.PriceFeed
import SplitReserve.Proofs.Amount

/-!
# What a feed accepts

A feed accepts a report just when it is fresh, not older than the last one, and near the last price (`submit_eq_ok`).  A `Trail`
is what becomes of a feed to which reports come, with changes of its limits in between.  Along a trail the times of reports
never go back, a price once set is never lost, and `k` reports move it by less than `k` steps, compounded (`Trail.compounded`).
-/

namespace SplitReserve

/-- A report as it comes to a feed: the limits are those in force. -/
structure Report where
  raw : Nat
  seen : Nat
  now : Nat
  config : FeedConfig

/-- The price that is reported. -/
def Report.price (r : Report) : Nat := r.raw * feedFactor

theorem checkAge_eq_ok {now seen maxAge : Nat} : checkAge now seen maxAge = .ok ↔ seen ≤ now ∧ now - seen < maxAge := by
  unfold checkAge
  split
  next h => simp only [reduceCtorEq, false_iff]; omega
  next h => simp only [true_iff]; omega

theorem cast_distance (a b : Nat) : (distance a b : ℤ) = |(a : ℤ) - b| := by
  unfold distance
  split
  next h => rw [abs_sub_comm, abs_of_nonneg (by omega), Nat.cast_sub h]
  next h => rw [abs_of_nonneg (by omega), Nat.cast_sub (by omega)]

/-- Less than `maxStep` basis points away, or the first price of all. -/
theorem checkStep_eq_ok {new old maxStep : Nat} :
    checkStep new old maxStep = .ok ↔ (old ≠ 0 → |(new : ℤ) - old| * bpsScale < maxStep * old) := by
  unfold checkStep
  split
  next h => simp [h]
  next h =>
    rw [← cast_distance]
    split
    next hstep => simp only [reduceCtorEq, ne_eq, h, not_false_eq_true, true_implies, false_iff, not_lt]; exact_mod_cast hstep
    next hstep => simp only [ne_eq, h, not_false_eq_true, true_implies, true_iff]; exact_mod_cast Nat.lt_of_not_le hstep

namespace FeedConfig

variable {c : FeedConfig}

theorem Valid.maxStep_ne_zero (h : c.Valid) : c.maxStep ≠ 0 := h.2.1

theorem Valid.maxStep_le (h : c.Valid) : c.maxStep ≤ bpsScale := h.2.2.le

end FeedConfig

namespace PriceFeed

variable {f g k : PriceFeed} {r : Report} {rs rs' : List Report} {raw seen now n price s : Nat}

/-! ### One report -/

/-- The report is in order for the feed. -/
structure Accepts (f : PriceFeed) (r : Report) : Prop where
  config : r.config = f.config
  raw : r.raw ≠ 0
  word : r.price < wordLimit
  seen_le : r.seen ≤ r.now
  fresh : r.now - r.seen < r.config.maxAge
  later : f.seen ≤ r.seen
  near : f.price ≠ 0 → |(r.price : ℤ) - f.price| * bpsScale < r.config.maxStep * f.price

/-- What the report makes of the feed. -/
def accept (f : PriceFeed) (r : Report) : PriceFeed := { f with price := r.price, seen := r.seen }

theorem submit_eq_ok : f.submit raw seen now = .ok g ↔
    f.Accepts ⟨raw, seen, now, f.config⟩ ∧ g = f.accept ⟨raw, seen, now, f.config⟩ := by
  simp only [submit, Outcome.bind_eq_ok, require_eq_ok, demand_eq_ok, feedToPrice, word?_eq_some, checkAge_eq_ok,
    checkStep_eq_ok]
  constructor
  · rintro ⟨-, hraw, price, ⟨hword, rfl⟩, -, ⟨hseen, hfresh⟩, -, hlater, -, hnear, e⟩
    cases e
    exact ⟨⟨rfl, hraw, hword, hseen, hfresh, hlater, hnear⟩, rfl⟩
  · rintro ⟨h, rfl⟩
    exact ⟨(), h.raw, _, ⟨h.word, rfl⟩, (), ⟨h.seen_le, h.fresh⟩, (), h.later, (), h.near, rfl⟩

theorem Accepts.price_ne_zero (h : f.Accepts r) : r.price ≠ 0 := Nat.mul_ne_zero h.raw (by decide)

/-- The accepted price is less than `s` basis points away from the last one. -/
theorem Accepts.near_of_le (h : f.Accepts r) (hf : f.price ≠ 0) (hs : r.config.maxStep ≤ s) :
    f.price * (bpsScale - s) < r.price * bpsScale ∧ r.price * bpsScale < f.price * (bpsScale + s) := by
  have hnear := h.near hf
  have hmono : (r.config.maxStep * f.price : ℤ) ≤ s * f.price := by
    exact_mod_cast Nat.mul_le_mul_right f.price hs
  have hscale : (0 : ℤ) ≤ bpsScale := by positivity
  have hhigh := mul_le_mul_of_nonneg_right (le_abs_self ((r.price : ℤ) - f.price)) hscale
  have hlow := mul_le_mul_of_nonneg_right (neg_le_abs ((r.price : ℤ) - f.price)) hscale
  constructor
  · rcases le_total bpsScale s with hle | hle
    · rw [Nat.sub_eq_zero_of_le hle, Nat.mul_zero]
      exact Nat.pos_of_ne_zero (Nat.mul_ne_zero h.price_ne_zero (by decide))
    · zify [hle]
      linarith
  · zify
    linarith

theorem configure_eq_ok {config : FeedConfig} : f.configure config = .ok g ↔ config.Valid ∧ g = { f with config } := by
  simp only [configure, FeedConfig.validate, Outcome.bind_eq_ok, require_eq_ok]
  constructor
  · rintro ⟨-, hv, e⟩
    cases e
    exact ⟨hv, rfl⟩
  · rintro ⟨hv, rfl⟩
    exact ⟨(), hv, rfl⟩

/-! ### Many reports -/

/-- From `f` to `g` these reports are accepted, one after another, and between them the limits may change. -/
inductive Trail : PriceFeed → List Report → PriceFeed → Prop
  | done (f : PriceFeed) : Trail f [] f
  | accept {f g : PriceFeed} {r : Report} {later : List Report} (h : f.Accepts r) (ht : Trail (f.accept r) later g) :
      Trail f (r :: later) g
  | configure {f g : PriceFeed} {config : FeedConfig} {later : List Report} (h : config.Valid)
      (ht : Trail { f with config } later g) : Trail f later g

namespace Trail

theorem append (h : f.Trail rs g) (h' : g.Trail rs' k) : f.Trail (rs ++ rs') k := by
  induction h with
  | done => exact h'
  | accept hr _ ih => exact .accept hr (ih h')
  | configure hc _ ih => exact .configure hc (ih h')

theorem valid (h : f.Trail rs g) (hf : f.config.Valid) : g.config.Valid := by
  induction h with
  | done => exact hf
  | accept _ _ ih => exact ih hf
  | configure hc _ ih => exact ih hc

theorem seen_le (h : f.Trail rs g) : f.seen ≤ g.seen := by
  induction h with
  | done => exact le_rfl
  | accept hr _ ih => exact hr.later.trans ih
  | configure _ _ ih => exact ih

/-- Nothing is reported before it is seen. -/
theorem seen_le_of_le (h : f.Trail rs g) (hf : f.seen ≤ n) (hr : ∀ r ∈ rs, r.now ≤ n) : g.seen ≤ n := by
  induction h with
  | done => exact hf
  | accept hacc _ ih =>
    obtain ⟨hfirst, hlater⟩ := List.forall_mem_cons.1 hr
    exact ih (hacc.seen_le.trans hfirst) hlater
  | configure _ _ ih => exact ih hf hr

theorem price_ne_zero (h : f.Trail rs g) (hf : f.price ≠ 0) : g.price ≠ 0 := by
  induction h with
  | done => exact hf
  | accept hr _ ih => exact ih hr.price_ne_zero
  | configure _ _ ih => exact ih hf

theorem dvd_price (h : f.Trail rs g) (hf : feedFactor ∣ f.price) : feedFactor ∣ g.price := by
  induction h with
  | done => exact hf
  | accept _ _ ih => exact ih (Nat.dvd_mul_left _ _)
  | configure _ _ ih => exact ih hf

theorem eq_of_nil (h : f.Trail [] g) : g.price = f.price ∧ g.seen = f.seen := by
  generalize hrs : ([] : List Report) = rs at h
  induction h with
  | done => exact ⟨rfl, rfl⟩
  | accept => cases hrs
  | configure _ _ ih => exact ih hrs

/-- Each report moves the price by less than `s` basis points of what it was. -/
theorem compounded (h : f.Trail rs g) (hf : f.price ≠ 0) (hs : ∀ r ∈ rs, r.config.maxStep ≤ s) (hrs : rs ≠ []) :
    f.price * (bpsScale - s) ^ rs.length < g.price * bpsScale ^ rs.length ∧
      g.price * bpsScale ^ rs.length < f.price * (bpsScale + s) ^ rs.length := by
  induction h with
  | done => exact absurd rfl hrs
  | configure _ _ ih => exact ih hf hs hrs
  | @accept f g r later hr ht ih =>
    obtain ⟨hfirst, hlater⟩ := List.forall_mem_cons.1 hs
    obtain ⟨hlow, hhigh⟩ := hr.near_of_le hf hfirst
    cases later with
    | nil =>
      have hg : g.price = r.price := ht.eq_of_nil.1
      rw [hg]
      simpa using ⟨hlow, hhigh⟩
    | cons r' later =>
      obtain ⟨ihlow, ihhigh⟩ := ih hr.price_ne_zero hlater (List.cons_ne_nil _ _)
      have hscale : 0 < bpsScale := by decide
      rw [List.length_cons, pow_succ', pow_succ', pow_succ']
      generalize (r' :: later).length = k at *
      constructor
      · calc f.price * ((bpsScale - s) * (bpsScale - s) ^ k)
            = f.price * (bpsScale - s) * (bpsScale - s) ^ k := (Nat.mul_assoc _ _ _).symm
          _ ≤ r.price * bpsScale * (bpsScale - s) ^ k := Nat.mul_le_mul_right _ hlow.le
          _ = r.price * (bpsScale - s) ^ k * bpsScale := by ring
          _ < g.price * bpsScale ^ k * bpsScale := Nat.mul_lt_mul_of_pos_right ihlow hscale
          _ = g.price * (bpsScale * bpsScale ^ k) := by ring
      · calc g.price * (bpsScale * bpsScale ^ k)
            = g.price * bpsScale ^ k * bpsScale := by ring
          _ < r.price * (bpsScale + s) ^ k * bpsScale := Nat.mul_lt_mul_of_pos_right ihhigh hscale
          _ = r.price * bpsScale * (bpsScale + s) ^ k := by ring
          _ ≤ f.price * (bpsScale + s) * (bpsScale + s) ^ k := Nat.mul_le_mul_right _ hhigh.le
          _ = f.price * ((bpsScale + s) * (bpsScale + s) ^ k) := Nat.mul_assoc _ _ _

end Trail

/-! ### Usable prices -/

/-- There is a price, and it is neither stale nor from the future. -/
structure Usable (f : PriceFeed) (now : Nat) : Prop where
  price : f.price ≠ 0
  seen_le : f.seen ≤ now
  fresh : now - f.seen < f.config.maxAge

theorem status_eq_ok : f.status now = .ok ↔ f.Usable now := by
  unfold status
  split
  next h =>
    constructor
    · rintro ⟨⟩
    · intro hu
      exact absurd h hu.price
  next h =>
    rw [checkAge_eq_ok]
    exact ⟨fun ⟨hseen, hfresh⟩ => ⟨h, hseen, hfresh⟩, fun hu => ⟨hu.seen_le, hu.fresh⟩⟩

theorem fresh_eq_ok : f.fresh now = .ok price ↔ f.Usable now ∧ price = f.price := by
  unfold fresh
  rw [← status_eq_ok]
  split
  next h => simp [h, eq_comm]
  all_goals simp [*, refuse]

theorem fresh_ok (h : f.fresh now = .ok price) : price = f.price ∧ f.price ≠ 0 := by
  obtain ⟨hu, e⟩ := fresh_eq_ok.1 h
  exact ⟨e, hu.price⟩

end PriceFeed

end SplitReserve
