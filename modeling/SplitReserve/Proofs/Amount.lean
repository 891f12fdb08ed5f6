import SplitReserve.Amount

/-!
# Ranges and quotients

When an operation that must stay in range succeeds, and with what.  A quotient rounded down times its divisor is at most the
product it was taken of (`mulDiv_mul_le`), and one rounded up at least (`le_mulDivWideUp_mul`); all bounds on rounding come
from these two.
-/

namespace SplitReserve

theorem word?_eq_some {n m : Nat} : word? n = some m ↔ n < wordLimit ∧ m = n := by
  unfold word?
  split
  next h => simp [h, eq_comm]
  next h => simp [h]

theorem wide?_eq_some {n m : Nat} : wide? n = some m ↔ n < wideLimit ∧ m = n := by
  unfold wide?
  split
  next h => simp [h, eq_comm]
  next h => simp [h]

/-- What follows a demand for a word is done when it is one. -/
theorem demand_word_bind {α : Type} (f : Fault) (n : Nat) (k : Nat → Outcome α) :
    demand f (word? n) >>= k = if n < wordLimit then k n else .error (.fault f) := by
  unfold word?
  split <;> rfl

theorem demand_wide_bind {α : Type} (f : Fault) (n : Nat) (k : Nat → Outcome α) :
    demand f (wide? n) >>= k = if n < wideLimit then k n else .error (.fault f) := by
  unfold wide?
  split <;> rfl

theorem addWide_eq_ok {a b c : Nat} : addWide a b = .ok c ↔ a + b < wideLimit ∧ c = a + b := by
  unfold addWide
  split
  next h => simp [h, eq_comm]
  next h => simp [h]

theorem mulWide_eq_ok {a b c : Nat} : mulWide a b = .ok c ↔ a * b < wideLimit ∧ c = a * b := by
  unfold mulWide
  split
  next h => simp [h, eq_comm]
  next h => simp [h]

theorem subtract_eq_ok {a b c : Nat} : subtract a b = .ok c ↔ b ≤ a ∧ c = a - b := by
  unfold subtract
  split
  next h => simp [h, eq_comm]
  next h => simp [h]

theorem clampWord_le (n : Nat) : clampWord n ≤ n := Nat.min_le_left _ _

theorem clampWord_of_lt {n : Nat} (h : n < wordLimit) : clampWord n = n := by
  unfold clampWord maxWord
  omega

theorem clampWord_mono {n m : Nat} (h : n ≤ m) : clampWord n ≤ clampWord m := by
  unfold clampWord
  omega

/-- What is clamped below the largest word is not clamped. -/
theorem clampWord_eq_of_lt {n m : Nat} (hm : m ≤ maxWord) (h : clampWord n < m) : clampWord n = n := by
  unfold clampWord at *
  omega

theorem mulDiv_eq_some {a b c q : Nat} :
    mulDiv a b c = some q ↔ c ≠ 0 ∧ a * b / c < wordLimit ∧ q = a * b / c := by
  unfold mulDiv
  split
  next h => simp [h]
  next h => simp [h, word?_eq_some]

theorem mulDivUp_eq_some {a b c q : Nat} :
    mulDivUp a b c = some q ↔ c ≠ 0 ∧ divUp (a * b) c < wordLimit ∧ q = divUp (a * b) c := by
  unfold mulDivUp
  split
  next h => simp [h]
  next h => simp [h, word?_eq_some]

theorem mulDivWide_eq_some {a b c q : Nat} :
    mulDivWide a b c = some q ↔ c ≠ 0 ∧ a * b < wideLimit ∧ q = a * b / c := by
  unfold mulDivWide
  split
  next h => simp [h]
  next h => simp only [Option.map_eq_some_iff, wide?_eq_some]; grind

theorem mulDivWideUp_eq_some {a b c q : Nat} :
    mulDivWideUp a b c = some q ↔ c ≠ 0 ∧ a * b < wideLimit ∧ q = divUp (a * b) c := by
  unfold mulDivWideUp
  split
  next h => simp [h]
  next h => simp only [Option.map_eq_some_iff, wide?_eq_some]; grind

theorem mulDiv_mul_le {a b c q : Nat} (h : mulDiv a b c = some q) : q * c ≤ a * b := by
  obtain ⟨-, -, rfl⟩ := mulDiv_eq_some.1 h
  exact Nat.div_mul_le_self _ _

theorem mulDivWide_mul_le {a b c q : Nat} (h : mulDivWide a b c = some q) : q * c ≤ a * b := by
  obtain ⟨-, -, rfl⟩ := mulDivWide_eq_some.1 h
  exact Nat.div_mul_le_self _ _

theorem le_mulDivWideUp_mul {a b c q : Nat} (h : mulDivWideUp a b c = some q) : a * b ≤ q * c := by
  obtain ⟨hc, -, rfl⟩ := mulDivWideUp_eq_some.1 h
  exact (divUp_le_iff (Nat.pos_of_ne_zero hc)).1 (Nat.le_refl _)

/-- Rounding up once takes no more than rounding up twice. -/
theorem divUp_add_le {n m d : Nat} (hd : 0 < d) : divUp (n + m) d ≤ divUp n d + divUp m d := by
  rw [divUp_le_iff hd, Nat.add_mul]
  exact Nat.add_le_add ((divUp_le_iff hd).1 (Nat.le_refl _)) ((divUp_le_iff hd).1 (Nat.le_refl _))

end SplitReserve
