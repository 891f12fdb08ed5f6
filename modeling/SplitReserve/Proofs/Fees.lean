import Mathlib.Algebra.Order.Ring.Nat
import SplitReserve.Fees
import SplitReserve.Proofs.Amount

/-!
# Charges

A schedule in order charges a gross amount exactly what its rates say (`Valid.charge_eq`): the fee, rounded up, is never more than
the amount, so only a net amount beyond the words fails after the two checks.  Two amounts that are charged apart pay no less in
fees and get no more in bonuses than both together, so splitting does not pay (`Valid.netOn_add_le`), and a larger amount leaves
no less (`Valid.netOn_mono`).  `regular_of_validate` has all of it.
-/

namespace SplitReserve

theorem LevelFees.Valid.fee_le {r : LevelFees} (h : r.Valid) (op : Operation) : r.fee op ≤ LevelFees.maxFee := by
  obtain ⟨hmintF, hmintX, hredeemF, hredeemX⟩ := h
  rcases op with (_ | _) | (_ | _)
  · exact hmintF
  · exact hmintX
  · exact hredeemF
  · exact hredeemX

namespace FeeSchedule

variable {s : FeeSchedule} {op : Operation} {level : Level} {gross a b : Nat} {c : Charge}

/-! ### What is due -/

/-- The fee on a gross amount. -/
def feeOn (s : FeeSchedule) (op : Operation) (level : Level) (gross : Nat) : Nat :=
  divUp (gross * s.fee op level) bpsScale

/-- The bonus on a gross amount. -/
def bonusOn (s : FeeSchedule) (op : Operation) (level : Level) (gross : Nat) : Nat :=
  gross * s.bonus op level / bpsScale

/-- What a gross amount leaves. -/
def netOn (s : FeeSchedule) (op : Operation) (level : Level) (gross : Nat) : Nat :=
  gross - s.feeOn op level gross + s.bonusOn op level gross

/-- The operation is closed at the level. -/
def Blocked (op : Operation) (level : Level) : Prop := op = .mint .f ∧ level ≠ .normal

instance (op : Operation) (level : Level) : Decidable (Blocked op level) := by unfold Blocked; infer_instance

theorem validate_eq_ok {u : Unit} : s.validate = .ok u ↔ s.Valid := require_eq_ok

/-- A charge that succeeds is exact. -/
theorem charge_eq_ok (h : s.charge op level gross = .ok c) :
    gross ≠ 0 ∧ s.feeOn op level gross ≤ gross ∧ s.netOn op level gross < wordLimit ∧
      c = ⟨s.netOn op level gross, s.feeOn op level gross, s.bonusOn op level gross⟩ := by
  simp only [charge, Outcome.bind_eq_ok, require_eq_ok, demand_eq_ok, word?_eq_some, bpsUp, bpsDown, mulDivUp_eq_some,
    mulDiv_eq_some] at h
  obtain ⟨-, -, -, hgross, _, ⟨-, -, rfl⟩, _, ⟨-, -, rfl⟩, -, hfee, _, ⟨hnet, rfl⟩, h⟩ := h
  cases h
  exact ⟨hgross, hfee, hnet, rfl⟩

theorem charge_ok (h : s.charge op level gross = .ok c) :
    gross ≠ 0 ∧ c.fee ≤ gross ∧ c.net = gross - c.fee + c.bonus ∧ c.net < wordLimit := by
  obtain ⟨hgross, hfee, hnet, rfl⟩ := charge_eq_ok h
  exact ⟨hgross, hfee, rfl, hnet⟩

/-! ### Schedules in order -/

namespace Valid

theorem level_valid (h : s.Valid) (l : Level) : (s.level l).Valid := by
  obtain ⟨hnormal, h1, h2, h3, -⟩ := h
  cases l with
  | normal => exact hnormal
  | l1 => exact h1
  | l2 => exact h2
  | l3 => exact h3

theorem bonus_le (h : s.Valid) (op : Operation) (l : Level) : s.bonus op l ≤ maxBonus := by
  obtain ⟨-, -, -, -, hrate⟩ := h
  unfold bonus
  split
  · exact hrate
  · exact Nat.zero_le _

/-- No fee is more than what it is taken of. -/
theorem feeOn_le (h : s.Valid) (op : Operation) (l : Level) (gross : Nat) : s.feeOn op l gross ≤ gross := by
  refine (divUp_le_iff (by decide)).2 (Nat.mul_le_mul_left _ ?_)
  exact ((h.level_valid l).fee_le op).trans (by decide)

theorem bonusOn_le (h : s.Valid) (op : Operation) (l : Level) (gross : Nat) : s.bonusOn op l gross ≤ gross := by
  refine Nat.div_le_of_le_mul ?_
  rw [Nat.mul_comm]
  exact Nat.mul_le_mul_right _ ((h.bonus_le op l).trans (by decide))

/-- The outcome of every charge. -/
theorem charge_eq (h : s.Valid) (hg : gross < wordLimit) : s.charge op level gross =
    if Blocked op level then .error (.fault .actionBlocked)
    else if gross = 0 then .error (.fault .invalidAmount)
    else if maxWord < s.netOn op level gross then .error (.fault .mathOverflow)
    else .ok ⟨s.netOn op level gross, s.feeOn op level gross, s.bonusOn op level gross⟩ := by
  have hfee := h.feeOn_le op level gross
  have hbonus := h.bonusOn_le op level gross
  have hup : bpsUp gross (s.fee op level) = some (s.feeOn op level gross) :=
    mulDivUp_eq_some.2 ⟨by decide, hfee.trans_lt hg, rfl⟩
  have hdown : bpsDown gross (s.bonus op level) = some (s.bonusOn op level gross) :=
    mulDiv_eq_some.2 ⟨by decide, hbonus.trans_lt hg, rfl⟩
  unfold charge
  by_cases hblocked : Blocked op level
  · rw [if_pos hblocked, require, if_neg fun himp => hblocked.2 (himp hblocked.1)]
    rfl
  have hopen : op = .mint .f → level = .normal := fun hop => not_not.1 fun hlevel => hblocked ⟨hop, hlevel⟩
  rw [if_neg hblocked, require, if_pos hopen, Outcome.ok_bind]
  by_cases hzero : gross = 0
  · rw [if_pos hzero, require, if_neg (not_not.2 hzero)]
    rfl
  rw [if_neg hzero, require, if_pos hzero, Outcome.ok_bind, hup, demand_some, Outcome.ok_bind, hdown, demand_some,
    Outcome.ok_bind, require, if_pos hfee, Outcome.ok_bind, demand_word_bind]
  change (if s.netOn op level gross < wordLimit then _ else _) = _
  by_cases hnet : s.netOn op level gross < wordLimit
  · have hword : s.netOn op level gross ≤ maxWord := Nat.le_pred_of_lt hnet
    rw [if_pos hnet, if_neg (Nat.not_lt.2 hword)]
    rfl
  · have hword : maxWord < s.netOn op level gross := Nat.lt_of_lt_of_le (by decide) (Nat.not_lt.1 hnet)
    rw [if_neg hnet, if_pos hword]

/-- Splitting an amount does not pay. -/
theorem netOn_add_le (h : s.Valid) (op : Operation) (l : Level) (a b : Nat) :
    s.netOn op l a + s.netOn op l b ≤ s.netOn op l (a + b) := by
  have hfee : s.feeOn op l (a + b) ≤ s.feeOn op l a + s.feeOn op l b := by
    rw [feeOn, Nat.add_mul]
    exact divUp_add_le (by decide)
  have hbonus : s.bonusOn op l a + s.bonusOn op l b ≤ s.bonusOn op l (a + b) := by
    rw [bonusOn, bonusOn, bonusOn, Nat.add_mul]
    exact Nat.div_add_div_le_add_div
  have ha := h.feeOn_le op l a
  have hb := h.feeOn_le op l b
  unfold netOn
  omega

/-- A larger amount leaves no less. -/
theorem netOn_mono (h : s.Valid) (op : Operation) (l : Level) (hle : a ≤ b) : s.netOn op l a ≤ s.netOn op l b := by
  obtain ⟨k, rfl⟩ := Nat.exists_eq_add_of_le hle
  exact (Nat.le_add_right _ _).trans (h.netOn_add_le op l a k)

end Valid

/-- A schedule that charges as it says, and can neither be gamed by a larger amount nor by a split one. -/
structure Regular (s : FeeSchedule) : Prop where
  fee_le : ∀ op level gross, s.feeOn op level gross ≤ gross
  charge_eq : ∀ op level gross, gross < wordLimit → s.charge op level gross =
    if Blocked op level then .error (.fault .actionBlocked)
    else if gross = 0 then .error (.fault .invalidAmount)
    else if maxWord < gross - s.feeOn op level gross + s.bonusOn op level gross then .error (.fault .mathOverflow)
    else .ok ⟨gross - s.feeOn op level gross + s.bonusOn op level gross, s.feeOn op level gross, s.bonusOn op level gross⟩
  net_mono : ∀ op level a b c d, a ≤ b → s.charge op level a = .ok c → s.charge op level b = .ok d → c.net ≤ d.net
  net_add_le : ∀ op level a b c d e, s.charge op level a = .ok c → s.charge op level b = .ok d →
    s.charge op level (a + b) = .ok e → c.net + d.net ≤ e.net

theorem regular_of_validate (h : s.validate = .ok ()) : s.Regular where
  fee_le := (validate_eq_ok.1 h).feeOn_le
  charge_eq _ _ _ hg := (validate_eq_ok.1 h).charge_eq hg
  net_mono op level a b c d hle ha hb := by
    obtain ⟨-, -, -, rfl⟩ := charge_eq_ok ha
    obtain ⟨-, -, -, rfl⟩ := charge_eq_ok hb
    exact (validate_eq_ok.1 h).netOn_mono op level hle
  net_add_le op level a b c d e ha hb hab := by
    obtain ⟨-, -, -, rfl⟩ := charge_eq_ok ha
    obtain ⟨-, -, -, rfl⟩ := charge_eq_ok hb
    obtain ⟨-, -, -, rfl⟩ := charge_eq_ok hab
    exact (validate_eq_ok.1 h).netOn_add_le op level a b

end FeeSchedule

end SplitReserve
