import SplitReserve.Proofs.Failure
import SplitReserve.Treasury

/-!
# The books of a treasury

A treasury is `Balanced` when its counters agree: what was collected is still there, was paid as a bonus or was withdrawn, and
every fee was counted for the operation that paid it.  Then a counter of what was paid out never runs over, so whatever is in
the treasury can be withdrawn (`Balanced.withdraw`), and only the counter of all fees can run over (`Balanced.settle_eq`).

A treasury that began empty is balanced at all times (`Balanced.after`).  The main statement is `after_empty_accounted`.
-/

namespace SplitReserve.Treasury

variable {t t' : Treasury} {op : Operation} {fee bonus amount : Nat}

structure Balanced (t : Treasury) : Prop where
  spent : t.balance + t.bonuses + t.withdrawn = t.collected
  kinds : t.mintF + t.mintX + t.redeemF + t.redeemX = t.collected
  collected_lt : t.collected < wordLimit

/-- The counter of all fees has room for a fee. -/
def Room (t : Treasury) (fee : Nat) : Prop := fee ≠ 0 → t.collected + fee < wordLimit

theorem empty_balanced : empty.Balanced := ⟨rfl, rfl, by decide⟩

theorem recordFee_ok (h : t.recordFee op fee = .ok t') :
    t' = { t.setCollectedBy op (t.collectedBy op + fee) with
      balance := t.balance + fee, collected := t.collected + fee } ∧ (fee ≠ 0 → t.collected + fee < wordLimit) := by
  unfold recordFee at h
  split at h
  next hz =>
    cases h
    subst hz
    refine ⟨?_, fun h => absurd rfl h⟩
    rcases op with (_ | _) | (_ | _) <;> rfl
  next =>
    simp only [Outcome.bind_eq_ok, demand_eq_ok, word?_eq_some] at h
    obtain ⟨balance, ⟨-, rfl⟩, collected, ⟨hc, rfl⟩, n, ⟨-, rfl⟩, h⟩ := h
    cases h
    exact ⟨rfl, fun _ => hc⟩

/-- A bonus is paid from what was there before the fee came in. -/
theorem settle_ok (h : t.settle op fee bonus = .ok t') :
    bonus ≤ t.balance ∧ t' = { t.setCollectedBy op (t.collectedBy op + fee) with
      balance := t.balance + fee - bonus
      collected := t.collected + fee
      bonuses := t.bonuses + bonus } ∧ (fee ≠ 0 → t.collected + fee < wordLimit) := by
  simp only [settle, ensureCovered, Outcome.bind_eq_ok, require_eq_ok, demand_eq_ok, word?_eq_some, subtract_eq_ok] at h
  obtain ⟨-, hb, u, hu, balance, ⟨-, rfl⟩, bonuses, ⟨-, rfl⟩, h⟩ := h
  cases h
  obtain ⟨rfl, hc⟩ := recordFee_ok hu
  refine ⟨hb, ?_, hc⟩
  rcases op with (_ | _) | (_ | _) <;> rfl

theorem settle_balance (h : t.settle op fee bonus = .ok t') : t'.balance = t.balance + fee - bonus := by
  rw [(settle_ok h).2.1]

theorem settle_bonuses (h : t.settle op fee bonus = .ok t') : t'.bonuses = t.bonuses + bonus := by
  rw [(settle_ok h).2.1]

theorem settle_withdrawn (h : t.settle op fee bonus = .ok t') : t'.withdrawn = t.withdrawn := by
  rw [(settle_ok h).2.1]
  rcases op with (_ | _) | (_ | _) <;> rfl

theorem withdraw_ok (h : t.withdraw amount = .ok t') :
    amount ≠ 0 ∧ amount ≤ t.balance ∧
      t' = { t with balance := t.balance - amount, withdrawn := t.withdrawn + amount } := by
  simp only [withdraw, Outcome.bind_eq_ok, require_eq_ok, demand_eq_ok, word?_eq_some] at h
  obtain ⟨-, hn, -, hle, withdrawn, ⟨-, rfl⟩, h⟩ := h
  cases h
  exact ⟨hn, hle, rfl⟩

/-- A fee that would overflow a counter is not booked. -/
theorem settle_of_not_room (hb : bonus ≤ t.balance) (hroom : ¬ t.Room fee) :
    t.settle op fee bonus = .error (.fault .mathOverflow) := by
  rw [Room, Classical.not_imp] at hroom
  obtain ⟨hz, hfull⟩ := hroom
  have hrecord : t.recordFee op fee = .error (.fault .mathOverflow) := by
    rw [recordFee, if_neg hz, Outcome.bind_eq_error, demand_eq_error]
    by_cases hbalance : t.balance + fee < wordLimit
    · refine Or.inr ⟨_, by rw [word?, if_pos hbalance, demand_some], ?_⟩
      rw [word?, if_neg hfull]
      rfl
    · exact Or.inl ⟨if_neg hbalance, rfl⟩
  rw [settle, ensureCovered, require, if_pos hb, Outcome.ok_bind, hrecord]
  rfl

namespace Balanced

theorem settle (h : t.Balanced) (hs : t.settle op fee bonus = .ok t') : t'.Balanced := by
  obtain ⟨hb, rfl, hc⟩ := settle_ok hs
  obtain ⟨hspent, hkinds, hlt⟩ := h
  have hlt' : t.collected + fee < wordLimit := by
    by_cases hz : fee = 0
    · omega
    · exact hc hz
  refine ⟨?_, ?_, hlt'⟩
  · -- The counters of the outflow are the same for every operation.
    have : (t.setCollectedBy op (t.collectedBy op + fee)).withdrawn = t.withdrawn := by
      rcases op with (_ | _) | (_ | _) <;> rfl
    simp only [this]
    omega
  · rcases op with (_ | _) | (_ | _) <;> simp only [setCollectedBy, collectedBy] <;> omega

theorem collectedBy_le (h : t.Balanced) (op : Operation) : t.collectedBy op ≤ t.collected := by
  have := h.kinds
  rcases op with (_ | _) | (_ | _) <;> simp only [collectedBy] <;> omega

/-- A bonus that is there can be paid, when all fees ever collected still fit with the new one. -/
theorem exists_settle (h : t.Balanced) (hb : bonus ≤ t.balance) (hroom : t.Room fee) :
    ∃ t', t.settle op fee bonus = .ok t' := by
  have hspent := h.spent
  have hrecord : ∃ u, t.recordFee op fee = .ok u ∧ bonus ≤ u.balance ∧ u.bonuses + bonus < wordLimit := by
    have hlt := h.collected_lt
    by_cases hz : fee = 0
    · exact ⟨t, by rw [recordFee, if_pos hz], hb, by omega⟩
    · have hcollected := hroom hz
      have hkind := h.collectedBy_le op
      rw [recordFee, if_neg hz, word?, if_pos (by omega), word?, if_pos hcollected, word?, if_pos (by omega)]
      refine ⟨_, rfl, ?_, ?_⟩
      · exact Nat.le_trans hb (Nat.le_add_right _ _)
      · rcases op with (_ | _) | (_ | _) <;> simp only [setCollectedBy] <;> omega
  obtain ⟨u, hu, hle, hfit⟩ := hrecord
  rw [Treasury.settle, ensureCovered, require, if_pos hb, Outcome.ok_bind, hu, Outcome.ok_bind, subtract, if_pos hle,
    Outcome.ok_bind, word?, if_pos hfit]
  exact ⟨_, rfl⟩

/-- Whatever is there can be withdrawn. -/
theorem withdraw (h : t.Balanced) (hn : amount ≠ 0) (hle : amount ≤ t.balance) :
    t.withdraw amount = .ok { t with balance := t.balance - amount, withdrawn := t.withdrawn + amount } := by
  have hfit : t.withdrawn + amount < wordLimit := by
    have := h.spent
    have := h.collected_lt
    omega
  rw [Treasury.withdraw, require, if_pos hn, require, if_pos hle, word?, if_pos hfit]
  rfl

theorem withdraw_balanced (h : t.Balanced) (hw : t.withdraw amount = .ok t') : t'.Balanced := by
  obtain ⟨-, hle, rfl⟩ := withdraw_ok hw
  refine ⟨?_, h.kinds, h.collected_lt⟩
  have := h.spent
  simp only
  omega

/-- A settlement that is refused lacks the bonus, or the room to count the fee. -/
theorem settle_eq (h : t.Balanced) (op : Operation) (fee bonus : Nat) : t.settle op fee bonus =
    if t.balance < bonus then .error (.fault .insufficientBonusFunds)
    else if fee ≠ 0 ∧ wordLimit ≤ t.collected + fee then .error (.fault .mathOverflow)
    else .ok { t.setCollectedBy op (t.collectedBy op + fee) with
      balance := t.balance + fee - bonus
      collected := t.collected + fee
      bonuses := t.bonuses + bonus } := by
  by_cases hb : t.balance < bonus
  · rw [if_pos hb, Treasury.settle, ensureCovered, require, if_neg (Nat.not_le.2 hb)]
    rfl
  rw [if_neg hb]
  rw [Nat.not_lt] at hb
  by_cases hfull : fee ≠ 0 ∧ wordLimit ≤ t.collected + fee
  · rw [if_pos hfull]
    exact settle_of_not_room hb fun hroom => absurd (hroom hfull.1) (Nat.not_lt.2 hfull.2)
  · rw [if_neg hfull]
    obtain ⟨t', hs⟩ : ∃ t', t.settle op fee bonus = .ok t' :=
      h.exists_settle hb fun hz => Nat.lt_of_not_le fun hle => hfull ⟨hz, hle⟩
    rw [hs, (settle_ok hs).2.1]

end Balanced

/-! ### Runs -/

/-- What a treasury is asked for. -/
inductive Request
  | settle (op : Operation) (fee bonus : Nat)
  | withdraw (amount : Nat)

def Request.apply (t : Treasury) : Request → Outcome Treasury
  | settle op fee bonus => t.settle op fee bonus
  | withdraw amount => t.withdraw amount

/-- What a request leaves: one that fails changes nothing. -/
def next (t : Treasury) (x : Request) : Treasury :=
  match x.apply t with
  | .ok t' => t'
  | .error _ => t

def after (t : Treasury) : List Request → Treasury
  | [] => t
  | x :: later => (t.next x).after later

theorem Balanced.next (h : t.Balanced) (x : Request) : (t.next x).Balanced := by
  unfold Treasury.next
  split
  next t' hx =>
    cases x with
    | settle => exact h.settle hx
    | withdraw => exact h.withdraw_balanced hx
  next => exact h

theorem Balanced.after (h : t.Balanced) (requests : List Request) : (t.after requests).Balanced := by
  induction requests generalizing t with
  | nil => exact h
  | cons x later ih => exact ih (h.next x)

/-- The books agree, and all that limits what may be booked is the counter of all fees. -/
structure Accounted (t : Treasury) : Prop where
  spent : t.balance + t.bonuses + t.withdrawn = t.collected
  kinds : t.collected = t.mintF + t.mintX + t.redeemF + t.redeemX
  settle_overflow_iff : ∀ op fee bonus, t.settle op fee bonus = .error (.fault .mathOverflow) ↔
    bonus ≤ t.balance ∧ fee ≠ 0 ∧ wordLimit ≤ t.collected + fee
  withdraw_ne_overflow : ∀ amount, t.withdraw amount ≠ .error (.fault .mathOverflow)
  /-- A fee that can be added to all fees can be added to each counter that it is added to. -/
  fee_fits : ∀ op fee, t.collected + fee < wordLimit →
    t.balance + fee < wordLimit ∧ t.collectedBy op + fee < wordLimit
  /-- What is there can be counted as paid or as withdrawn. -/
  payment_fits : ∀ amount, amount ≤ t.balance → t.bonuses + amount < wordLimit ∧ t.withdrawn + amount < wordLimit

theorem Balanced.accounted (h : t.Balanced) : t.Accounted where
  spent := h.spent
  kinds := h.kinds.symm
  settle_overflow_iff op fee bonus := by
    rw [h.settle_eq]
    split
    next hb => exact ⟨fun e => (nomatch e), fun hf => absurd hb (Nat.not_lt.2 hf.1)⟩
    next hb =>
      split
      next hfull => exact ⟨fun _ => ⟨Nat.not_lt.1 hb, hfull⟩, fun _ => rfl⟩
      next hfull => exact ⟨fun e => (nomatch e), fun hf => absurd hf.2 hfull⟩
  withdraw_ne_overflow amount := by
    by_cases hn : amount ≠ 0
    · by_cases hle : amount ≤ t.balance
      · rw [h.withdraw hn hle]
        exact fun e => (nomatch e)
      · rw [Treasury.withdraw, require, if_pos hn, require, if_neg hle]
        exact fun e => (nomatch e)
    · rw [Treasury.withdraw, require, if_neg hn]
      exact fun e => (nomatch e)
  fee_fits op fee hfee := by
    have := h.spent
    have := h.collectedBy_le op
    omega
  payment_fits amount hle := by
    have := h.spent
    have := h.collected_lt
    omega

/-- The books of a treasury agree whatever was asked of it. -/
theorem after_empty_accounted (requests : List Request) : (empty.after requests).Accounted :=
  (empty_balanced.after requests).accounted

end SplitReserve.Treasury
