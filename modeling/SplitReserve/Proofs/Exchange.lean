import SplitReserve.Proofs.Address
import SplitReserve.Proofs.Token

/-!
# Exchanges with a vault

An account exchanges tokens with a vault when the vault draws what the account allows it to, or pays tokens out to the account.
`Token.exchange` writes down what becomes of the token in both cases; `Whole.draw_eq` and `Whole.pay_eq` say that it does so.
Main statement: the exchanges of different accounts with one vault commute (`exchange_comm`), records and all, as long as the
vault can pay both.
-/

namespace SplitReserve

namespace Published

theorem setBalance_comm (p : Published) {a b : Address} (h : a ≠ b) (m n : Nat) :
    (p.setBalance a m).setBalance b n = (p.setBalance b n).setBalance a m := by
  have hkey : Address.itemKey [a] ≠ Address.itemKey [b] := by
    intro e
    exact h (List.cons.inj (Address.itemKey_injective e)).1
  rw [setBalance, setBalance, setBalance, setBalance, Table.insert_comm _ hkey]

theorem setBalance_setBalance (p : Published) (a : Address) (m n : Nat) :
    (p.setBalance a m).setBalance a n = p.setBalance a n := by
  rw [setBalance, setBalance, setBalance, Table.insert_insert]

theorem setAllowance_comm (p : Published) {a b : Address} (h : a ≠ b) (s s' : Address) (m n : Nat) :
    (p.setAllowance a s m).setAllowance b s' n = (p.setAllowance b s' n).setAllowance a s m := by
  have hkey : Address.itemKey [a, s] ≠ Address.itemKey [b, s'] := by
    intro e
    exact h (List.cons.inj (Address.itemKey_injective e)).1
  rw [setAllowance, setAllowance, setAllowance, setAllowance, Table.insert_comm _ hkey]

end Published

namespace Token

variable {t : Token} {a b v : Address} {n : Nat}

/-! ### Writes in another order -/

theorem setBalance_comm (t : Token) (h : a ≠ b) (m n : Nat) :
    (t.setBalance a m).setBalance b n = (t.setBalance b n).setBalance a m := by
  simp only [setBalance, Table.insert_comm _ h, Published.setBalance_comm _ h]

theorem setBalance_setBalance (t : Token) (a : Address) (m n : Nat) :
    (t.setBalance a m).setBalance a n = t.setBalance a n := by
  simp only [setBalance, Table.insert_insert, Published.setBalance_setBalance]

theorem setAllowance_comm (t : Token) (h : a ≠ b) (s s' : Address) (m n : Nat) :
    (t.setAllowance a s m).setAllowance b s' n = (t.setAllowance b s' n).setAllowance a s m := by
  simp only [setAllowance, Table.get_insert, if_neg h, if_neg h.symm, Table.insert_comm _ h,
    Published.setAllowance_comm _ h]

/-! ### Exchanges -/

/-- Take what is spent from what `owner` allows `spender`. -/
def spend (t : Token) (owner spender : Address) (amount : Nat) : Token :=
  if amount = 0 then t else t.setAllowance owner spender (t.allowance owner spender - amount)

/-- What becomes of a token when the vault draws from an account and pays it; nothing is written when it does neither. -/
def exchange (t : Token) (a vault : Address) (drawn paid : Nat) : Token :=
  if drawn = 0 ∧ paid = 0 then t
  else ((t.setBalance a (t.balance a + paid - drawn)).setBalance vault (t.balance vault + drawn - paid)).spend a vault drawn

@[simp] theorem balance_spend (t : Token) (o s b : Address) (n : Nat) : (t.spend o s n).balance b = t.balance b := by
  unfold spend
  split <;> rfl

theorem spend_setBalance (t : Token) (o s b : Address) (m n : Nat) :
    (t.spend o s m).setBalance b n = (t.setBalance b n).spend o s m := by
  unfold spend
  split <;> rfl

theorem allowance_spend_of_ne (t : Token) {o o' : Address} (h : o' ≠ o) (s s' : Address) (n : Nat) :
    (t.spend o s n).allowance o' s' = t.allowance o' s' := by
  unfold spend
  split
  · rfl
  · rw [allowance_setAllowance, if_neg fun e => h e.1]

theorem spend_comm (t : Token) (h : a ≠ b) (s : Address) (m n : Nat) :
    (t.spend a s m).spend b s n = (t.spend b s n).spend a s m := by
  by_cases hm : m = 0
  · simp only [spend, if_pos hm]
  · by_cases hn : n = 0
    · simp only [spend, if_pos hn]
    · have hb := allowance_spend_of_ne t h.symm s s m
      have ha := allowance_spend_of_ne t h s s n
      rw [spend, if_neg hn, hb, spend, if_neg hm, spend.eq_def (t.spend b s n), if_neg hm, ha, spend, if_neg hn,
        setAllowance_comm t h]

@[simp] theorem exchange_zero (t : Token) (a v : Address) : t.exchange a v 0 0 = t := if_pos ⟨rfl, rfl⟩

theorem balance_exchange (t : Token) (a v : Address) (drawn paid : Nat) (x : Address) :
    (t.exchange a v drawn paid).balance x =
      if x = v then t.balance v + drawn - paid else if x = a then t.balance a + paid - drawn else t.balance x := by
  unfold exchange
  split
  next h =>
    obtain ⟨rfl, rfl⟩ := h
    split
    next e => rw [e]; rfl
    next =>
      split
      next e => rw [e]; rfl
      next => rfl
  next => rw [balance_spend, balance_setBalance, balance_setBalance]

theorem allowance_exchange_of_ne (t : Token) {o : Address} (h : o ≠ a) (v s : Address) (drawn paid : Nat) :
    (t.exchange a v drawn paid).allowance o s = t.allowance o s := by
  unfold exchange
  split
  · rfl
  · rw [allowance_spend_of_ne _ h, allowance_setBalance, allowance_setBalance]

/-- Exchanges of different accounts with one vault commute. -/
theorem exchange_comm (t : Token) (hab : a ≠ b) (ha : a ≠ v) (hb : b ≠ v) {drawn paid drawn' paid' : Nat}
    (hv : paid + paid' ≤ t.balance v) :
    (t.exchange a v drawn paid).exchange b v drawn' paid' = (t.exchange b v drawn' paid').exchange a v drawn paid := by
  by_cases h : drawn = 0 ∧ paid = 0
  · obtain ⟨rfl, rfl⟩ := h
    rw [exchange_zero, exchange_zero]
  by_cases h' : drawn' = 0 ∧ paid' = 0
  · obtain ⟨rfl, rfl⟩ := h'
    rw [exchange_zero, exchange_zero]
  -- Each reads of the other exchange only what the vault has, and the last write of that counts.
  have hx : (t.exchange a v drawn paid).balance b = t.balance b := by
    rw [balance_exchange, if_neg hb, if_neg hab.symm]
  have hy : (t.exchange a v drawn paid).balance v = t.balance v + drawn - paid := by
    rw [balance_exchange, if_pos rfl]
  have hx' : (t.exchange b v drawn' paid').balance a = t.balance a := by
    rw [balance_exchange, if_neg ha, if_neg hab]
  have hy' : (t.exchange b v drawn' paid').balance v = t.balance v + drawn' - paid' := by
    rw [balance_exchange, if_pos rfl]
  have hsum : t.balance v + drawn - paid + drawn' - paid' = t.balance v + drawn' - paid' + drawn - paid := by omega
  rw [exchange, if_neg h', hx, hy, exchange.eq_def (t.exchange b v drawn' paid'), if_neg h, hx', hy', exchange, if_neg h,
    exchange, if_neg h', hsum]
  simp only [spend_setBalance]
  rw [setBalance_comm _ hb.symm, setBalance_setBalance, setBalance_comm _ ha.symm, setBalance_setBalance,
    setBalance_comm t hab, spend_comm _ hab]

/-! ### Calls that are exchanges -/

/-- A vault draws from an account what it is allowed to and the account has. -/
theorem Whole.draw_eq (h : t.Whole) (hav : a ≠ v) (hn : n ≠ 0) :
    t.transferFrom v a v n = (do
      require (n ≤ t.allowance a v) .insufficientAllowance
      require (n ≤ t.balance a) .insufficientTokenBalance
      return (t.exchange a v n 0, [.transfer a v n, .approval a v (t.allowance a v - n)])) := by
  rw [transferFrom, move]
  simp only [require_bind]
  by_cases hallowed : n ≤ t.allowance a v
  · rw [if_pos hallowed, if_pos hallowed]
    by_cases hbalance : n ≤ t.balance a
    · have hfit : t.balance v + n < wideLimit := by
        have := h.balance_add_le hav
        have := h.wide
        omega
      have hv : (t.setBalance a (t.balance a - n)).balance v = t.balance v := by
        rw [balance_setBalance, if_neg hav.symm]
      rw [if_pos hbalance, if_pos hbalance, hv, addWide, if_pos hfit, exchange, if_neg fun e => hn e.1, spend, if_neg hn]
      rfl
    · rw [if_neg hbalance, if_neg hbalance]
      rfl
  · rw [if_neg hallowed, if_neg hallowed]

/-- A vault pays what it has. -/
theorem Whole.pay_eq (h : t.Whole) (hav : a ≠ v) (hn : n ≠ 0) (hle : n ≤ t.balance v) :
    t.transfer v a n = .ok (t.exchange a v 0 n, [.transfer v a n]) := by
  have hfit : t.balance a + n < wideLimit := by
    have := h.balance_add_le hav
    have := h.wide
    omega
  have ha : (t.setBalance v (t.balance v - n)).balance a = t.balance a := by
    rw [balance_setBalance, if_neg hav]
  have hreceived : t.transfer v a n = .ok ((t.setBalance v (t.balance v - n)).setBalance a (t.balance a + n),
      [.transfer v a n]) := by
    refine Outcome.bind_eq_ok.2 ⟨(), require_eq_ok.2 hle, ?_⟩
    refine Outcome.bind_eq_ok.2 ⟨_, addWide_eq_ok.2 ⟨?_, rfl⟩, ?_⟩
    · rw [ha]
      exact hfit
    · rw [ha]
      rfl
  rw [hreceived, exchange, if_neg fun e => hn e.2, spend, if_pos rfl, setBalance_comm t hav]
  rfl

end Token

end SplitReserve
