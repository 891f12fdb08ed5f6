import SplitReserve.Chain.TokenCall
import SplitReserve.Proofs.Amount
import SplitReserve.Proofs.Table

/-!
# What calls do to a token

Every operation on balances is a flow: tokens leave a source, if there is one, and come to a target, if there is one.  A
transfer has both, a mint has no source, and a burn has no target.  From this follow the two facts on which the books of a
protocol rest: the supply is the sum of the balances (`Call.whole`), and the balance of a holder who never calls and never
allows anything can only grow (`Call.kept`).
-/

namespace SplitReserve.Token

variable {t t' : Token} {a b caller : Address} {n : Nat} {es : List Event}

/-! ### Writes -/

@[simp] theorem balance_setBalance (t : Token) (a b : Address) (n : Nat) :
    (t.setBalance a n).balance b = if b = a then n else t.balance b := Table.get_insert _ _ _ _

@[simp] theorem allowance_setBalance (t : Token) (a o s : Address) (n : Nat) :
    (t.setBalance a n).allowance o s = t.allowance o s := rfl

@[simp] theorem supply_setBalance (t : Token) (a : Address) (n : Nat) : (t.setBalance a n).supply = t.supply := rfl

@[simp] theorem minters_setBalance (t : Token) (a : Address) (n : Nat) : (t.setBalance a n).minters = t.minters := rfl

@[simp] theorem balance_setSupply (t : Token) (b : Address) (n : Nat) : (t.setSupply n).balance b = t.balance b := rfl

@[simp] theorem allowance_setSupply (t : Token) (o s : Address) (n : Nat) :
    (t.setSupply n).allowance o s = t.allowance o s := rfl

@[simp] theorem supply_setSupply (t : Token) (n : Nat) : (t.setSupply n).supply = n := rfl

@[simp] theorem minters_setSupply (t : Token) (n : Nat) : (t.setSupply n).minters = t.minters := rfl

@[simp] theorem balance_setAllowance (t : Token) (o s b : Address) (n : Nat) :
    (t.setAllowance o s n).balance b = t.balance b := rfl

@[simp] theorem supply_setAllowance (t : Token) (o s : Address) (n : Nat) :
    (t.setAllowance o s n).supply = t.supply := rfl

@[simp] theorem minters_setAllowance (t : Token) (o s : Address) (n : Nat) :
    (t.setAllowance o s n).minters = t.minters := rfl

@[simp] theorem allowance_setAllowance (t : Token) (o s o' s' : Address) (n : Nat) :
    (t.setAllowance o s n).allowance o' s' = if o' = o ∧ s' = s then n else t.allowance o' s' := by
  simp only [allowance, setAllowance, Table.get_insert]
  by_cases ho : o' = o
  · subst ho
    by_cases hs : s' = s <;> simp [hs, Table.get_insert]
  · simp [ho]

/-! ### Flows -/

/-- `amount` tokens have left `source` and have come to `target`; the supply pays for a missing one. -/
structure Flow (t t' : Token) (source target : Option Address) (amount : Nat) : Prop where
  balance : ∀ a, t'.balance a + (if source = some a then amount else 0) =
    t.balance a + (if target = some a then amount else 0)
  supply : t'.supply + (if target = none then amount else 0) = t.supply + (if source = none then amount else 0)
  wide : t.supply < wideLimit → t'.supply < wideLimit
  minters : t'.minters = t.minters

/-- A flow from elsewhere takes nothing. -/
theorem Flow.le_balance {source target : Option Address} (h : Flow t t' source target n) (ha : source ≠ some a) :
    t.balance a ≤ t'.balance a := by
  have := h.balance a
  rw [if_neg ha] at this
  omega

theorem Flow.le_balance_add {source target : Option Address} (h : Flow t t' source target n) (a : Address) :
    t.balance a ≤ t'.balance a + n := by
  have := h.balance a
  split at this <;> split at this <;> omega

theorem Flow.balance_eq {source target : Option Address} (h : Flow t t' source target n) (hs : source ≠ some a)
    (ht : target ≠ some a) : t'.balance a = t.balance a := by
  have := h.balance a
  rwa [if_neg hs, if_neg ht] at this

theorem Flow.balance_source (h : Flow t t' (some a) (some b) n) (hab : a ≠ b) :
    t'.balance a + n = t.balance a := by
  have := h.balance a
  rwa [if_pos rfl, if_neg (by simpa using hab.symm), Nat.add_zero] at this

theorem Flow.balance_target (h : Flow t t' (some a) (some b) n) (hab : a ≠ b) :
    t'.balance b = t.balance b + n := by
  have := h.balance b
  rwa [if_pos rfl, if_neg (by simpa using hab), Nat.add_zero] at this

theorem Flow.isMinter {source target : Option Address} (h : Flow t t' source target n) (a : Address) :
    t'.isMinter a = t.isMinter a := by
  rw [Token.isMinter, Token.isMinter, h.minters]

/-- The supply is the sum of the balances, and within range. -/
structure Whole (t : Token) : Prop where
  sum : (t.balances.sum fun _ n => n) = t.supply
  wide : t.supply < wideLimit

private theorem sum_balances {s : Finset Address} (hs : t.balances.keys ⊆ s) :
    (t.balances.sum fun _ n => n) = ∑ a ∈ s, t.balance a :=
  Table.sum_eq_sum_get (fun _ => rfl) fun _ ha => Table.get_of_notMem_keys fun h => ha (hs h)

private theorem sum_ite_some {s : Finset Address} {o : Option Address} (h : ∀ a, o = some a → a ∈ s) (n : Nat) :
    (∑ a ∈ s, if o = some a then n else 0) = if o = none then 0 else n := by
  cases o with
  | none => simp
  | some a => simp [h a rfl]

theorem Flow.whole {source target : Option Address} (h : Flow t t' source target n) (hw : t.Whole) : t'.Whole := by
  refine ⟨?_, h.wide hw.wide⟩
  -- Every table concerned has its keys in `s`, so the equation of the flow can be summed up over `s`.
  let s := t.balances.keys ∪ t'.balances.keys ∪ source.toFinset ∪ target.toFinset
  have ht : t.balances.keys ⊆ s := fun a ha => by simp [s, ha]
  have ht' : t'.balances.keys ⊆ s := fun a ha => by simp [s, ha]
  have hs := Finset.sum_congr (rfl : s = s) fun a _ => h.balance a
  rw [Finset.sum_add_distrib, Finset.sum_add_distrib, ← sum_balances ht, ← sum_balances ht',
    sum_ite_some (fun a ha => by simp [s, ha]), sum_ite_some (fun a ha => by simp [s, ha]), hw.sum] at hs
  have := h.supply
  by_cases h1 : source = none <;> by_cases h2 : target = none <;> simp only [h1, h2, if_true, if_false] at hs this <;>
    omega

namespace Whole

theorem balance_le (h : t.Whole) (a : Address) : t.balance a ≤ t.supply := by
  rw [← h.sum]
  exact Table.le_sum (f := fun _ n => n) (fun _ => rfl) t.balances a

theorem balance_add_le (h : t.Whole) (hab : a ≠ b) : t.balance a + t.balance b ≤ t.supply := by
  rw [← h.sum]
  exact Table.add_le_sum (f := fun _ n => n) (fun _ => rfl) t.balances hab

end Whole

/-! ### Operations -/

theorem move_flow (h : t.move a b n = .ok (t', es)) :
    Flow t t' (some a) (some b) n ∧ n ≤ t.balance a ∧ ∀ o s, t'.allowance o s = t.allowance o s := by
  simp only [move, Outcome.bind_eq_ok, require_eq_ok, addWide_eq_ok] at h
  obtain ⟨-, hn, received, ⟨-, rfl⟩, h⟩ := h
  cases h
  refine ⟨⟨fun x => ?_, by simp, fun hw => by simpa using hw, by simp⟩, hn, fun o s => by simp⟩
  by_cases hb : b = x <;> by_cases ha : a = x <;> grind [balance_setBalance]

/-- No transfer of tokens that there are overflows. -/
theorem Whole.exists_move (h : t.Whole) (hn : n ≤ t.balance a) (b : Address) :
    ∃ t' es, t.move a b n = .ok (t', es) := by
  let u := t.setBalance a (t.balance a - n)
  have hfit : u.balance b + n < wideLimit := by
    rw [balance_setBalance]
    split
    next hb => have := h.balance_le a; have := h.wide; omega
    next hb => have := h.balance_add_le hb; have := h.wide; omega
  refine ⟨u.setBalance b (u.balance b + n), [.transfer a b n], ?_⟩
  refine Outcome.bind_eq_ok.2 ⟨(), require_eq_ok.2 hn, ?_⟩
  exact Outcome.bind_eq_ok.2 ⟨_, addWide_eq_ok.2 ⟨hfit, rfl⟩, rfl⟩

/-- Tokens that an owner has, and lets the caller spend, can be moved by it. -/
theorem Whole.exists_transferFrom (h : t.Whole) (hn : n ≤ t.balance a) (ha : n ≤ t.allowance a caller) (b : Address) :
    ∃ t' es, t.transferFrom caller a b n = .ok (t', es) := by
  obtain ⟨u, moved, hm⟩ := h.exists_move hn b
  exact ⟨_, _, Outcome.bind_eq_ok.2 ⟨(), require_eq_ok.2 ha, Outcome.bind_eq_ok.2 ⟨(u, moved), hm, rfl⟩⟩⟩

/-- A mint that the supply has room for does not overflow a balance either. -/
theorem Whole.exists_mint (h : t.Whole) (hc : t.isMinter caller = true) (hn : t.supply + n < wideLimit) (b : Address) :
    ∃ t' es, t.mint caller b n = .ok (t', es) := by
  have hfit : t.balance b + n < wideLimit := (Nat.add_le_add_right (h.balance_le b) n).trans_lt hn
  rw [mint, requireMinter, require, if_pos hc, Outcome.ok_bind, addWide, if_pos hfit, Outcome.ok_bind, addWide, if_pos hn]
  exact ⟨_, _, rfl⟩

theorem Whole.burnFrom_eq (h : t.Whole) (hc : t.isMinter caller = true) (hn : n ≤ t.balance a) :
    t.burnFrom caller a n = .ok ((t.setBalance a (t.balance a - n)).setSupply (t.supply - n), [.burn a n]) := by
  have hsupply := hn.trans (h.balance_le a)
  rw [burnFrom, requireMinter, require, if_pos hc, Outcome.ok_bind, destroy, require, if_pos hn, Outcome.ok_bind, subtract,
    if_pos hsupply]
  rfl

theorem Whole.exists_burnFrom (h : t.Whole) (hc : t.isMinter caller = true) (hn : n ≤ t.balance a) :
    ∃ t' es, t.burnFrom caller a n = .ok (t', es) :=
  ⟨_, _, h.burnFrom_eq hc hn⟩

theorem transfer_flow (h : t.transfer a b n = .ok (t', es)) :
    Flow t t' (some a) (some b) n ∧ n ≤ t.balance a ∧ ∀ o s, t'.allowance o s = t.allowance o s :=
  move_flow h

theorem transferFrom_flow (h : t.transferFrom caller a b n = .ok (t', es)) :
    Flow t t' (some a) (some b) n ∧ n ≤ t.balance a ∧ n ≤ t.allowance a caller ∧
      ∀ o s, t'.allowance o s = if o = a ∧ s = caller then t.allowance a caller - n else t.allowance o s := by
  simp only [transferFrom, Outcome.bind_eq_ok, require_eq_ok] at h
  obtain ⟨-, hn, ⟨u, moved⟩, hm, h⟩ := h
  cases h
  obtain ⟨hf, hb, ha⟩ := move_flow hm
  exact ⟨⟨hf.balance, hf.supply, hf.wide, hf.minters⟩, hb, hn, fun o s => by simp [ha]⟩

theorem mint_flow (h : t.mint caller b n = .ok (t', es)) :
    Flow t t' none (some b) n ∧ t.isMinter caller = true ∧ ∀ o s, t'.allowance o s = t.allowance o s := by
  simp only [mint, requireMinter, Outcome.bind_eq_ok, require_eq_ok, addWide_eq_ok] at h
  obtain ⟨-, hc, balance, ⟨-, rfl⟩, supply, ⟨hs, rfl⟩, h⟩ := h
  cases h
  refine ⟨⟨fun x => ?_, by simp, fun _ => by simpa using hs, by simp⟩, hc, fun o s => by simp⟩
  by_cases hb : b = x <;> grind [balance_setBalance, balance_setSupply]

theorem destroy_flow (h : t.destroy a n = .ok (t', es)) :
    Flow t t' (some a) none n ∧ n ≤ t.balance a ∧ ∀ o s, t'.allowance o s = t.allowance o s := by
  simp only [destroy, Outcome.bind_eq_ok, require_eq_ok, subtract_eq_ok] at h
  obtain ⟨-, hn, supply, ⟨hs, rfl⟩, h⟩ := h
  cases h
  refine ⟨⟨?_, ?_, ?_, by simp⟩, hn, fun o s => by simp⟩
  · intro x
    by_cases ha : a = x <;> grind [balance_setBalance, balance_setSupply]
  · simp
    omega
  · intro hw
    simp only [supply_setSupply]
    omega

theorem burnFrom_flow (h : t.burnFrom caller a n = .ok (t', es)) :
    Flow t t' (some a) none n ∧ t.isMinter caller = true ∧ n ≤ t.balance a ∧
      ∀ o s, t'.allowance o s = t.allowance o s := by
  simp only [burnFrom, requireMinter, Outcome.bind_eq_ok, require_eq_ok] at h
  obtain ⟨-, hc, h⟩ := h
  obtain ⟨hf, hn, ha⟩ := destroy_flow h
  exact ⟨hf, hc, hn, ha⟩

/-! ### Calls -/

/-- The calls of the owner, which decide who may mint. -/
def Call.Managing : Call → Prop
  | .addMinter _ | .removeMinter _ | .transferOwnership _ => True
  | .transfer .. | .approve .. | .transferFrom .. | .mint .. | .burn .. | .burnFrom .. => False

/-- They leave alone what everybody has. -/
theorem Call.eq_of_managing {c : Call} (h : c.apply t caller = .ok (t', es)) (hc : c.Managing) :
    t'.balances = t.balances ∧ t'.supply = t.supply ∧ t'.allowances = t.allowances := by
  cases c with
  | addMinter | removeMinter | transferOwnership =>
    simp only [Call.apply, Token.addMinter, Token.removeMinter, Token.transferOwnership, Outcome.bind_eq_ok] at h
    obtain ⟨-, -, h⟩ := h
    cases h
    exact ⟨rfl, rfl, rfl⟩
  | transfer | approve | transferFrom | mint | burn | burnFrom => exact hc.elim

theorem Call.whole {c : Call} (h : c.apply t caller = .ok (t', es)) (hw : t.Whole) : t'.Whole := by
  cases c with
  | transfer => exact (transfer_flow h).1.whole hw
  | approve => cases h; exact ⟨hw.sum, hw.wide⟩
  | transferFrom => exact (transferFrom_flow h).1.whole hw
  | mint => exact (mint_flow h).1.whole hw
  | burn => exact (destroy_flow h).1.whole hw
  | burnFrom => exact (burnFrom_flow h).1.whole hw
  | addMinter | removeMinter | transferOwnership =>
    obtain ⟨hb, hs, ha⟩ := Call.eq_of_managing h trivial
    exact ⟨by rw [hb, hs, hw.sum], hs ▸ hw.wide⟩

theorem Call.isMinter {c : Call} (hc : ¬ c.Managing) (h : c.apply t caller = .ok (t', es)) (a : Address) :
    t'.isMinter a = t.isMinter a := by
  have hm : t'.minters = t.minters := by
    cases c with
    | transfer => exact (transfer_flow h).1.minters
    | approve => cases h; rfl
    | transferFrom => exact (transferFrom_flow h).1.minters
    | mint => exact (mint_flow h).1.minters
    | burn => exact (destroy_flow h).1.minters
    | burnFrom => exact (burnFrom_flow h).1.minters
    | addMinter | removeMinter | transferOwnership => exact absurd trivial hc
  rw [Token.isMinter, Token.isMinter, hm]

/-- What the caller destroys of its own. -/
def Call.burned : Call → Nat
  | .burn n => n
  | .transfer .. | .approve .. | .transferFrom .. | .mint .. | .burnFrom .. | .addMinter _ | .removeMinter _
  | .transferOwnership _ => 0

/-- But for minters, holders change the supply by what they burn of their own and by nothing else. -/
theorem Call.supply_add_burned {c : Call} (hm : t.isMinter caller = false) (h : c.apply t caller = .ok (t', es)) :
    t'.supply + c.burned = t.supply := by
  cases c with
  | transfer => exact Nat.add_right_cancel (transfer_flow h).1.supply
  | approve => cases h; rfl
  | transferFrom => exact Nat.add_right_cancel (transferFrom_flow h).1.supply
  | mint => exact absurd (mint_flow h).2.1 (by simp [hm])
  | burn => exact (destroy_flow h).1.supply
  | burnFrom => exact absurd (burnFrom_flow h).2.1 (by simp [hm])
  | addMinter | removeMinter | transferOwnership =>
    obtain ⟨-, hs, -⟩ := Call.eq_of_managing h trivial
    exact hs

/-- Only minters make the supply grow. -/
theorem Call.supply_le {c : Call} (hm : t.isMinter caller = false) (h : c.apply t caller = .ok (t', es)) :
    t'.supply ≤ t.supply := Nat.le.intro (Call.supply_add_burned hm h)

/-- Nobody may move tokens of `a`. -/
def Closed (t : Token) (a : Address) : Prop := ∀ s, t.allowance a s = 0

/-- What a holder has who never calls and never allows anything can only be burned by a minter. -/
theorem Call.kept {c : Call} (h : c.apply t caller = .ok (t', es)) (ha : a ≠ caller) (h0 : t.Closed a)
    (hb : t.isMinter caller = true → ∀ n, c ≠ .burnFrom a n) : t.balance a ≤ t'.balance a ∧ t'.Closed a := by
  have hne : some caller ≠ some a := by simpa using ha.symm
  cases c with
  | transfer =>
    obtain ⟨hf, -, hs⟩ := transfer_flow h
    exact ⟨hf.le_balance hne, fun s => by rw [hs, h0]⟩
  | approve =>
    cases h
    exact ⟨le_rfl, fun s => by simp [ha, h0 s]⟩
  | transferFrom owner recipient n =>
    obtain ⟨hf, -, hn, hs⟩ := transferFrom_flow h
    by_cases ho : owner = a
    · subst ho
      -- What is allowed is nothing, so nothing moves.
      have hz : n = 0 := by have := h0 caller; omega
      subst hz
      refine ⟨?_, ?_⟩
      · have := hf.balance owner
        simp at this
        omega
      · intro s
        rw [hs, h0, h0]
        simp
    · exact ⟨hf.le_balance (by simpa using ho), fun s => by rw [hs, if_neg (by simp [Ne.symm ho]), h0]⟩
  | mint =>
    obtain ⟨hf, -, hs⟩ := mint_flow h
    exact ⟨hf.le_balance (by simp), fun s => by rw [hs, h0]⟩
  | burn =>
    obtain ⟨hf, -, hs⟩ := destroy_flow h
    exact ⟨hf.le_balance hne, fun s => by rw [hs, h0]⟩
  | burnFrom holder n =>
    obtain ⟨hf, hm, -, hs⟩ := burnFrom_flow h
    have : holder ≠ a := by
      rintro rfl
      exact hb hm n rfl
    exact ⟨hf.le_balance (by simpa using this), fun s => by rw [hs, h0]⟩
  | addMinter | removeMinter | transferOwnership =>
    obtain ⟨hb', -, ha'⟩ := Call.eq_of_managing h trivial
    exact ⟨by rw [Token.balance, Token.balance, hb'], fun s => by rw [Token.allowance, ha']; exact h0 s⟩

/-- The calls that name `a` as one whose tokens are moved, made or destroyed. -/
def Call.Touches (a : Address) : Call → Prop
  | .transfer recipient _ => recipient = a
  | .transferFrom owner recipient _ => owner = a ∨ recipient = a
  | .mint recipient _ => recipient = a
  | .burnFrom holder _ => holder = a
  | .approve .. | .burn _ | .addMinter _ | .removeMinter _ | .transferOwnership _ => False

/-- A holder keeps what it has in a call that neither comes from it nor names it. -/
theorem Call.balance_eq {c : Call} (h : c.apply t caller = .ok (t', es)) (ha : a ≠ caller) (hc : ¬ c.Touches a) :
    t'.balance a = t.balance a := by
  have hne : some caller ≠ some a := by simpa using ha.symm
  cases c with
  | transfer recipient n =>
    have hr : recipient ≠ a := hc
    exact (transfer_flow h).1.balance_eq hne (by simpa using hr)
  | approve =>
    cases h
    rfl
  | transferFrom owner recipient n =>
    obtain ⟨ho, hr⟩ : owner ≠ a ∧ recipient ≠ a := not_or.1 hc
    exact (transferFrom_flow h).1.balance_eq (by simpa using ho) (by simpa using hr)
  | mint recipient n =>
    have hr : recipient ≠ a := hc
    exact (mint_flow h).1.balance_eq (by simp) (by simpa using hr)
  | burn => exact (destroy_flow h).1.balance_eq hne (by simp)
  | burnFrom holder n =>
    have hr : holder ≠ a := hc
    exact (burnFrom_flow h).1.balance_eq (by simpa using hr) (by simp)
  | addMinter | removeMinter | transferOwnership =>
    obtain ⟨hb, -, -⟩ := Call.eq_of_managing h trivial
    rw [Token.balance, Token.balance, hb]

end SplitReserve.Token
