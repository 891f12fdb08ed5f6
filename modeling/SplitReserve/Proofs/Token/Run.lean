import Mathlib.Algebra.BigOperators.Finprod
import SplitReserve.Proofs.Handled

/-!
# What becomes of a token

Anybody may call a token, and a call that fails leaves it as it is.  So the calls that succeeded are all that ever happened to
it (`serves_served`), and what one of them preserves holds for good: the supply of a token is at all times the sum of its
balances (`Whole.finsum_balance`), and what a spender has moved since it was last allowed something is what is missing of its
allowance (`Serves.moved_add_allowance`).  The main statement is `after_init_accounted`.
-/

namespace SplitReserve.Token

variable {t t' u : Token} {a b owner spender caller : Address} {n : Nat} {es : List Event}

/-! ### Runs -/

/-- Somebody calls a token. -/
structure Attempt where
  caller : Address
  call : Call

/-- What the call leaves. -/
def next (t : Token) (x : Attempt) : Token :=
  match x.call.apply t x.caller with
  | .ok (t', _) => t'
  | .error _ => t

def after (t : Token) : List Attempt → Token
  | [] => t
  | x :: later => (t.next x).after later

/-- The calls that succeed. -/
def served (t : Token) : List Attempt → List Attempt
  | [] => []
  | x :: later =>
    match x.call.apply t x.caller with
    | .ok (t', _) => x :: t'.served later
    | .error _ => t.served later

/-- All these calls succeed in a row. -/
inductive Serves : Token → List Attempt → Token → Prop
  | nil (t : Token) : Serves t [] t
  | cons {t u t' : Token} {x : Attempt} {es : List Event} {later : List Attempt}
      (h : x.call.apply t x.caller = .ok (u, es)) (hs : Serves u later t') : Serves t (x :: later) t'

theorem serves_of_apply {c : Call} (h : c.apply t caller = .ok (t', es)) : t.Serves [⟨caller, c⟩] t' :=
  .cons h (.nil t')

theorem serves_served (t : Token) (attempts : List Attempt) : t.Serves (t.served attempts) (t.after attempts) := by
  induction attempts generalizing t with
  | nil => exact .nil t
  | cons x later ih =>
    cases h : x.call.apply t x.caller with
    | error e =>
      simp only [after, next, served, h]
      exact ih t
    | ok r =>
      simp only [after, next, served, h]
      exact .cons h (ih r.1)

theorem Serves.after_eq {calls : List Attempt} (h : t.Serves calls t') : t.after calls = t' := by
  induction h with
  | nil => rfl
  | cons hx _ ih => simpa only [after, next, hx] using ih

theorem Serves.append {xs ys : List Attempt} (h : t.Serves xs u) (h' : u.Serves ys t') : t.Serves (xs ++ ys) t' := by
  induction h with
  | nil => exact h'
  | cons hx _ ih => exact .cons hx (ih h')

theorem Serves.exists_of_append {xs ys : List Attempt} (h : t.Serves (xs ++ ys) t') :
    ∃ u, t.Serves xs u ∧ u.Serves ys t' := by
  induction xs generalizing t with
  | nil => exact ⟨t, .nil t, h⟩
  | cons x xs ih =>
    cases h with
    | cons hx hs =>
      obtain ⟨u, hxs, hys⟩ := ih hs
      exact ⟨u, .cons hx hxs, hys⟩

/-! ### The supply -/

theorem init_whole (name symbol : String) (decimals : Nat) (creator : Address) :
    (init name symbol decimals creator).Whole := ⟨rfl, (by decide : 0 < wideLimit)⟩

theorem Serves.whole {calls : List Attempt} (h : t.Serves calls t') (hw : t.Whole) : t'.Whole := by
  induction h with
  | nil => exact hw
  | cons hx _ ih => exact ih (Call.whole hx hw)

private theorem support_balance_subset (t : Token) : Function.support t.balance ⊆ t.balances.keys := by
  intro a ha
  by_contra hn
  exact ha (Table.get_of_notMem_keys hn)

theorem finite_support_balance (t : Token) : (Function.support t.balance).Finite :=
  t.balances.keys.finite_toSet.subset t.support_balance_subset

/-- Summed over all addresses there are. -/
theorem Whole.finsum_balance (h : t.Whole) : ∑ᶠ a, t.balance a = t.supply := by
  rw [finsum_eq_sum_of_support_subset _ t.support_balance_subset, ← h.sum]
  exact (Table.sum_eq_sum_keys_get (f := fun _ n => n) (fun _ => rfl) t.balances).symm

/-! ### Allowances -/

/-- What `spender` moves of `owner`'s tokens in a call that succeeds. -/
def Call.moved (owner spender caller : Address) : Call → Nat
  | .transferFrom source _ n => if owner = source ∧ spender = caller then n else 0
  | .transfer .. | .approve .. | .mint .. | .burn _ | .burnFrom .. | .addMinter _ | .removeMinter _ | .transferOwnership _ => 0

def moved (owner spender : Address) : List Attempt → Nat
  | [] => 0
  | x :: later => x.call.moved owner spender x.caller + moved owner spender later

/-- `owner` sets what `spender` may move. -/
def Attempt.Approves (owner spender : Address) (x : Attempt) : Prop := x.caller = owner ∧ ∃ n, x.call = .approve spender n

/-- Between approvals an allowance pays for what is moved, whoever else is called or calls. -/
theorem Call.moved_add_allowance {c : Call} (h : c.apply t caller = .ok (t', es))
    (hx : ¬ Attempt.Approves owner spender ⟨caller, c⟩) :
    c.moved owner spender caller + t'.allowance owner spender = t.allowance owner spender := by
  cases c with
  | transfer => rw [(transfer_flow h).2.2, moved, Nat.zero_add]
  | approve s n =>
    cases h
    have : ¬ (owner = caller ∧ spender = s) := by
      rintro ⟨rfl, rfl⟩
      exact hx ⟨rfl, n, rfl⟩
    rw [allowance_setAllowance, if_neg this, moved, Nat.zero_add]
  | transferFrom source recipient n =>
    obtain ⟨-, -, hn, hs⟩ := transferFrom_flow h
    rw [hs, moved]
    by_cases e : owner = source ∧ spender = caller
    · obtain ⟨rfl, rfl⟩ := e
      rw [if_pos ⟨rfl, rfl⟩, if_pos ⟨rfl, rfl⟩]
      exact Nat.add_sub_of_le hn
    · rw [if_neg e, if_neg e, Nat.zero_add]
  | mint => rw [(mint_flow h).2.2, moved, Nat.zero_add]
  | burn => rw [(destroy_flow h).2.2, moved, Nat.zero_add]
  | burnFrom => rw [(burnFrom_flow h).2.2.2, moved, Nat.zero_add]
  | addMinter | removeMinter | transferOwnership =>
    obtain ⟨-, -, ha⟩ := Call.eq_of_managing h trivial
    rw [moved, Nat.zero_add, allowance, ha, allowance]

theorem Serves.moved_add_allowance {calls : List Attempt} (h : t.Serves calls t')
    (hc : ∀ x ∈ calls, ¬ x.Approves owner spender) :
    moved owner spender calls + t'.allowance owner spender = t.allowance owner spender := by
  induction h with
  | nil => exact Nat.zero_add _
  | cons hx _ ih =>
    obtain ⟨hfirst, hlater⟩ := List.forall_mem_cons.1 hc
    rw [moved, Nat.add_assoc, ih hlater]
    exact Call.moved_add_allowance hx hfirst

/-- From an approval to the next one, what is moved and what may yet be moved make up what was approved. -/
theorem Serves.moved_since {earlier later : List Attempt} (h : t.Serves (earlier ++ ⟨owner, .approve spender n⟩ :: later) t')
    (hl : ∀ x ∈ later, ¬ x.Approves owner spender) : moved owner spender later + t'.allowance owner spender = n := by
  obtain ⟨u, -, h⟩ := h.exists_of_append
  cases h with
  | cons hx hs =>
    cases hx
    rw [hs.moved_add_allowance hl, allowance_setAllowance, if_pos ⟨rfl, rfl⟩]

/-! ### Who takes tokens away -/

/-- The ways in which `n` tokens can leave a holder. -/
inductive Takes (t : Token) (a caller : Address) (n : Nat) : Call → Prop
  | transfer (h : caller = a) (recipient : Address) : Takes t a caller n (.transfer recipient n)
  | burn (h : caller = a) : Takes t a caller n (.burn n)
  | transferFrom (h : n ≤ t.allowance a caller) (recipient : Address) : Takes t a caller n (.transferFrom a recipient n)
  | burnFrom (h : t.isMinter caller = true) : Takes t a caller n (.burnFrom a n)

/-- A flow that takes something from a holder takes all of it there. -/
theorem Flow.eq_of_balance_lt {source target : Option Address} (h : Flow t t' source target n)
    (ha : t'.balance a < t.balance a) : source = some a ∧ t'.balance a + n = t.balance a := by
  have hb := h.balance a
  by_cases hs : source = some a
  · refine ⟨hs, ?_⟩
    rw [if_pos hs] at hb
    split at hb <;> omega
  · rw [if_neg hs] at hb
    omega

theorem Call.takes_of_balance_lt {c : Call} (h : c.apply t caller = .ok (t', es)) (ha : t'.balance a < t.balance a) :
    ∃ n, t.Takes a caller n c ∧ t'.balance a + n = t.balance a := by
  cases c with
  | transfer recipient n =>
    obtain ⟨hs, hb⟩ := (transfer_flow h).1.eq_of_balance_lt ha
    exact ⟨n, .transfer (Option.some.inj hs) recipient, hb⟩
  | approve =>
    cases h
    exact absurd ha (lt_irrefl _)
  | transferFrom source recipient n =>
    obtain ⟨hf, -, hn, -⟩ := transferFrom_flow h
    obtain ⟨hs, hb⟩ := hf.eq_of_balance_lt ha
    cases hs
    exact ⟨n, .transferFrom hn recipient, hb⟩
  | mint =>
    obtain ⟨hs, -⟩ := (mint_flow h).1.eq_of_balance_lt ha
    cases hs
  | burn n =>
    obtain ⟨hs, hb⟩ := (destroy_flow h).1.eq_of_balance_lt ha
    exact ⟨n, .burn (Option.some.inj hs), hb⟩
  | burnFrom source n =>
    obtain ⟨hf, hm, -⟩ := burnFrom_flow h
    obtain ⟨hs, hb⟩ := hf.eq_of_balance_lt ha
    cases hs
    exact ⟨n, .burnFrom hm, hb⟩
  | addMinter | removeMinter | transferOwnership =>
    obtain ⟨hb, -, -⟩ := Call.eq_of_managing h trivial
    rw [balance, balance, hb] at ha
    exact absurd ha (lt_irrefl _)

theorem takes_of_balance_next_lt {x : Attempt} (ha : (t.next x).balance a < t.balance a) :
    ∃ n, t.Takes a x.caller n x.call ∧ (t.next x).balance a + n = t.balance a := by
  cases h : x.call.apply t x.caller with
  | error e =>
    simp only [next, h] at ha
    exact absurd ha (lt_irrefl _)
  | ok r =>
    simp only [next, h] at ha ⊢
    exact Call.takes_of_balance_lt h ha

/-! ### All together -/

/-- The books of a token to which `calls` have happened. -/
structure Accounted (t : Token) (calls : List Attempt) : Prop where
  finite : (Function.support t.balance).Finite
  sum : ∑ᶠ a, t.balance a = t.supply
  /-- Moving tokens is refused for want of them, or of an allowance, but never overflows. -/
  transfer : ∀ caller recipient n, if n ≤ t.balance caller then ∃ r, t.transfer caller recipient n = .ok r
    else t.transfer caller recipient n = refuse .insufficientTokenBalance
  transferFrom : ∀ caller owner recipient n,
    if n ≤ t.allowance owner caller then
      if n ≤ t.balance owner then ∃ r, t.transferFrom caller owner recipient n = .ok r
      else t.transferFrom caller owner recipient n = refuse .insufficientTokenBalance
    else t.transferFrom caller owner recipient n = refuse .insufficientAllowance
  approved : ∀ owner spender n earlier later, calls = earlier ++ ⟨owner, .approve spender n⟩ :: later →
    (∀ x ∈ later, ¬ x.Approves owner spender) → moved owner spender later + t.allowance owner spender = n
  unapproved : ∀ owner spender, (∀ x ∈ calls, ¬ x.Approves owner spender) →
    moved owner spender calls = 0 ∧ t.allowance owner spender = 0
  taken : ∀ x a, (t.next x).balance a < t.balance a →
    ∃ n, t.Takes a x.caller n x.call ∧ (t.next x).balance a + n = t.balance a

theorem Whole.move_cases (h : t.Whole) (a b : Address) (n : Nat) :
    if n ≤ t.balance a then ∃ r, t.move a b n = .ok r else t.move a b n = refuse .insufficientTokenBalance := by
  split
  next hn =>
    obtain ⟨t', es, e⟩ := h.exists_move hn b
    exact ⟨_, e⟩
  next hn => rw [move, require_bind, if_neg hn]

theorem Whole.transferFrom_cases (h : t.Whole) (caller a b : Address) (n : Nat) :
    if n ≤ t.allowance a caller then
      if n ≤ t.balance a then ∃ r, t.transferFrom caller a b n = .ok r
      else t.transferFrom caller a b n = refuse .insufficientTokenBalance
    else t.transferFrom caller a b n = refuse .insufficientAllowance := by
  split
  next hallowed =>
    have hmove := h.move_cases a b n
    split at hmove
    next hn =>
      obtain ⟨t', es, e⟩ := h.exists_transferFrom hn hallowed b
      rw [if_pos hn]
      exact ⟨_, e⟩
    next hn =>
      rw [if_neg hn, transferFrom, require_bind, if_pos hallowed, hmove]
      rfl
  next hallowed => rw [transferFrom, require_bind, if_neg hallowed]

/-- Whatever is called, and by whom, from the creation of a token on. -/
theorem after_init_accounted (name symbol : String) (decimals : Nat) (creator : Address) (attempts : List Attempt) :
    ((init name symbol decimals creator).after attempts).Accounted ((init name symbol decimals creator).served attempts) := by
  have hs := serves_served (init name symbol decimals creator) attempts
  have hw := hs.whole (init_whole name symbol decimals creator)
  exact {
    finite := finite_support_balance _
    sum := hw.finsum_balance
    transfer := hw.move_cases
    transferFrom := hw.transferFrom_cases
    approved := by
      rintro owner spender n earlier later hc hl
      exact (hc ▸ hs).moved_since hl
    unapproved := by
      intro owner spender hc
      exact Nat.add_eq_zero_iff.1 (hs.moved_add_allowance hc)
    taken := fun _ _ => takes_of_balance_next_lt }

/-- Twenty of fifty are moved, to their owner; another thirty-one are more than what is left. -/
example :
    let owner := Address.account 1
    let spender := Address.account 2
    let t := (init "Gold" "GLD" 9 owner).after [⟨owner, .addMinter owner⟩, ⟨owner, .mint owner 80⟩]
    let attempts : List Attempt := [⟨owner, .approve spender 50⟩, ⟨spender, .transferFrom owner owner 20⟩,
      ⟨spender, .transferFrom owner spender 31⟩]
    moved owner spender (t.served attempts) = 20 ∧ (t.after attempts).allowance owner spender = 30 := by decide

end SplitReserve.Token
