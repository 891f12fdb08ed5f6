import SplitReserve.Proofs.Address
import SplitReserve.Proofs.Token.Run

/-!
# The published records of a token

A token keeps its books twice, for its own use and in its published records.  `Writes` are all the ways in which either is
written, and each of them writes both alike (`Writes.mirrored`); a call writes the balances of those whom it concerns and no
others (`Call.writes`).  So a record is there exactly when a call that succeeded has concerned it, and then it is right
(`after_init_recorded`).
-/

namespace SplitReserve.Token

variable {t t' u : Token} {a b o s caller : Address} {n : Nat} {es : List Event} {as bs : List Address}
  {ps qs : List (Address × Address)}

/-! ### What calls write -/

/-- From `t` to `t'`, the balances of `as` are written, the allowances of `ps`, and besides them only the supply and the
rights. -/
inductive Writes : Token → List Address → List (Address × Address) → Token → Prop
  | done (t : Token) : Writes t [] [] t
  | balance {t t' : Token} {as : List Address} {ps : List (Address × Address)} (a : Address) (n : Nat)
      (h : Writes (t.setBalance a n) as ps t') : Writes t (a :: as) ps t'
  | allowance {t t' : Token} {as : List Address} {ps : List (Address × Address)} (o s : Address) (n : Nat)
      (h : Writes (t.setAllowance o s n) as ps t') : Writes t as ((o, s) :: ps) t'
  | supply {t t' : Token} {as : List Address} {ps : List (Address × Address)} (n : Nat)
      (h : Writes (t.setSupply n) as ps t') : Writes t as ps t'
  | rights {t t' : Token} {as : List Address} {ps : List (Address × Address)} (owner : Address)
      (minters : Table Address Bool) (h : Writes { t with owner, minters } as ps t') : Writes t as ps t'

theorem Writes.append (h : Writes t as ps u) (h' : Writes u bs qs t') :
    Writes t (as ++ bs) (ps ++ qs) t' := by
  induction h with
  | done => exact h'
  | balance a n _ ih => exact .balance a n (ih h')
  | allowance o s n _ ih => exact .allowance o s n (ih h')
  | supply n _ ih => exact .supply n (ih h')
  | rights owner minters _ ih => exact .rights owner minters (ih h')

/-- Those whose tokens a call moves, makes or destroys. -/
def Call.holders (caller : Address) : Call → List Address
  | .transfer recipient _ => [caller, recipient]
  | .transferFrom owner recipient _ => [owner, recipient]
  | .mint recipient _ => [recipient]
  | .burn _ => [caller]
  | .burnFrom holder _ => [holder]
  | .approve .. | .addMinter _ | .removeMinter _ | .transferOwnership _ => []

/-- The owner and the spender whose allowance a call grants or uses. -/
def Call.pairs (caller : Address) : Call → List (Address × Address)
  | .approve spender _ => [(caller, spender)]
  | .transferFrom owner _ _ => [(owner, caller)]
  | .transfer .. | .mint .. | .burn _ | .burnFrom .. | .addMinter _ | .removeMinter _ | .transferOwnership _ => []

theorem move_writes (h : t.move a b n = .ok (t', es)) : Writes t [a, b] [] t' := by
  simp only [move, Outcome.bind_eq_ok] at h
  obtain ⟨-, -, received, -, h⟩ := h
  cases h
  exact .balance a _ (.balance b _ (.done _))

theorem destroy_writes (h : t.destroy a n = .ok (t', es)) : Writes t [a] [] t' := by
  simp only [destroy, Outcome.bind_eq_ok] at h
  obtain ⟨-, -, supply, -, h⟩ := h
  cases h
  exact .balance a _ (.supply _ (.done _))

theorem Call.writes {c : Call} (h : c.apply t caller = .ok (t', es)) : Writes t (c.holders caller) (c.pairs caller) t' := by
  cases c with
  | transfer => exact move_writes h
  | approve spender n =>
    cases h
    exact .allowance caller spender n (.done _)
  | transferFrom owner recipient n =>
    simp only [Call.apply, Token.transferFrom, Outcome.bind_eq_ok] at h
    obtain ⟨-, -, ⟨u, moved⟩, hm, h⟩ := h
    cases h
    exact (move_writes hm).append (.allowance owner caller _ (.done _))
  | mint recipient n =>
    simp only [Call.apply, Token.mint, Outcome.bind_eq_ok] at h
    obtain ⟨-, -, balance, -, supply, -, h⟩ := h
    cases h
    exact .balance recipient balance (.supply supply (.done _))
  | burn => exact destroy_writes h
  | burnFrom holder n =>
    simp only [Call.apply, Token.burnFrom, Outcome.bind_eq_ok] at h
    obtain ⟨-, -, h⟩ := h
    exact destroy_writes h
  | addMinter | removeMinter | transferOwnership =>
    simp only [Call.apply, Token.addMinter, Token.removeMinter, Token.transferOwnership, Outcome.bind_eq_ok] at h
    obtain ⟨-, -, h⟩ := h
    cases h
    exact .rights _ _ (.done _)

theorem Serves.writes {calls : List Attempt} (h : t.Serves calls t') :
    Writes t (calls.flatMap fun x => x.call.holders x.caller) (calls.flatMap fun x => x.call.pairs x.caller) t' := by
  induction h with
  | nil => exact .done _
  | cons hx _ ih =>
    rw [List.flatMap_cons, List.flatMap_cons]
    exact (Call.writes hx).append ih

/-! ### The two books -/

/-- The amount that a token has on file for what an owner lets a spender move. -/
def allowance? (t : Token) (o s : Address) : Option Nat := (t.allowances.get o).find? s

theorem allowance?_setAllowance (t : Token) (o s o' s' : Address) (n : Nat) :
    (t.setAllowance o s n).allowance? o' s' = if (o', s') = (o, s) then some n else t.allowance? o' s' := by
  simp only [allowance?, setAllowance, Table.get_insert, Prod.mk.injEq]
  by_cases ho : o' = o
  · subst ho
    rw [if_pos rfl, Table.find?_insert]
    simp
  · simp [ho]

/-- The published records are those of the token itself. -/
structure Mirrored (t : Token) : Prop where
  name : t.published.name = t.name
  symbol : t.published.symbol = t.symbol
  decimals : t.published.decimals = t.decimals
  supply : t.published.supply = t.supply
  balances : ∀ a, t.published.balances.find? (Address.itemKey [a]) = t.balances.find? a
  allowances : ∀ o s, t.published.allowances.find? (Address.itemKey [o, s]) = t.allowance? o s

theorem init_mirrored (name symbol : String) (decimals : Nat) (creator : Address) :
    (init name symbol decimals creator).Mirrored := ⟨rfl, rfl, rfl, rfl, fun _ => rfl, fun _ _ => rfl⟩

theorem Mirrored.setBalance (h : t.Mirrored) (a : Address) (n : Nat) : (t.setBalance a n).Mirrored := by
  refine ⟨h.name, h.symbol, h.decimals, h.supply, fun b => ?_, h.allowances⟩
  simp only [Token.setBalance, Published.setBalance, Table.find?_insert, h.balances, Address.itemKey_injective.eq_iff,
    List.cons.injEq, and_true]

theorem Mirrored.setAllowance (h : t.Mirrored) (o s : Address) (n : Nat) : (t.setAllowance o s n).Mirrored := by
  refine ⟨h.name, h.symbol, h.decimals, h.supply, h.balances, fun o' s' => ?_⟩
  rw [allowance?_setAllowance, ← h.allowances]
  simp only [Token.setAllowance, Published.setAllowance, Table.find?_insert, Address.itemKey_injective.eq_iff,
    List.cons.injEq, and_true, Prod.mk.injEq]

theorem Writes.mirrored (h : Writes t as ps t') (ht : t.Mirrored) : t'.Mirrored := by
  induction h with
  | done => exact ht
  | balance a n _ ih => exact ih (ht.setBalance a n)
  | allowance o s n _ ih => exact ih (ht.setAllowance o s n)
  | supply n _ ih => exact ih ⟨ht.name, ht.symbol, ht.decimals, rfl, ht.balances, ht.allowances⟩
  | rights owner minters _ ih => exact ih ⟨ht.name, ht.symbol, ht.decimals, ht.supply, ht.balances, ht.allowances⟩

/-! ### What is on file -/

/-- What was written stays on file, and nothing else comes there. -/
theorem Writes.isSome_balance (h : Writes t as ps t') (b : Address) :
    (t'.balances.find? b).isSome ↔ b ∈ as ∨ (t.balances.find? b).isSome := by
  induction h with
  | done => simp
  | balance a n _ ih =>
    rw [ih, Token.setBalance, Table.find?_insert, List.mem_cons]
    by_cases hb : b = a <;> simp [hb]
  | allowance => assumption
  | supply => assumption
  | rights => assumption

theorem Writes.isSome_allowance (h : Writes t as ps t') (o s : Address) :
    (t'.allowance? o s).isSome ↔ (o, s) ∈ ps ∨ (t.allowance? o s).isSome := by
  induction h with
  | done => simp
  | allowance o' s' n _ ih =>
    rw [ih, allowance?_setAllowance, List.mem_cons]
    by_cases hb : (o, s) = (o', s') <;> simp [hb]
  | balance => assumption
  | supply => assumption
  | rights => assumption

/-- What nobody wrote is not there. -/
theorem Writes.balance_eq_none (h : Writes t as ps t') (hn : t.balances.find? a = none) (ha : a ∉ as) :
    t'.balances.find? a = none := by
  have := h.isSome_balance a
  rw [hn] at this
  simpa [ha] using this

theorem Writes.allowance_eq_none (h : Writes t as ps t') (hn : t.allowance? o s = none) (hp : (o, s) ∉ ps) :
    t'.allowance? o s = none := by
  have := h.isSome_allowance o s
  rw [hn] at this
  simpa [hp] using this

/-- What was never written reads as nothing in the records, and as zero in the token. -/
theorem Mirrored.balance_answer (h : t.Mirrored) (a : Address) :
    (Published.Query.item "balances" (Address.itemKey [a])).answer t.published =
      if (t.balances.find? a).isSome then (Query.balance a).answer t else .nothing := by
  rw [Published.Query.answer, Published.item?, if_pos rfl, h.balances, Query.answer, balance, Table.get]
  cases t.balances.find? a <;> rfl

theorem Mirrored.allowance_answer (h : t.Mirrored) (o s : Address) :
    (Published.Query.item "allowances" (Address.itemKey [o, s])).answer t.published =
      if (t.allowance? o s).isSome then (Query.allowance o s).answer t else .nothing := by
  rw [Published.Query.answer, Published.item?, if_neg (by decide), if_pos rfl, h.allowances, Query.answer,
    Token.allowance, Table.get, ← allowance?]
  cases t.allowance? o s <;> rfl

/-! ### All together -/

/-- The published records of a token to which `calls` have happened. -/
structure Recorded (t : Token) (calls : List Attempt) : Prop where
  name : (Published.Query.text "name").answer t.published = Query.name.answer t
  symbol : (Published.Query.text "symbol").answer t.published = Query.symbol.answer t
  decimals : (Published.Query.small "decimals").answer t.published = Query.decimals.answer t
  supply : (Published.Query.amount "total_supply").answer t.published = Query.supply.answer t
  balance : ∀ a x, x ∈ calls → a ∈ x.call.holders x.caller →
    (Published.Query.item "balances" (Address.itemKey [a])).answer t.published = (Query.balance a).answer t
  noBalance : ∀ a, (∀ x ∈ calls, a ∉ x.call.holders x.caller) →
    (Published.Query.item "balances" (Address.itemKey [a])).answer t.published = .nothing ∧
      (Query.balance a).answer t = .amount 0
  allowance : ∀ o s x, x ∈ calls → (o, s) ∈ x.call.pairs x.caller →
    (Published.Query.item "allowances" (Address.itemKey [o, s])).answer t.published = (Query.allowance o s).answer t
  noAllowance : ∀ o s, (∀ x ∈ calls, (o, s) ∉ x.call.pairs x.caller) →
    (Published.Query.item "allowances" (Address.itemKey [o, s])).answer t.published = .nothing ∧
      (Query.allowance o s).answer t = .amount 0

/-- Whatever is called, and by whom, from the creation of a token on. -/
theorem after_init_recorded (name symbol : String) (decimals : Nat) (creator : Address) (attempts : List Attempt) :
    ((init name symbol decimals creator).after attempts).Recorded ((init name symbol decimals creator).served attempts) := by
  have hw := (serves_served (init name symbol decimals creator) attempts).writes
  have hm := hw.mirrored (init_mirrored name symbol decimals creator)
  refine ⟨?_, ?_, ?_, ?_, ?_, ?_, ?_, ?_⟩
  · rw [Published.Query.answer, Published.text?, if_pos rfl, hm.name]
    rfl
  · rw [Published.Query.answer, Published.text?, if_neg (by decide), if_pos rfl, hm.symbol]
    rfl
  · rw [Published.Query.answer, Published.small?, if_pos rfl, hm.decimals]
    rfl
  · rw [Published.Query.answer, Published.amount?, if_pos rfl, hm.supply]
    rfl
  · intro a x hx ha
    rw [hm.balance_answer, if_pos ((hw.isSome_balance a).2 (Or.inl (List.mem_flatMap.2 ⟨x, hx, ha⟩)))]
  · intro a ha
    have hnone := hw.balance_eq_none rfl fun h => by
      obtain ⟨x, hx, hax⟩ := List.mem_flatMap.1 h
      exact ha x hx hax
    rw [hm.balance_answer, Query.answer, Token.balance, Table.get, hnone]
    exact ⟨rfl, rfl⟩
  · intro o s x hx hp
    rw [hm.allowance_answer, if_pos ((hw.isSome_allowance o s).2 (Or.inl (List.mem_flatMap.2 ⟨x, hx, hp⟩)))]
  · intro o s hp
    have hnone := hw.allowance_eq_none rfl fun h => by
      obtain ⟨x, hx, hpx⟩ := List.mem_flatMap.1 h
      exact hp x hx hpx
    rw [hm.allowance_answer, Query.answer, Token.allowance, Table.get, ← allowance?, hnone]
    exact ⟨rfl, rfl⟩

end SplitReserve.Token
