import SplitReserve.Proofs.Amount

/-!
# Why a computation fails

The counterpart of `Outcome.bind_eq_ok`: two computations in a row fail when the first does, or the second after it.  With what
each single step can fail of, `simp` finds the steps that can be the cause of a given failure.  A computation is `Handled` when
nothing but a fault can be.
-/

namespace SplitReserve

variable {α β : Type} {e : Failure} {f : Fault}

theorem Outcome.bind_eq_error {x : Outcome α} {k : α → Outcome β} :
    x >>= k = .error e ↔ x = .error e ∨ ∃ a, x = .ok a ∧ k a = .error e := by
  cases x with
  | ok a =>
    constructor
    · intro h
      exact Or.inr ⟨a, rfl, h⟩
    · rintro (h | ⟨b, hb, h⟩)
      · cases h
      · cases hb
        exact h
  | error e' =>
    constructor
    · intro h
      cases h
      exact Or.inl rfl
    · rintro (h | ⟨b, hb, -⟩)
      · cases h
        rfl
      · cases hb

theorem Outcome.map_eq_error {x : Outcome α} {g : α → β} : x.map g = .error e ↔ x = .error e := by
  cases x with
  | ok a => exact ⟨nofun, nofun⟩
  | error e' => exact ⟨fun h => by cases h; rfl, fun h => by cases h; rfl⟩

theorem require_eq_error {p : Prop} [Decidable p] : require p f = .error e ↔ ¬ p ∧ .fault f = e := by
  unfold require
  split
  next h => simp [h]
  next h => simp [h, refuse]

theorem demand_eq_error {o : Option α} : demand f o = .error e ↔ o = none ∧ .fault f = e := by
  cases o with
  | none => simp [refuse]
  | some a => simp

theorem subtract_eq_error {a b : Nat} : subtract a b = .error e ↔ a < b ∧ .trapped = e := by
  unfold subtract
  split
  next h => simp [Nat.not_lt.2 h]
  next h => simp [Nat.lt_of_not_le h]

theorem addWide_eq_error {a b : Nat} : addWide a b = .error e ↔ wideLimit ≤ a + b ∧ .trapped = e := by
  unfold addWide
  split
  next h => simp [Nat.not_le.2 h]
  next h => simp [Nat.le_of_not_lt h]

/-! ### Handled computations -/

/-- The computation succeeds, or is refused for a fault: the machine does not stop it. -/
def Outcome.Handled (x : Outcome α) : Prop := ∀ e, x = .error e → ∃ f, e = .fault f

namespace Outcome

variable {x : Outcome α}

@[simp] theorem handled_ok (a : α) : Handled (.ok a) := nofun

@[simp] theorem handled_pure (a : α) : Handled (pure a) := handled_ok a

@[simp] theorem handled_refuse (f : Fault) : (refuse f : Outcome α).Handled := by
  rintro _ ⟨⟩
  exact ⟨f, rfl⟩

@[simp] theorem handled_require (p : Prop) [Decidable p] (f : Fault) : (require p f).Handled := fun _ h =>
  ⟨f, (require_eq_error.1 h).2.symm⟩

@[simp] theorem handled_demand (f : Fault) (o : Option α) : (demand f o).Handled := fun _ h =>
  ⟨f, (demand_eq_error.1 h).2.symm⟩

theorem handled_of_eq_ok {a : α} (h : x = .ok a) : x.Handled := h ▸ handled_ok a

/-- What comes second has to be handled only where it is reached. -/
@[simp] theorem handled_bind {k : α → Outcome β} : (x >>= k).Handled ↔ x.Handled ∧ ∀ a, x = .ok a → (k a).Handled := by
  cases x with
  | ok a =>
    constructor
    · intro h
      refine ⟨handled_ok a, ?_⟩
      rintro _ ⟨⟩
      exact h
    · intro h
      exact h.2 a rfl
  | error e => exact ⟨fun h => ⟨fun _ he => h _ (by cases he; rfl), nofun⟩, fun h _ he => h.1 _ (by cases he; rfl)⟩

@[simp] theorem handled_map {g : α → β} : Handled (x.map g) ↔ x.Handled := by
  simp only [Handled, map_eq_error]

@[simp] theorem handled_fmap {g : α → β} : Handled (g <$> x) ↔ x.Handled := handled_map

end Outcome

end SplitReserve
