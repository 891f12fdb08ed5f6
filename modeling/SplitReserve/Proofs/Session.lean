import SplitReserve.Chain.PoolCall

/-!
# Sessions, step by step

What each piece of work does to a session, as equations that let a call be followed.  A call of a token, or of a controller for a
payment, leaves all pools as they are (`Work.onToken_find?`, `Work.askForPayment_find?`).
-/

namespace SplitReserve

namespace Chain

variable {c : Chain} {a b : Address} {k k' : Contract}

theorem find?_set_of_ne (h : b ≠ a) : (c.set a k).find? b = c.find? b := by
  obtain ⟨clock, contracts⟩ := c
  simp only [find?, set]
  induction contracts with
  | nil => rfl
  | cons e contracts ih =>
    by_cases he : e.1 = a
    · have hb : e.1 ≠ b := fun hb => h (hb.symm.trans he)
      simpa [he, hb, h.symm] using ih
    · by_cases hb : e.1 = b
      · simp [hb, h]
      · simpa [he, hb] using ih

theorem find?_set_self (h : c.find? a = some k') : (c.set a k).find? a = some k := by
  obtain ⟨clock, contracts⟩ := c
  simp only [find?, set] at *
  induction contracts with
  | nil => cases h
  | cons e contracts ih =>
    by_cases he : e.1 = a
    · simp [he]
    · simp only [List.map_cons, he, if_false, List.find?_cons, decide_false] at h ⊢
      exact ih h

theorem callee_eq_ok : c.callee a = .ok k ↔ c.find? a = some k := by
  unfold callee
  split
  next e => rw [e, Except.ok.injEq, Option.some.injEq]
  next e => rw [e]; exact ⟨nofun, nofun⟩

end Chain

namespace Work

variable {α β : Type}

theorem bind_apply (m : Work α) (k : α → Work β) (s : Session) : (m >>= k) s = m s >>= fun r => k r.1 r.2 := rfl

theorem pure_apply (a : α) (s : Session) : (pure a : Work α) s = .ok (a, s) := rfl

theorem lift_apply (x : Outcome α) (s : Session) : (liftM x : Work α) s = x >>= fun a => .ok (a, s) := by
  cases x <;> rfl

theorem ite_apply (c : Prop) [Decidable c] (m n : Work α) (s : Session) :
    (if c then m else n) s = if c then m s else n s := by
  split <;> rfl

theorem chain_apply (s : Session) : Work.chain s = .ok (s.chain, s) := rfl

theorem save_apply (a : Address) (k : Contract) (s : Session) :
    save a k s = .ok ((), { s with chain := s.chain.set a k }) := rfl

theorem announce_apply (a : Address) (es : List Event) (s : Session) :
    announce a es s = .ok ((), { s with events := s.events ++ es.map fun e => (a, e) }) := rfl

/-- Work that only passes an answer on succeeds when the work before it does. -/
theorem bind_pure_eq_ok {m : Work α} {f : α → β} {s t : Session} {b : β} :
    (m >>= fun a => pure (f a)) s = .ok (b, t) ↔ ∃ a, m s = .ok (a, t) ∧ f a = b := by
  rw [bind_apply, Outcome.bind_eq_ok]
  constructor
  · rintro ⟨⟨a, t'⟩, hm, e⟩
    cases e
    exact ⟨a, hm, rfl⟩
  · rintro ⟨a, hm, rfl⟩
    exact ⟨(a, t), hm, rfl⟩

/-! ### What stays -/

variable {s t : Session} {a b : Address} {p : Pool} {u : Unit}

/-- A pool stays as it is when the contract at another address is written. -/
private theorem find?_of_ne {k : Contract} (hb : s.chain.find? b = some (.pool p)) (ha : s.chain.find? a = some k)
    (hk : ∀ q, k ≠ .pool q) (k' : Contract) : (s.chain.set a k').find? b = some (.pool p) := by
  have hne : b ≠ a := by
    rintro rfl
    rw [hb] at ha
    exact hk p (Option.some.inj ha).symm
  rw [Chain.find?_set_of_ne hne, hb]

theorem onToken_find? {entry : Entry} {act : Token → Outcome (Token × List Event)}
    (h : onToken entry a act s = .ok (u, t)) (hb : s.chain.find? b = some (.pool p)) :
    t.chain.find? b = some (.pool p) := by
  simp only [onToken, commit, bind_apply, lift_apply, chain_apply, Outcome.ok_bind, bind_assoc, Outcome.bind_eq_ok,
    Chain.callee_eq_ok] at h
  obtain ⟨k, ha, h⟩ := h
  cases k with
  | token q =>
    simp only [bind_apply, lift_apply, save_apply, announce_apply, Outcome.ok_bind, bind_assoc, Outcome.bind_eq_ok] at h
    obtain ⟨r, -, e⟩ := h
    cases e
    exact find?_of_ne hb ha nofun _
  | listing q =>
    simp only [bind_apply, lift_apply, save_apply, announce_apply, Outcome.ok_bind, bind_assoc, Outcome.bind_eq_ok] at h
    obtain ⟨r, -, e⟩ := h
    cases e
    exact find?_of_ne hb ha nofun _
  | protocol | pool | bench => cases h

theorem askForPayment_find? {self recipient : Address} {n : Nat} (h : askForPayment a self recipient n s = .ok (u, t))
    (hb : s.chain.find? b = some (.pool p)) : t.chain.find? b = some (.pool p) := by
  simp only [askForPayment, bind_apply, lift_apply, chain_apply, Outcome.ok_bind, bind_assoc, Outcome.bind_eq_ok,
    Chain.callee_eq_ok] at h
  obtain ⟨k, ha, h⟩ := h
  cases k with
  | protocol q =>
    simp only [Protocol.runPayClaim, pay, bind_apply, lift_apply, save_apply, Outcome.ok_bind, bind_assoc,
      Outcome.bind_eq_ok] at h
    obtain ⟨q', -, h⟩ := h
    exact onToken_find? h (find?_of_ne hb ha nofun _)
  | token | listing | pool | bench => cases h

end Work

end SplitReserve
