import Mathlib.Algebra.BigOperators.Field
import Mathlib.Algebra.BigOperators.Ring.Finset
import Mathlib.Algebra.Order.BigOperators.Group.Finset
import Mathlib.Algebra.Order.Field.Rat
import Mathlib.Tactic.FieldSimp
import Mathlib.Tactic.Linarith
import Mathlib.Tactic.Ring
import SplitReserve.Proofs.Pool.Rewards
import SplitReserve.Proofs.Session

/-!
# Exact accrual

Rewards reach a depositor late and rounded: they are found from a difference of the index whenever the depositor acts.  A
`Pool.History` follows a pool from its beginning and keeps what the pool forgets: every reward with the shares that each
account had at that time, what each account has claimed, and how often it has acted.  Main statement: what an account has
claimed and may still claim is what the rewards give to its shares, exactly, less at most one unit for each of its acts and one
more (`Exact.accrual_bounds`), and what the pool owes beyond all that is what the index could not divide
(`Exact.accrual_total`).  Calls of a pool on a chain are booked in just this way (`book_of_run`).
-/

namespace SplitReserve

/-- Rewards that reached all shares at once. -/
structure Reward where
  amount : Nat
  /-- The shares of all positions at that time. -/
  total : Nat
  /-- How far the index rose. -/
  delta : Nat
  /-- The shares of each account at that time. -/
  shares : Address → Nat

namespace Pool

/-- A call by anyone.  It is served when the contracts that the pool calls in turn do their part; otherwise all is as before. -/
structure Attempt where
  caller : Address
  call : Call
  served : Bool

/-- A pool with what its past comes to. -/
structure History where
  pool : Pool
  /-- All rewards, the oldest first. -/
  rewards : List Reward
  /-- What each account has claimed. -/
  claimed : Address → Nat
  /-- How often each account has deposited, withdrawn, claimed or closed its position. -/
  acts : Address → Nat

namespace History

/-- The history of a new pool. -/
def start (p : Pool) : History := ⟨p, [], fun _ => 0, fun _ => 0⟩

/-- An act of `a`, which claimed `paid` and left the pool as `p`. -/
def act (h : History) (a : Address) (p : Pool) (paid : Nat) : History where
  pool := p
  rewards := h.rewards
  claimed := fun b => h.claimed b + if b = a then paid else 0
  acts := fun b => h.acts b + if b = a then 1 else 0

/-- Rewards that raised the index by `delta` and left the pool as `p`. -/
def reward (h : History) (p : Pool) (amount delta : Nat) : History :=
  { h with pool := p, rewards := h.rewards ++ [⟨amount, h.pool.shares, delta, fun a => (h.pool.position a).shares⟩] }

/-- Book a call.  A loss that burns nothing and rewards of nothing bring no reward. -/
def book (h : History) (caller : Address) : Call → Outcome History
  | .setController c => do
    let p ← h.pool.setController caller c
    return { h with pool := p }
  | .deposit n => do
    let (p, _) ← h.pool.deposit caller n
    return h.act caller p 0
  | .withdraw n => do
    let (p, _) ← h.pool.withdraw caller n
    return h.act caller p 0
  | .claim => do
    let (p, n) ← h.pool.claim caller
    return h.act caller p n
  | .close => do
    let p ← h.pool.close caller
    return h.act caller p 0
  | .bear burn payout => do
    let (p, loss) ← h.pool.bear caller burn payout
    return if loss.burn = 0 then h else h.reward p loss.payout loss.indexDelta
  | .indexRewards n => do
    let (p, indexed) ← h.pool.indexRewards caller n
    return if indexed = 0 then h else h.reward p indexed (p.index - h.pool.index)

def next (h : History) (s : Attempt) : History :=
  if s.served then (h.book s.caller s.call).toOption.getD h else h

/-- The history of a pool from its creation. -/
def after (token creator : Address) (attempts : List Attempt) : History :=
  attempts.foldl next (start (Pool.init token creator))

/-- What the rewards give to the shares of an account, not rounded. -/
def earned (h : History) (a : Address) : ℚ :=
  (h.rewards.map fun r => (r.shares a : ℚ) * r.delta / indexScale).sum

/-- What the index could not divide among the shares. -/
def dust (h : History) : ℚ := (h.rewards.map fun r => (r.amount : ℚ) - r.total * r.delta / indexScale).sum

/-! ### Calls on a chain -/

open Work in
/-- A successful call of a pool on any chain is booked: it leaves the pool of the history there, and what a claim answers is what
its account has claimed more. -/
theorem book_of_run {h : History} {self caller : Address} {s t : Session} {c : Call} {reply : Reply}
    (hs : s.chain.find? self = some (.pool h.pool)) (hrun : c.run self caller h.pool s = .ok (reply, t)) :
    ∃ h', h.book caller c = .ok h' ∧ t.chain.find? self = some (.pool h'.pool) ∧
      (c = .claim → reply = .amount (h'.claimed caller - h.claimed caller)) := by
  cases c with
  | setController a =>
    simp only [Call.run, bind_apply, lift_apply, save_apply, pure_apply, Outcome.ok_bind, bind_assoc,
      Outcome.bind_eq_ok] at hrun
    obtain ⟨p, hp, e⟩ := hrun
    cases e
    exact ⟨_, Outcome.bind_eq_ok.2 ⟨p, hp, rfl⟩, Chain.find?_set_self hs, Call.noConfusion⟩
  | deposit n =>
    simp only [Call.run, runDeposit, draw, bind_apply, lift_apply, save_apply, announce_apply, pure_apply, Outcome.ok_bind,
      bind_assoc, Outcome.bind_eq_ok] at hrun
    obtain ⟨⟨p, k⟩, hp, r, ht, e⟩ := hrun
    have hfind := onToken_find? ht (Chain.find?_set_self hs)
    cases e
    exact ⟨_, Outcome.bind_eq_ok.2 ⟨_, hp, rfl⟩, hfind, Call.noConfusion⟩
  | withdraw n =>
    simp only [Call.run, runWithdraw, pay, bind_apply, lift_apply, save_apply, announce_apply, pure_apply, Outcome.ok_bind,
      bind_assoc, Outcome.bind_eq_ok] at hrun
    obtain ⟨⟨p, k⟩, hp, r, ht, e⟩ := hrun
    have hfind := onToken_find? ht (Chain.find?_set_self hs)
    cases e
    exact ⟨_, Outcome.bind_eq_ok.2 ⟨_, hp, rfl⟩, hfind, Call.noConfusion⟩
  | claim =>
    simp only [Call.run, runClaim, bind_apply, lift_apply, save_apply, announce_apply, pure_apply, Work.ite_apply,
      Outcome.ok_bind, bind_assoc, Outcome.bind_eq_ok] at hrun
    obtain ⟨⟨p, n⟩, hp, hrun⟩ := hrun
    refine ⟨h.act caller p n, Outcome.bind_eq_ok.2 ⟨_, hp, rfl⟩, ?_⟩
    have hclaimed : (h.act caller p n).claimed caller - h.claimed caller = n := by simp [act]
    obtain ⟨r, hr, e⟩ := hrun
    cases e
    rw [hclaimed]
    dsimp only at hr
    split at hr
    next hz => cases hr; exact ⟨Chain.find?_set_self hs, fun _ => hz ▸ rfl⟩
    next =>
      simp only [Outcome.bind_eq_ok] at hr
      obtain ⟨controller, -, r, hpay, e⟩ := hr
      have hfind := askForPayment_find? hpay (Chain.find?_set_self hs)
      cases e
      exact ⟨hfind, fun _ => rfl⟩
  | close =>
    simp only [Call.run, runClose, commit, bind_apply, lift_apply, save_apply, announce_apply, pure_apply, Outcome.ok_bind,
      bind_assoc, Outcome.bind_eq_ok] at hrun
    obtain ⟨p, hp, e⟩ := hrun
    cases e
    exact ⟨_, Outcome.bind_eq_ok.2 ⟨p, hp, rfl⟩, Chain.find?_set_self hs, Call.noConfusion⟩
  | bear burn payout =>
    simp only [Call.run, runBear, commit, bind_apply, lift_apply, save_apply, announce_apply, pure_apply, Work.ite_apply,
      Outcome.ok_bind, bind_assoc, Outcome.bind_eq_ok] at hrun
    obtain ⟨⟨p, loss⟩, hp, r, hr, e⟩ := hrun
    cases e
    refine ⟨_, Outcome.bind_eq_ok.2 ⟨_, hp, rfl⟩, ?_, Call.noConfusion⟩
    dsimp only at hr
    split at hr
    next hz => cases hr; rw [if_pos hz]; exact hs
    next hz => cases hr; rw [if_neg hz]; exact Chain.find?_set_self hs
  | indexRewards n =>
    simp only [Call.run, runIndexRewards, commit, bind_apply, lift_apply, save_apply, announce_apply, pure_apply,
      Work.ite_apply, Outcome.ok_bind, bind_assoc, Outcome.bind_eq_ok] at hrun
    obtain ⟨⟨p, k⟩, hp, r, hr, e⟩ := hrun
    cases e
    refine ⟨_, Outcome.bind_eq_ok.2 ⟨_, hp, rfl⟩, ?_, Call.noConfusion⟩
    dsimp only at hr
    split at hr
    next hz => cases hr; rw [if_pos hz]; exact hs
    next hz => cases hr; rw [if_neg hz]; exact Chain.find?_set_self hs

/-! ### One step -/

/-- The sum of `f` over rewards. -/
def total (f : Reward → Nat) : List Reward → Nat
  | [] => 0
  | r :: rs => f r + total f rs

theorem total_concat (f : Reward → Nat) (rs : List Reward) (r : Reward) : total f (rs ++ [r]) = total f rs + f r := by
  induction rs with
  | nil => simp [total]
  | cons q rs ih => rw [List.cons_append, total, total, ih, Nat.add_assoc]

/-- `earned` in units of one part in `indexScale`. -/
def units (h : History) (a : Address) : Nat := total (fun r => r.shares a * r.delta) h.rewards

/-- What a history keeps true, in whole numbers. -/
structure Exact (h : History) : Prop where
  sound : h.pool.Sound
  divided : ∀ r ∈ h.rewards, 0 < r.total ∧ r.delta * r.total ≤ r.amount * indexScale ∧
    r.amount * indexScale < (r.delta + 1) * r.total
  credit_le : ∀ a, (h.pool.position a).credit h.pool.index + h.claimed a * indexScale ≤ h.units a
  le_credit : ∀ a, h.units a ≤ (h.pool.position a).credit h.pool.index + (h.claimed a + h.acts a) * indexScale
  finite : {a | h.acts a ≠ 0}.Finite
  idle : ∀ a, h.acts a = 0 → h.pool.position a = default ∧ h.claimed a = 0 ∧ h.units a = 0
  owed_add : ∀ s : Finset Address, (∀ a ∉ s, h.acts a = 0) →
    h.pool.owed + ∑ a ∈ s, h.claimed a = total Reward.amount h.rewards
  units_sum : ∀ s : Finset Address, (∀ a ∉ s, h.acts a = 0) →
    ∑ a ∈ s, h.units a = total (fun r => r.total * r.delta) h.rewards

theorem start_exact (token creator : Address) : (start (Pool.init token creator)).Exact where
  sound := init_sound token creator
  divided _ hr := absurd hr List.not_mem_nil
  credit_le _ := by
    change (default : Position).credit 0 + 0 * indexScale ≤ 0
    rw [Position.credit_default, Nat.zero_mul]
  le_credit _ := Nat.zero_le _
  finite := Set.finite_empty.subset fun _ ha => ha rfl
  idle _ _ := ⟨rfl, rfl, rfl⟩
  owed_add s _ := by
    change 0 + ∑ a ∈ s, 0 = 0
    simp
  units_sum s _ := by
    change ∑ a ∈ s, 0 = 0
    simp

variable {h : History} {p : Pool} {a : Address}

/-- An act that turns the credit of its account into a payment and a new credit, and loses less than one unit. -/
theorem Exact.act (hh : h.Exact) (hp : p.Sound) {s : Position} {paid : Nat} (hr : Rewrites h.pool p a s)
    (howed : p.owed + paid = h.pool.owed)
    (hle : s.credit h.pool.index + paid * indexScale ≤ (h.pool.position a).credit h.pool.index)
    (hge : (h.pool.position a).credit h.pool.index ≤ s.credit h.pool.index + paid * indexScale + indexScale) :
    (h.act a p paid).Exact where
  sound := hp
  divided := hh.divided
  credit_le b := by
    have := hh.credit_le b
    change (p.position b).credit p.index + (h.claimed b + if b = a then paid else 0) * indexScale ≤ h.units b
    rw [hr.index, hr.position]
    by_cases hb : b = a
    · subst hb
      simp only [if_true, Nat.add_mul] at *
      omega
    · simpa only [hb, if_false, Nat.add_zero] using this
  le_credit b := by
    have := hh.le_credit b
    change h.units b ≤ (p.position b).credit p.index +
      ((h.claimed b + if b = a then paid else 0) + (h.acts b + if b = a then 1 else 0)) * indexScale
    rw [hr.index, hr.position]
    by_cases hb : b = a
    · subst hb
      simp only [if_true, Nat.add_mul, Nat.one_mul] at *
      omega
    · simpa only [hb, if_false, Nat.add_zero] using this
  finite := (hh.finite.insert a).subset fun b hb => by
    change (h.acts b + if b = a then 1 else 0) ≠ 0 at hb
    by_cases e : b = a
    · exact Or.inl e
    · exact Or.inr (by simpa [e] using hb)
  idle b hb := by
    change (h.acts b + if b = a then 1 else 0) = 0 at hb
    have hne : b ≠ a := fun e => by simp [e] at hb
    rw [if_neg hne, Nat.add_zero] at hb
    obtain ⟨h1, h2, h3⟩ := hh.idle b hb
    refine ⟨?_, ?_, h3⟩
    · exact (hr.position b).trans ((if_neg hne).trans h1)
    · change h.claimed b + (if b = a then paid else 0) = 0
      rw [h2, if_neg hne]
  owed_add s hs := by
    have ha : a ∈ s := by
      by_contra hn
      exact absurd (hs a hn) (by simp [History.act])
    have := hh.owed_add s fun b hb => Nat.eq_zero_of_add_eq_zero_right (hs b hb)
    change p.owed + ∑ b ∈ s, (h.claimed b + if b = a then paid else 0) = total Reward.amount h.rewards
    rw [Finset.sum_add_distrib, Finset.sum_ite_eq' s a fun _ => paid, if_pos ha]
    omega
  units_sum s hs := hh.units_sum s fun b hb => Nat.eq_zero_of_add_eq_zero_right (hs b hb)

theorem Exact.reward (hh : h.Exact) {amount delta : Nat} (ha : Accrues h.pool p amount delta) :
    (h.reward p amount delta).Exact := by
  have hunits : ∀ b, (h.reward p amount delta).units b = h.units b + (h.pool.position b).shares * delta :=
    fun b => total_concat _ _ _
  have hidle : ∀ b, h.acts b = 0 → (h.pool.position b).shares = 0 := fun b hb => by
    rw [(hh.idle b hb).1]
    rfl
  exact { hh with
    sound := ha.sound hh.sound
    divided := by
      intro r hr
      rcases List.mem_append.1 hr with hr | hr
      · exact hh.divided r hr
      · cases List.mem_singleton.1 hr
        exact ⟨Nat.pos_of_ne_zero ha.shares_pos, ha.delta_le, ha.lt_delta_succ⟩
    credit_le := by
      intro b
      have := hh.credit_le b
      change (p.position b).credit p.index + h.claimed b * indexScale ≤ _
      rw [hunits, ha.position, ha.credit hh.sound]
      omega
    le_credit := by
      intro b
      have := hh.le_credit b
      change _ ≤ (p.position b).credit p.index + (h.claimed b + h.acts b) * indexScale
      rw [hunits, ha.position, ha.credit hh.sound]
      omega
    idle := by
      intro b hb
      obtain ⟨h1, h2, h3⟩ := hh.idle b hb
      refine ⟨(ha.position b).trans h1, h2, ?_⟩
      rw [hunits, h3, hidle b hb, Nat.zero_mul]
    owed_add := by
      intro s hs
      have := hh.owed_add s hs
      change p.owed + ∑ b ∈ s, h.claimed b = total Reward.amount (h.rewards ++ [_])
      rw [total_concat, ha.owed, ← this]
      exact Nat.add_right_comm _ _ _
    units_sum := by
      -- The shares of those who have acted are all shares.
      intro s hs
      have hall : ∑ b ∈ s, (h.pool.position b).shares = h.pool.shares := by
        rw [← hh.sound.shares]
        exact (Table.sum_eq_sum_get (f := fun _ (s : Position) => s.shares) (fun _ => rfl) fun b hb =>
          (hh.idle b (hs b hb)).1).symm
      change _ = total _ (h.rewards ++ [_])
      rw [Finset.sum_congr rfl fun b _ => hunits b, Finset.sum_add_distrib, hh.units_sum s hs, ← Finset.sum_mul, hall,
        total_concat] }

theorem Exact.book (hh : h.Exact) {caller : Address} {c : Call} {h' : History} (hb : h.book caller c = .ok h') :
    h'.Exact := by
  have hdue := h.pool.due_bounds caller
  cases c with
  | setController c =>
    simp only [History.book, Outcome.bind_eq_ok] at hb
    obtain ⟨q, hq, hb⟩ := hb
    cases hb
    have hs := hh.sound.setController hq
    simp only [Pool.setController, Outcome.bind_eq_ok] at hq
    obtain ⟨-, -, hq⟩ := hq
    cases hq
    exact { hh with sound := hs }
  | deposit n =>
    simp only [History.book, Outcome.bind_eq_ok] at hb
    obtain ⟨⟨q, k⟩, hq, hb⟩ := hb
    cases hb
    obtain ⟨hr, -, -, -, ho⟩ := hh.sound.deposit_ok hq
    refine hh.act (hh.sound.deposit hq) hr ho ?_ ?_ <;> rw [Position.credit_settled, Nat.zero_mul] <;> omega
  | withdraw n =>
    simp only [History.book, Outcome.bind_eq_ok] at hb
    obtain ⟨⟨q, k⟩, hq, hb⟩ := hb
    cases hb
    obtain ⟨hr, -, -, -, -, ho⟩ := hh.sound.withdraw_ok hq
    refine hh.act (hh.sound.withdraw hq) hr ho ?_ ?_ <;> rw [Position.credit_settled, Nat.zero_mul] <;> omega
  | claim =>
    simp only [History.book, Outcome.bind_eq_ok] at hb
    obtain ⟨⟨q, n⟩, hq, hb⟩ := hb
    cases hb
    obtain ⟨rfl, ho, -, s, hr, -, -, hc⟩ := hh.sound.claim_ok hq
    have := hh.sound.due_le caller
    refine hh.act (hh.sound.claim hq) hr (by omega) ?_ ?_ <;> rw [hc] <;> dsimp only <;> omega
  | close =>
    simp only [History.book, Outcome.bind_eq_ok] at hb
    obtain ⟨q, hq, hb⟩ := hb
    cases hb
    obtain ⟨hr, -, hd, -, ho⟩ := hh.sound.close_ok hq
    rw [hd] at hdue
    refine hh.act (hh.sound.close hq) hr ho ?_ ?_ <;> rw [Position.credit_default, Nat.zero_mul] <;> omega
  | bear burn payout =>
    simp only [History.book, Outcome.bind_eq_ok] at hb
    obtain ⟨⟨q, loss⟩, hq, hb⟩ := hb
    cases hb
    rcases (bear_cases hq).2 with ⟨hz, rfl⟩ | ⟨hz, -, ha, -⟩
    · simpa only [hz, if_true] using hh
    · simpa only [hz, if_false] using hh.reward ha
  | indexRewards n =>
    simp only [History.book, Outcome.bind_eq_ok] at hb
    obtain ⟨⟨q, k⟩, hq, hb⟩ := hb
    cases hb
    rcases (indexRewards_cases hq).2 with ⟨rfl, rfl⟩ | ⟨hz, rfl, ha, -⟩
    · simpa only [if_true] using hh
    · simpa only [hz, if_false] using hh.reward ha

/-- A call that fails, or is not served, leaves a history as it is. -/
theorem next_cases (h : History) (s : Attempt) : h.next s = h ∨ h.book s.caller s.call = .ok (h.next s) := by
  unfold History.next
  split
  · cases hb : h.book s.caller s.call with
    | ok h' => exact Or.inr rfl
    | error e => exact Or.inl rfl
  · exact Or.inl rfl

theorem Exact.next (hh : h.Exact) (s : Attempt) : (h.next s).Exact := by
  rcases h.next_cases s with e | hb
  · rwa [e]
  · exact hh.book hb

/-- What holds of a new pool and is kept by every call holds of every history. -/
theorem after_induction {P : History → Prop} {token creator : Address} (hstart : P (start (Pool.init token creator)))
    (hnext : ∀ h s, P h → P (h.next s)) (attempts : List Attempt) : P (after token creator attempts) := by
  unfold after
  generalize start (Pool.init token creator) = h at hstart
  induction attempts generalizing h with
  | nil => exact hstart
  | cons s attempts ih => exact ih _ (hnext h s hstart)

/-- Every history is exact. -/
theorem after_exact (token creator : Address) (attempts : List Attempt) : (after token creator attempts).Exact :=
  after_induction (start_exact token creator) (fun _ s hh => hh.next s) attempts

/-! ### Exact sums -/

private theorem scale_pos : (0 : ℚ) < indexScale := by exact_mod_cast (by decide : 0 < indexScale)

theorem earned_eq (h : History) (a : Address) : h.earned a = (h.units a : ℚ) / indexScale := by
  unfold earned units
  induction h.rewards with
  | nil => simp [total]
  | cons r rs ih =>
    rw [List.map_cons, List.sum_cons, ih, total, Nat.cast_add, Nat.cast_mul, add_div]

theorem dust_eq (h : History) :
    h.dust = total Reward.amount h.rewards - (total (fun r => r.total * r.delta) h.rewards : ℚ) / indexScale := by
  unfold dust
  induction h.rewards with
  | nil => simp [total]
  | cons r rs ih =>
    rw [List.map_cons, List.sum_cons, ih, total, total, Nat.cast_add, Nat.cast_add, Nat.cast_mul, add_div]
    ring

/-- What an account has claimed and may claim, against what the rewards give to its shares. -/
theorem Exact.accrual_bounds {h : History} (hh : h.Exact) (a : Address) :
    h.earned a - (h.acts a + 1) ≤ h.claimed a + h.pool.due a ∧ (h.claimed a + h.pool.due a : ℚ) ≤ h.earned a := by
  have hle : (h.claimed a + h.pool.due a) * indexScale ≤ h.units a := by
    have := hh.credit_le a
    have := (h.pool.due_bounds a).1
    rw [Nat.add_mul]
    omega
  have hge : h.units a ≤ (h.claimed a + h.pool.due a + (h.acts a + 1)) * indexScale := by
    have := hh.le_credit a
    have := (h.pool.due_bounds a).2
    simp only [Nat.add_mul, Nat.one_mul] at *
    omega
  rw [earned_eq, sub_le_iff_le_add, div_le_iff₀ scale_pos, le_div_iff₀ scale_pos]
  exact ⟨by exact_mod_cast hge, by exact_mod_cast hle⟩

/-- What the pool owes beyond all rewards that may be claimed, against what the index could not divide. -/
theorem Exact.accrual_total {h : History} (hh : h.Exact) {s : Finset Address} (hs : ∀ a ∉ s, h.acts a = 0) :
    h.dust ≤ h.pool.owed - ∑ a ∈ s, (h.pool.due a : ℚ) ∧
      h.pool.owed - ∑ a ∈ s, (h.pool.due a : ℚ) ≤ h.dust + ∑ a ∈ s, ((h.acts a : ℚ) + 1) := by
  have howed : (h.pool.owed : ℚ) = total Reward.amount h.rewards - ∑ a ∈ s, (h.claimed a : ℚ) := by
    rw [← hh.owed_add s hs]
    push_cast
    ring
  have hdust : h.dust = total Reward.amount h.rewards - ∑ a ∈ s, h.earned a := by
    rw [dust_eq, ← hh.units_sum s hs, Finset.sum_congr rfl fun a _ => h.earned_eq a, ← Finset.sum_div]
    push_cast
    rfl
  have hle := Finset.sum_le_sum fun a (_ : a ∈ s) => (hh.accrual_bounds a).2
  have hge := Finset.sum_le_sum fun a (_ : a ∈ s) => (hh.accrual_bounds a).1
  rw [Finset.sum_add_distrib] at hle hge
  rw [Finset.sum_sub_distrib] at hge
  rw [howed, hdust]
  exact ⟨by linarith, by linarith⟩

theorem Exact.dust_nonneg {h : History} (hh : h.Exact) : 0 ≤ h.dust := by
  refine List.sum_nonneg fun x hx => ?_
  obtain ⟨r, hr, rfl⟩ := List.mem_map.1 hx
  rw [sub_nonneg, div_le_iff₀ scale_pos, mul_comm (r.total : ℚ)]
  exact_mod_cast (hh.divided r hr).2.1

/-- In every history of a pool, whatever its controller and its depositors do: each reward goes to a positive number of shares
and the index rises by the quotient, rounded down; what an account has claimed and may claim is what the rewards give to the
shares that it had at the time, less at most one unit for each of its acts and one more; and the pool owes at least
all that may be claimed together with what the index could not divide, and at most the units lost to rounding more. -/
theorem accrual_exact (token creator : Address) (attempts : List Attempt) :
    let h := after token creator attempts
    (∀ r ∈ h.rewards, 0 < r.total ∧ r.delta = r.amount * indexScale / r.total) ∧
    (∀ a, h.pool.pending a = .ok (h.pool.due a) ∧
      h.earned a - (h.acts a + 1) ≤ h.claimed a + h.pool.due a ∧ (h.claimed a + h.pool.due a : ℚ) ≤ h.earned a) ∧
    ∃ s : Finset Address, (∀ a, a ∈ s ↔ h.acts a ≠ 0) ∧ (∀ a ∉ s, h.pool.due a = 0) ∧
      0 ≤ h.dust ∧ h.dust ≤ h.pool.owed - ∑ a ∈ s, (h.pool.due a : ℚ) ∧
      h.pool.owed - ∑ a ∈ s, (h.pool.due a : ℚ) ≤ h.dust + ∑ a ∈ s, ((h.acts a : ℚ) + 1) := by
  intro h
  have hh : h.Exact := after_exact token creator attempts
  refine ⟨?_, fun a => ⟨hh.sound.pending a, hh.accrual_bounds a⟩, hh.finite.toFinset, ?_, ?_, hh.dust_nonneg,
    hh.accrual_total ?_⟩
  · intro r hr
    obtain ⟨hpos, hle, hlt⟩ := hh.divided r hr
    exact ⟨hpos, (Nat.div_eq_of_lt_le hle hlt).symm⟩
  · intro a
    simp
  · -- Who has never acted has an empty position.
    intro a ha
    have hidle := (hh.idle a (by simpa using ha)).1
    have := (h.pool.due_bounds a).1
    rw [hidle, Position.credit_default] at this
    unfold indexScale at this
    omega
  · intro a ha
    simpa using ha

end History

end Pool

end SplitReserve
