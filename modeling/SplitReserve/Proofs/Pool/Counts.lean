import SplitReserve.Proofs.Address
import SplitReserve.Proofs.Pool.Accrual

/-!
# The counters of a pool

A pool keeps how many positions are open, how many rewards it has indexed and how many it has paid, in words that saturate.  A
`Pool.History` keeps all rewards, so it can say what these counters should be; that they are is the invariant `Counted`.  Along a
history the index only rises and the scale only falls, and every loss that burns something takes from the scale
(`losses_add_scale_le`), so there are fewer such losses than the scale has units.  Main statement: `bookkeeping`.

The number of depositors can be wrong only when `2 ^ 64` accounts or more have acted on the pool, and then it can be: a crowd of
as many depositors fills the counter (`after_crowd`, `depositors_lt_of_crowd`).
-/

namespace SplitReserve

theorem clampWord_clampWord_add (n k : Nat) : clampWord (clampWord n + k) = clampWord (n + k) := by
  unfold clampWord
  omega

namespace Pool

variable {p p' : Pool} {a : Address} {n k : Nat}

/-- The accounts whose positions are open. -/
def openSet (p : Pool) : Finset Address := p.opened.keys.filter fun a => p.isOpen a

theorem mem_openSet {p : Pool} {a : Address} : a ∈ p.openSet ↔ p.isOpen a = true := Table.mem_filter_keys

theorem openSet_congr (h : p'.opened = p.opened) : p'.openSet = p.openSet := by
  ext a
  rw [mem_openSet, mem_openSet, isOpen, isOpen, h]

theorem isOpen_openPosition (p : Pool) (a b : Address) :
    (p.openPosition a).isOpen b = if b = a then true else p.isOpen b := by
  unfold openPosition
  split
  next h =>
    split
    next e => rw [e, h]
    · rfl
  · exact Table.get_insert _ _ _ _

theorem openSet_openPosition (p : Pool) (a : Address) : (p.openPosition a).openSet = insert a p.openSet := by
  ext b
  rw [mem_openSet, isOpen_openPosition, Finset.mem_insert, mem_openSet]
  split <;> simp [*]

/-- Opening a position counts it, unless the counter is full. -/
theorem clampWord_openPosition (h : p.depositors = clampWord p.openSet.card) :
    (p.openPosition a).depositors = clampWord (p.openPosition a).openSet.card := by
  rw [openSet_openPosition]
  by_cases ha : p.isOpen a = true
  · rw [Finset.insert_eq_of_mem (mem_openSet.2 ha), openPosition, if_pos ha, h]
  · rw [Finset.card_insert_of_notMem (mem_openSet.not.2 ha), openPosition, if_neg ha, h]
    exact clampWord_clampWord_add _ _

theorem depositors_openPosition (h : p.depositors = p.openSet.card) (hlt : (p.openPosition a).openSet.card < wordLimit) :
    (p.openPosition a).depositors = (p.openPosition a).openSet.card := by
  have hle : p.openSet.card ≤ (p.openPosition a).openSet.card := by
    rw [openSet_openPosition]
    exact Finset.card_le_card (Finset.subset_insert a p.openSet)
  have hclamp : p.depositors = clampWord p.openSet.card := h.trans (clampWord_of_lt (hle.trans_lt hlt)).symm
  exact (clampWord_openPosition hclamp).trans (clampWord_of_lt hlt)

/-! ### What the operations count -/

theorem deposit_counts (h : p.deposit a n = .ok (p', k)) :
    p'.opened = (p.openPosition a).opened ∧ p'.depositors = (p.openPosition a).depositors ∧ p'.indexed = p.indexed ∧
      p'.claimed = p.claimed := by
  simp only [Pool.deposit, Outcome.bind_eq_ok, require_eq_ok] at h
  obtain ⟨-, -, -, -, s, -, shares, -, -, -, held, -, total, -, h⟩ := h
  cases h
  dsimp only
  unfold openPosition
  rw [show (p.setPosition a { s with shares := held }).isOpen a = p.isOpen a from rfl]
  split <;> exact ⟨rfl, rfl, rfl, rfl⟩

theorem withdraw_counts (h : p.withdraw a n = .ok (p', k)) :
    p'.opened = p.opened ∧ p'.depositors = p.depositors ∧ p'.indexed = p.indexed ∧ p'.claimed = p.claimed := by
  simp only [Pool.withdraw, Outcome.bind_eq_ok, require_eq_ok] at h
  obtain ⟨-, -, s, -, worth, -, -, -, h⟩ := h
  split at h
  all_goals
    simp only [Outcome.bind_eq_ok] at h
    obtain ⟨shares, -, left, -, h⟩ := h
    cases h
    exact ⟨rfl, rfl, rfl, rfl⟩

theorem claim_counts (h : p.claim a = .ok (p', n)) :
    p'.opened = p.opened ∧ p'.depositors = p.depositors ∧ p'.indexed = p.indexed ∧
      (n = 0 ∧ p'.claimed = p.claimed ∨ p'.claimed = clampWord (p.claimed + n)) := by
  unfold Pool.claim at h
  split at h
  · cases h
    exact ⟨rfl, rfl, rfl, Or.inl ⟨rfl, rfl⟩⟩
  · simp only [Outcome.bind_eq_ok] at h
    obtain ⟨s, -, h⟩ := h
    split at h
    · cases h
      exact ⟨rfl, rfl, rfl, Or.inl ⟨rfl, rfl⟩⟩
    · simp only [Outcome.bind_eq_ok] at h
      obtain ⟨-, -, h⟩ := h
      cases h
      exact ⟨rfl, rfl, rfl, Or.inr rfl⟩

theorem close_counts (h : p.close a = .ok p') :
    p.isOpen a = true ∧ p'.opened = p.opened.insert a false ∧ p'.depositors = p.depositors - 1 ∧ p'.indexed = p.indexed ∧
      p'.claimed = p.claimed := by
  simp only [Pool.close, Outcome.bind_eq_ok, require_eq_ok] at h
  obtain ⟨-, hopen, s, -, -, -, h⟩ := h
  cases h
  exact ⟨hopen, rfl, rfl, rfl, rfl⟩

theorem bear_counts {caller : Address} {burn payout : Nat} {loss : Loss} (h : p.bear caller burn payout = .ok (p', loss))
    (hb : loss.burn ≠ 0) :
    p'.opened = p.opened ∧ p'.depositors = p.depositors ∧ p'.indexed = clampWord (p.indexed + loss.payout) ∧
      p'.claimed = p.claimed := by
  simp only [Pool.bear, Outcome.bind_eq_ok] at h
  obtain ⟨-, -, l, -, h⟩ := h
  split at h
  next hz =>
    cases h
    exact absurd hz hb
  · simp only [Outcome.bind_eq_ok] at h
    obtain ⟨index, -, owed, -, h⟩ := h
    cases h
    exact ⟨rfl, rfl, rfl, rfl⟩

theorem indexRewards_counts {caller : Address} (h : p.indexRewards caller n = .ok (p', k)) (hk : k ≠ 0) :
    p'.opened = p.opened ∧ p'.depositors = p.depositors ∧ p'.indexed = clampWord (p.indexed + k) ∧
      p'.claimed = p.claimed := by
  simp only [Pool.indexRewards, Outcome.bind_eq_ok] at h
  obtain ⟨-, -, h⟩ := h
  split at h
  · cases h
    exact absurd rfl hk
  · simp only [Outcome.bind_eq_ok] at h
    obtain ⟨delta, -, index, -, owed, -, h⟩ := h
    cases h
    exact ⟨rfl, rfl, rfl, rfl⟩

namespace History

variable {h : History} {p : Pool} {a : Address}

/-! ### One step -/

/-- What a history keeps true of the counters of its pool. -/
structure Counted (h : History) : Prop where
  exact : h.Exact
  closed : ∀ a, h.pool.isOpen a = false → (h.pool.position a).shares = 0 ∧ (h.pool.position a).claimable = 0
  idle : ∀ a, h.acts a = 0 → h.pool.isOpen a = false
  depositors : ∀ s : Finset Address, (∀ a ∉ s, h.acts a = 0) → s.card < wordLimit →
    h.pool.depositors = h.pool.openSet.card
  indexed : h.pool.indexed = clampWord (total Reward.amount h.rewards)
  claimed : h.pool.claimed = clampWord (total Reward.amount h.rewards - h.pool.owed)

theorem start_counted (token creator : Address) : (start (Pool.init token creator)).Counted where
  exact := start_exact token creator
  closed _ _ := ⟨rfl, rfl⟩
  idle _ _ := rfl
  depositors _ _ _ := rfl
  indexed := rfl
  claimed := rfl

theorem Exact.owed_le (hh : h.Exact) : h.pool.owed ≤ total Reward.amount h.rewards := by
  have := hh.owed_add hh.finite.toFinset fun a ha => by simpa using ha
  omega

/-- Only those who have acted have open positions. -/
private theorem openSet_subset {acts : Address → Nat} (hidle : ∀ b, acts b = 0 → p.isOpen b = false) {s : Finset Address}
    (hs : ∀ b ∉ s, acts b = 0) : p.openSet ⊆ s := by
  intro b hb
  by_contra hn
  have := hidle b (hs b hn)
  rw [mem_openSet.1 hb] at this
  cases this

/-- An act of `a`: other positions stay as they are, and its own is empty when it is closed afterwards. -/
theorem Counted.act (hc : h.Counted) {s : Position} {paid : Nat} (he : (h.act a p paid).Exact)
    (hr : Rewrites h.pool p a s) (hopen : ∀ b, b ≠ a → p.isOpen b = h.pool.isOpen b)
    (hclosed : p.isOpen a = false → s.shares = 0 ∧ s.claimable = 0)
    (hcount : h.pool.depositors = h.pool.openSet.card → p.openSet.card < wordLimit → p.depositors = p.openSet.card)
    (howed : p.owed + paid = h.pool.owed) (hindexed : p.indexed = h.pool.indexed)
    (hclaimed : paid = 0 ∧ p.claimed = h.pool.claimed ∨ p.claimed = clampWord (h.pool.claimed + paid)) :
    (h.act a p paid).Counted := by
  have hidle : ∀ b, (h.act a p paid).acts b = 0 → b ≠ a ∧ h.acts b = 0 := by
    intro b hb
    change (h.acts b + if b = a then 1 else 0) = 0 at hb
    have hne : b ≠ a := fun e => by simp [e] at hb
    exact ⟨hne, Nat.eq_zero_of_add_eq_zero_right hb⟩
  have hidle' : ∀ b, (h.act a p paid).acts b = 0 → p.isOpen b = false := fun b hb =>
    (hopen b (hidle b hb).1).trans (hc.idle b (hidle b hb).2)
  refine ⟨he, ?_, hidle', ?_, hindexed.trans hc.indexed, ?_⟩
  · intro b hb
    change (p.position b).shares = 0 ∧ (p.position b).claimable = 0
    rw [hr.position]
    split
    next e => exact hclosed (e ▸ hb)
    next hne => exact hc.closed b ((hopen b hne).symm.trans hb)
  · intro t ht hcard
    have hcard' : p.openSet.card < wordLimit := (Finset.card_le_card (openSet_subset hidle' ht)).trans_lt hcard
    exact hcount (hc.depositors t (fun b hb => (hidle b (ht b hb)).2) hcard) hcard'
  · -- What is paid out is no longer owed.
    have hle := hc.exact.owed_le
    have hsub : total Reward.amount h.rewards - p.owed = total Reward.amount h.rewards - h.pool.owed + paid := by omega
    change p.claimed = clampWord (total Reward.amount h.rewards - p.owed)
    rcases hclaimed with ⟨rfl, e⟩ | e
    · rw [e, hc.claimed, hsub, Nat.add_zero]
    · rw [e, hc.claimed, hsub, clampWord_clampWord_add]

theorem Counted.reward (hc : h.Counted) {amount delta : Nat} (ha : Accrues h.pool p amount delta)
    (hopened : p.opened = h.pool.opened) (hdepositors : p.depositors = h.pool.depositors)
    (hindexed : p.indexed = clampWord (h.pool.indexed + amount)) (hclaimed : p.claimed = h.pool.claimed) :
    (h.reward p amount delta).Counted := by
  have hopen : ∀ b, p.isOpen b = h.pool.isOpen b := fun b => by rw [isOpen, isOpen, hopened]
  refine ⟨hc.exact.reward ha, ?_, ?_, ?_, ?_, ?_⟩
  · intro b hb
    change (p.position b).shares = 0 ∧ (p.position b).claimable = 0
    rw [ha.position]
    exact hc.closed b ((hopen b).symm.trans hb)
  · intro b hb
    exact (hopen b).trans (hc.idle b hb)
  · intro s hs hcard
    change p.depositors = p.openSet.card
    rw [hdepositors, openSet_congr hopened]
    exact hc.depositors s hs hcard
  · change p.indexed = clampWord (total Reward.amount (h.rewards ++ [_]))
    rw [hindexed, hc.indexed, clampWord_clampWord_add, total_concat]
  · change p.claimed = clampWord (total Reward.amount (h.rewards ++ [_]) - p.owed)
    rw [hclaimed, hc.claimed, total_concat, ha.owed]
    congr 1
    dsimp only
    omega

theorem Counted.book (hc : h.Counted) {caller : Address} {c : Call} {h' : History} (hb : h.book caller c = .ok h') :
    h'.Counted := by
  have he := hc.exact.book hb
  have hsound := hc.exact.sound
  cases c with
  | setController c =>
    simp only [History.book, Outcome.bind_eq_ok] at hb
    obtain ⟨q, hq, hb⟩ := hb
    cases hb
    simp only [Pool.setController, Outcome.bind_eq_ok] at hq
    obtain ⟨-, -, hq⟩ := hq
    cases hq
    exact ⟨he, hc.closed, hc.idle, hc.depositors, hc.indexed, hc.claimed⟩
  | deposit n =>
    simp only [History.book, Outcome.bind_eq_ok] at hb
    obtain ⟨⟨q, k⟩, hq, hb⟩ := hb
    cases hb
    obtain ⟨hr, -, -, -, ho⟩ := hsound.deposit_ok hq
    obtain ⟨hopened, hdepositors, hindexed, hclaimed⟩ := deposit_counts hq
    have hopen : ∀ b, q.isOpen b = if b = caller then true else h.pool.isOpen b := fun b => by
      rw [← isOpen_openPosition, isOpen, isOpen, hopened]
    refine hc.act he hr (fun b hne => (hopen b).trans (if_neg hne)) ?_ ?_ ho hindexed (Or.inl ⟨rfl, hclaimed⟩)
    · intro hclosed
      rw [hopen, if_pos rfl] at hclosed
      cases hclosed
    · rw [openSet_congr hopened, hdepositors]
      exact depositors_openPosition
  | withdraw n =>
    simp only [History.book, Outcome.bind_eq_ok] at hb
    obtain ⟨⟨q, k⟩, hq, hb⟩ := hb
    cases hb
    obtain ⟨hr, hn, hk, hworth, -, ho⟩ := hsound.withdraw_ok hq
    obtain ⟨hopened, hdepositors, hindexed, hclaimed⟩ := withdraw_counts hq
    have hopen : ∀ b, q.isOpen b = h.pool.isOpen b := fun b => by rw [isOpen, isOpen, hopened]
    refine hc.act he hr (fun b _ => hopen b) ?_ ?_ ho hindexed (Or.inl ⟨rfl, hclaimed⟩)
    · -- A closed position has no shares, so there is nothing to withdraw.
      intro hclosed
      have hz := (hc.closed caller ((hopen caller).symm.trans hclosed)).1
      have hk0 : k = 0 := by omega
      rw [hk0, Nat.zero_mul] at hworth
      have := Nat.pos_of_ne_zero hn
      unfold shareScale at hworth
      omega
    · rw [openSet_congr hopened, hdepositors]
      exact fun e _ => e
  | claim =>
    simp only [History.book, Outcome.bind_eq_ok] at hb
    obtain ⟨⟨q, n⟩, hq, hb⟩ := hb
    cases hb
    obtain ⟨hn, ho, -, s, hr, hshares, -, hcredit⟩ := hsound.claim_ok hq
    obtain ⟨hopened, hdepositors, hindexed, hclaimed⟩ := claim_counts hq
    have hopen : ∀ b, q.isOpen b = h.pool.isOpen b := fun b => by rw [isOpen, isOpen, hopened]
    have hdue := hsound.due_le caller
    refine hc.act he hr (fun b _ => hopen b) ?_ ?_ (by dsimp only at *; omega) hindexed hclaimed
    · intro hclosed
      refine ⟨hshares.trans (hc.closed caller ((hopen caller).symm.trans hclosed)).1, ?_⟩
      have := Nat.eq_zero_of_add_eq_zero_right hcredit
      unfold indexScale at this
      omega
    · rw [openSet_congr hopened, hdepositors]
      exact fun e _ => e
  | close =>
    simp only [History.book, Outcome.bind_eq_ok] at hb
    obtain ⟨q, hq, hb⟩ := hb
    cases hb
    obtain ⟨hr, -, -, -, ho⟩ := hsound.close_ok hq
    obtain ⟨hwas, hopened, hdepositors, hindexed, hclaimed⟩ := close_counts hq
    have hopen : ∀ b, q.isOpen b = if b = caller then false else h.pool.isOpen b := fun b => by
      rw [isOpen, hopened]
      exact Table.get_insert _ _ _ _
    have hset : q.openSet = h.pool.openSet.erase caller := by
      ext b
      rw [mem_openSet, hopen, Finset.mem_erase, mem_openSet]
      split <;> simp [*]
    refine hc.act he hr (fun b hne => (hopen b).trans (if_neg hne)) (fun _ => ⟨rfl, rfl⟩) ?_ ho hindexed
      (Or.inl ⟨rfl, hclaimed⟩)
    intro e _
    rw [hset, Finset.card_erase_of_mem (mem_openSet.2 hwas), hdepositors, e]
  | bear burn payout =>
    simp only [History.book, Outcome.bind_eq_ok] at hb
    obtain ⟨⟨q, loss⟩, hq, hb⟩ := hb
    cases hb
    rcases (bear_cases hq).2 with ⟨hz, rfl⟩ | ⟨hz, -, ha, -⟩
    · simpa only [hz, if_true] using hc
    · obtain ⟨hopened, hdepositors, hindexed, hclaimed⟩ := bear_counts hq hz
      simpa only [hz, if_false] using hc.reward ha hopened hdepositors hindexed hclaimed
  | indexRewards n =>
    simp only [History.book, Outcome.bind_eq_ok] at hb
    obtain ⟨⟨q, k⟩, hq, hb⟩ := hb
    cases hb
    rcases (indexRewards_cases hq).2 with ⟨rfl, rfl⟩ | ⟨hz, rfl, ha, -⟩
    · simpa only [if_true] using hc
    · obtain ⟨hopened, hdepositors, hindexed, hclaimed⟩ := indexRewards_counts hq hz
      simpa only [hz, if_false] using hc.reward ha hopened hdepositors hindexed hclaimed

theorem Counted.next (hc : h.Counted) (s : Attempt) : (h.next s).Counted := by
  rcases h.next_cases s with e | hb
  · rwa [e]
  · exact hc.book hb

theorem after_counted (token creator : Address) (attempts : List Attempt) : (after token creator attempts).Counted :=
  after_induction (start_counted token creator) (fun _ s hc => hc.next s) attempts

/-! ### A whole history -/

/-- The stable tokens that a call burns, if it is a loss that succeeds. -/
def burned (h : History) (s : Attempt) : Nat :=
  match s.call with
  | .bear burn payout => if s.served then (h.pool.bear s.caller burn payout).toOption.elim 0 fun r => r.2.burn else 0
  | _ => 0

/-- How many of the calls that follow burn something. -/
def losses : History → List Attempt → Nat
  | _, [] => 0
  | h, s :: attempts => (if h.burned s = 0 then 0 else 1) + (h.next s).losses attempts

theorem Exact.book_le (hh : h.Exact) {caller : Address} {c : Call} {h' : History} (hb : h.book caller c = .ok h') :
    h'.pool.scale ≤ h.pool.scale ∧ h.pool.index ≤ h'.pool.index := by
  -- An act of a depositor rewrites one position, and rewards raise the index.
  have hact : ∀ {p : Pool} {s : Position}, Rewrites h.pool p caller s → p.scale ≤ h.pool.scale ∧ h.pool.index ≤ p.index :=
    fun hr => ⟨hr.scale.le, hr.index.ge⟩
  have hreward : ∀ {p : Pool} {amount delta : Nat}, Accrues h.pool p amount delta →
      p.scale ≤ h.pool.scale ∧ h.pool.index ≤ p.index :=
    fun ha => ⟨ha.scale_le, ha.index ▸ Nat.le_add_right _ _⟩
  cases c with
  | setController c =>
    simp only [History.book, Pool.setController, Outcome.bind_eq_ok] at hb
    obtain ⟨q, ⟨-, -, hq⟩, hb⟩ := hb
    cases hq
    cases hb
    exact ⟨le_rfl, le_rfl⟩
  | deposit n =>
    simp only [History.book, Outcome.bind_eq_ok] at hb
    obtain ⟨⟨q, k⟩, hq, hb⟩ := hb
    cases hb
    exact hact (hh.sound.deposit_ok hq).1
  | withdraw n =>
    simp only [History.book, Outcome.bind_eq_ok] at hb
    obtain ⟨⟨q, k⟩, hq, hb⟩ := hb
    cases hb
    exact hact (hh.sound.withdraw_ok hq).1
  | claim =>
    simp only [History.book, Outcome.bind_eq_ok] at hb
    obtain ⟨⟨q, n⟩, hq, hb⟩ := hb
    cases hb
    obtain ⟨-, -, -, s, hr, -⟩ := hh.sound.claim_ok hq
    exact hact hr
  | close =>
    simp only [History.book, Outcome.bind_eq_ok] at hb
    obtain ⟨q, hq, hb⟩ := hb
    cases hb
    exact hact (hh.sound.close_ok hq).1
  | bear burn payout =>
    simp only [History.book, Outcome.bind_eq_ok] at hb
    obtain ⟨⟨q, loss⟩, hq, hb⟩ := hb
    cases hb
    rcases (bear_cases hq).2 with ⟨hz, -⟩ | ⟨hz, -, ha, -⟩
    · simp only [hz, if_true, le_refl, and_self]
    · simp only [hz, if_false]
      exact hreward ha
  | indexRewards n =>
    simp only [History.book, Outcome.bind_eq_ok] at hb
    obtain ⟨⟨q, k⟩, hq, hb⟩ := hb
    cases hb
    rcases (indexRewards_cases hq).2 with ⟨hz, -⟩ | ⟨hz, rfl, ha, -⟩
    · simp only [hz, if_true, le_refl, and_self]
    · simp only [hz, if_false]
      exact hreward ha

theorem Exact.next_le (hh : h.Exact) (s : Attempt) :
    (h.next s).pool.scale ≤ h.pool.scale ∧ h.pool.index ≤ (h.next s).pool.index := by
  rcases h.next_cases s with e | hb
  · rw [e]
    exact ⟨le_rfl, le_rfl⟩
  · exact hh.book_le hb

/-- A loss that burns something takes from the scale. -/
theorem scale_next_lt {s : Attempt} (hs : h.burned s ≠ 0) : (h.next s).pool.scale < h.pool.scale := by
  obtain ⟨caller, c, served⟩ := s
  cases c with
  | bear burn payout =>
    have hserved : served = true := by
      by_contra hn
      exact hs (if_neg hn)
    cases hq : h.pool.bear caller burn payout with
    | error e => exact absurd (by simp [burned, hq, Except.toOption]) hs
    | ok r =>
      obtain ⟨p, loss⟩ := r
      have hz : loss.burn ≠ 0 := by simpa [burned, hq, Except.toOption, hserved] using hs
      have hnext : h.next ⟨caller, .bear burn payout, served⟩ = h.reward p loss.payout loss.indexDelta := by
        rw [History.next, if_pos hserved, History.book, hq, Outcome.ok_bind]
        dsimp only
        rw [if_neg hz]
        rfl
      obtain ⟨-, ⟨hz', -⟩ | ⟨-, hfits, -, hscale⟩⟩ := bear_cases hq
      · exact absurd hz' hz
      · rw [hnext]
        exact hscale.trans_lt hfits.scale_lt
  | _ => exact absurd rfl hs

/-- Every loss takes a unit of the scale at least, and nothing gives it back. -/
theorem Exact.losses_add_scale_le (hh : h.Exact) (attempts : List Attempt) :
    h.losses attempts + (attempts.foldl History.next h).pool.scale ≤ h.pool.scale ∧
      h.pool.index ≤ (attempts.foldl History.next h).pool.index := by
  induction attempts generalizing h with
  | nil => exact ⟨(Nat.zero_add _).le, le_rfl⟩
  | cons s attempts ih =>
    obtain ⟨hscale, hindex⟩ := ih (hh.next s)
    obtain ⟨hle, hrise⟩ := hh.next_le s
    refine ⟨?_, hrise.trans hindex⟩
    rw [losses, List.foldl_cons]
    split
    · omega
    next hs =>
      have := scale_next_lt hs
      omega

/-- In every history of a pool, whatever its controller and its depositors do: the shares are those of the open positions, the
others have neither shares nor rewards, and the depositors are as many, as long as fewer than `2 ^ 64` accounts have acted; no
position is ahead of the index; the scale is between one and that of a new pool; all rewards have been indexed and are
claimed or owed, within the range of the counters.  And whatever follows: the index never falls, the scale never rises, and
it falls with every loss that burns something, so that there are fewer such losses than `shareScale`. -/
theorem bookkeeping (token creator : Address) (attempts : List Attempt) :
    let h := after token creator attempts
    (∃ opened acted : Finset Address, (∀ a, a ∈ opened ↔ h.pool.isOpen a = true) ∧ (∀ a, a ∈ acted ↔ h.acts a ≠ 0) ∧
      ∑ a ∈ opened, (h.pool.position a).shares = h.pool.shares ∧
      (acted.card < wordLimit → h.pool.depositors = opened.card)) ∧
    (∀ a, h.pool.isOpen a = false → (h.pool.position a).shares = 0 ∧ (h.pool.position a).claimable = 0) ∧
    (∀ a, (h.pool.position a).snapshot ≤ h.pool.index) ∧
    (1 ≤ h.pool.scale ∧ h.pool.scale ≤ shareScale) ∧
    (h.pool.indexed = clampWord (total Reward.amount h.rewards) ∧
      (total Reward.amount h.rewards ≤ maxWord → h.pool.claimed + h.pool.owed = total Reward.amount h.rewards)) ∧
    (∀ s, h.burned s ≠ 0 → (h.next s).pool.scale < h.pool.scale) ∧
    (∀ more, (after token creator (attempts ++ more)).pool.scale ≤ h.pool.scale ∧
      h.pool.index ≤ (after token creator (attempts ++ more)).pool.index) ∧
    (start (Pool.init token creator)).losses attempts ≤ 999999999 := by
  intro h
  have hc : h.Counted := after_counted token creator attempts
  have hsound := hc.exact.sound
  have hstart := (start_exact token creator).losses_add_scale_le attempts
  refine ⟨⟨h.pool.openSet, hc.exact.finite.toFinset, fun a => mem_openSet, fun a => by simp, ?_, ?_⟩, hc.closed,
    hsound.snapshot_le, ⟨hsound.scale_pos, hsound.scale_le⟩, ⟨hc.indexed, ?_⟩, fun s hs => scale_next_lt hs, ?_, ?_⟩
  · -- Who has no open position has no shares.
    rw [← hsound.shares]
    have hsum := Table.sum_eq_sum_get (f := fun _ (s : Position) => s.shares) (fun _ => rfl)
      (s := h.pool.positions.keys ∪ h.pool.openSet) fun a ha =>
        Table.get_of_notMem_keys fun hk => ha (Finset.mem_union_left _ hk)
    rw [hsum]
    refine Finset.sum_subset Finset.subset_union_right fun a _ ha => (hc.closed a ?_).1
    simpa [mem_openSet] using ha
  · intro hcard
    exact hc.depositors _ (fun a ha => by simpa using ha) hcard
  · intro hle
    have howed := hc.exact.owed_le
    rw [hc.claimed, clampWord, Nat.min_eq_left (by omega)]
    omega
  · intro more
    rw [after, List.foldl_append]
    obtain ⟨hscale, hindex⟩ := hc.exact.losses_add_scale_le more
    exact ⟨(Nat.le_add_left _ _).trans hscale, hindex⟩
  · have hpos : 0 < h.pool.scale := hsound.scale_pos
    have hle : (start (Pool.init token creator)).losses attempts + h.pool.scale ≤ 1000000000 := hstart.1
    omega

/-! ### A crowd of depositors -/

/-- Each account of a list deposits one stable token. -/
def crowd (accounts : List Address) : List Attempt := accounts.map fun a => ⟨a, .deposit 1, true⟩

/-- While nothing has been lost, one stable token is worth one share, and only the range of shares limits deposits. -/
theorem next_deposit_one (hp : h.pool.Sound) (hscale : h.pool.scale = shareScale) (hlt : h.pool.shares + 1 < wideLimit)
    (a : Address) : ∃ p, h.pool.deposit a 1 = .ok (p, 1) ∧ h.next ⟨a, .deposit 1, true⟩ = h.act a p 0 := by
  have hissued : sharesIssued 1 h.pool.scale = some 1 := by
    rw [hscale]
    decide
  have hheld := (Nat.add_le_add_right (hp.shares_le a) 1).trans_lt hlt
  have hok : ∃ p, h.pool.deposit a 1 = .ok (p, 1) := by
    simp only [Pool.deposit, Outcome.bind_eq_ok, require_eq_ok, demand_eq_ok, wide?_eq_some]
    exact ⟨_, (), one_ne_zero, (), hp.scale_pos.ne', _, hp.settled a, 1, hissued, (), one_ne_zero, _, ⟨hheld, rfl⟩, _,
      ⟨hlt, rfl⟩, rfl⟩
  obtain ⟨p, hq⟩ := hok
  refine ⟨p, hq, ?_⟩
  rw [History.next, if_pos rfl, History.book, hq, Outcome.ok_bind]
  rfl

/-- In a crowd everyone has a share, and the counter of depositors stops at the largest word. -/
theorem after_crowd (token creator : Address) {accounts : List Address} (hlt : accounts.length < wideLimit) :
    let p := (after token creator (crowd accounts)).pool
    p.scale = shareScale ∧ p.shares = accounts.length ∧ p.openSet = accounts.toFinset ∧
      p.depositors = clampWord accounts.toFinset.card := by
  induction accounts using List.reverseRecOn with
  | nil => exact ⟨rfl, rfl, rfl, rfl⟩
  | append_singleton accounts a ih =>
    rw [List.length_append, List.length_singleton] at *
    obtain ⟨hscale, hshares, hopen, hdepositors⟩ := ih (by omega)
    have hsound := (after_counted token creator (crowd accounts)).exact.sound
    obtain ⟨q, hq, hnext⟩ := next_deposit_one hsound hscale (by rw [hshares]; exact hlt) a
    have hpool : (after token creator (crowd (accounts ++ [a]))).pool = q := by
      rw [crowd, List.map_append, after, List.foldl_append]
      exact congrArg History.pool hnext
    obtain ⟨hr, -, -, hmore, -⟩ := hsound.deposit_ok hq
    obtain ⟨hopened, hcount, -, -⟩ := deposit_counts hq
    have hset : q.openSet = (accounts ++ [a]).toFinset := by
      rw [openSet_congr hopened, openSet_openPosition, hopen, List.toFinset_append, Finset.union_comm]
      rfl
    rw [hpool]
    refine ⟨hr.scale.trans hscale, hmore.trans (by rw [hshares]), hset, ?_⟩
    rw [← hset, openSet_congr hopened, hcount]
    exact clampWord_openPosition (by rw [hdepositors, hopen])

/-- When `2 ^ 64` accounts have deposited, there is one depositor more than the counter says. -/
theorem depositors_lt_of_crowd :
    let p := (after (Address.ofOrdinal 1) (Address.guest 0) (crowd ((List.range wordLimit).map Address.guest))).pool
    ∃ opened : Finset Address, (∀ a, a ∈ opened ↔ p.isOpen a = true) ∧ opened.card = wordLimit ∧ p.depositors = maxWord ∧
      p.depositors < opened.card := by
  intro p
  have hlength : ((List.range wordLimit).map Address.guest).length = wordLimit := by
    rw [List.length_map, List.length_range]
  have hwide : wordLimit < wideLimit := by decide
  have hnodup : ((List.range wordLimit).map Address.guest).Nodup := by
    refine List.nodup_range.map_on fun j hj k hk e => ?_
    exact (Address.guest_inj ((List.mem_range.1 hj).trans hwide) ((List.mem_range.1 hk).trans hwide)).1 e
  obtain ⟨-, -, hopen, hdepositors⟩ :=
    after_crowd (Address.ofOrdinal 1) (Address.guest 0) (hlength.trans_lt hwide)
  have hcard : p.openSet.card = wordLimit := by
    rw [hopen, List.toFinset_card_of_nodup hnodup, hlength]
  have hfull : p.depositors = maxWord := by
    rw [hdepositors, ← hopen, hcard]
    decide
  refine ⟨p.openSet, fun a => mem_openSet, hcard, hfull, ?_⟩
  rw [hfull, hcard]
  decide

end History

end Pool

end SplitReserve
