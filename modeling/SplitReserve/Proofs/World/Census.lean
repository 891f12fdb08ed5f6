import SplitReserve.Proofs.Pool.Counts
import SplitReserve.Proofs.World.Run

/-!
# The census of depositors

Only accounts that have called have open positions, and as long as they are fewer than `2 ^ 64` the pool counts its depositors
right (`exists_after_wired_census`).
-/

namespace SplitReserve

/-- The account that calls in a step. -/
def Step.caller? : Step → Option Address
  | .call caller _ _ => some caller
  | .wait _ => none

/-- The accounts that call in a run. -/
def callers (steps : List Step) : Finset Address := (steps.filterMap Step.caller?).toFinset

theorem mem_callers {steps : List Step} {caller target : Address} {c : Call} (h : .call caller target c ∈ steps) :
    caller ∈ callers steps :=
  List.mem_toFinset.2 (List.mem_filterMap.2 ⟨_, h, rfl⟩)

namespace Pool

variable {p p' : Pool} {a : Address} {n k : Nat} {s : Finset Address}

/-- All open positions belong to `s`, and they are counted right when `s` is not too large. -/
structure Census (p : Pool) (s : Finset Address) : Prop where
  subset : p.openSet ⊆ s
  depositors : s.card < wordLimit → p.depositors = p.openSet.card

theorem Census.congr (h : p.Census s) (hopened : p'.opened = p.opened) (hdepositors : p'.depositors = p.depositors) :
    p'.Census s := by
  have hset : p'.openSet = p.openSet := openSet_congr hopened
  constructor
  · rw [hset]
    exact h.subset
  · rw [hset, hdepositors]
    exact h.depositors

theorem Census.openPosition (h : p.Census s) (ha : a ∈ s) : (p.openPosition a).Census s := by
  have hsubset : (p.openPosition a).openSet ⊆ s := by
    rw [openSet_openPosition]
    exact Finset.insert_subset ha h.subset
  refine ⟨hsubset, fun hs => ?_⟩
  exact depositors_openPosition (h.depositors hs) ((Finset.card_le_card hsubset).trans_lt hs)

theorem Census.deposit (h : p.Census s) (ha : a ∈ s) (hp : p.deposit a n = .ok (p', k)) : p'.Census s := by
  obtain ⟨hopened, hdepositors, -, -⟩ := deposit_counts hp
  exact (h.openPosition ha).congr hopened hdepositors

theorem Census.close (h : p.Census s) (hp : p.close a = .ok p') : p'.Census s := by
  obtain ⟨hopen, hopened, hdepositors, -, -⟩ := close_counts hp
  have hset : p'.openSet = p.openSet.erase a := by
    ext b
    rw [mem_openSet, isOpen, hopened, Table.get_insert, Finset.mem_erase, mem_openSet]
    split
    next e => simp [e]
    next e => simp [e, isOpen]
  constructor
  · rw [hset]
    exact (Finset.erase_subset a p.openSet).trans h.subset
  · intro hs
    rw [hset, Finset.card_erase_of_mem (mem_openSet.2 hopen), hdepositors, h.depositors hs]

theorem Census.depositors_pos (h : p.Census s) (hs : s.card < wordLimit) (ha : p.isOpen a = true) : 0 < p.depositors := by
  rw [h.depositors hs]
  exact Finset.card_pos.2 ⟨a, mem_openSet.2 ha⟩

theorem Census.depositors_lt (h : p.Census s) (hs : s.card < wordLimit) (has : a ∈ s) (ha : p.isOpen a = false) :
    p.depositors < maxWord := by
  have hne : a ∉ p.openSet := by
    rw [mem_openSet, ha]
    exact Bool.false_ne_true
  have hcard := Finset.card_lt_card (Finset.ssubset_iff_of_subset h.subset |>.2 ⟨a, has, hne⟩)
  have hdepositors := h.depositors hs
  unfold maxWord
  omega

end Pool

namespace World

variable {w w' : World} {caller target : Address} {call : Call} {reply : Reply} {s : Finset Address}

theorem Move.census (hm : w.Move caller target call reply w') (hc : caller ∈ s) (h : w.pool.Census s) : w'.pool.Census s := by
  cases hm with
  | token | books | withdrawTreasury | recapitalize | bootstrap | mint | redeem | noRebalance | noHarvest => exact h
  | rebalance hk ht hplan hp hb =>
    obtain ⟨hopened, hdepositors, -, -⟩ := Pool.bear_counts hp hb
    exact h.congr hopened hdepositors
  | harvest hk hn hi hpos =>
    obtain ⟨hopened, hdepositors, -, -⟩ := Pool.indexRewards_counts hi hpos
    exact h.congr hopened hdepositors
  | deposit hp => exact h.deposit hc hp
  | withdraw hp =>
    obtain ⟨hopened, hdepositors, -, -⟩ := Pool.withdraw_counts hp
    exact h.congr hopened hdepositors
  | claimNothing hp | claim hp =>
    obtain ⟨hopened, hdepositors, -, -⟩ := Pool.claim_counts hp
    exact h.congr hopened hdepositors
  | close hp => exact h.close hp

/-! ### From the launch -/

theorem ofChain?_chain (w : World) : ofChain? w.chain = some w := by
  obtain ⟨clock, coin, protocol, pool⟩ := w
  refine congrArg some ?_
  rw [mk.injEq]
  refine ⟨rfl, ?_, rfl, rfl⟩
  funext c
  cases c <;> rfl

theorem wired_vacant : (ofChain? Launch.wired).any fun w =>
    decide (w.pool.opened.entries = [] ∧ w.pool.depositors = 0) := by
  decide +kernel

/-- The launch begins in a sound world without depositors. -/
theorem exists_wired_census (s : Finset Address) : ∃ w : World, Launch.wired = w.chain ∧ w.Sound ∧ w.pool.Census s := by
  obtain ⟨w, hchain, hw⟩ := exists_wired
  have hvacant := wired_vacant
  rw [hchain, ofChain?_chain] at hvacant
  obtain ⟨hopened, hdepositors⟩ := of_decide_eq_true hvacant
  have hset : w.pool.openSet = ∅ := by
    rw [Pool.openSet, Table.keys, hopened]
    rfl
  refine ⟨w, hchain, hw, ?_, fun _ => ?_⟩
  · rw [hset]
    exact Finset.empty_subset s
  · rw [hset, hdepositors, Finset.card_empty]

/-- After a wired run, the depositors are among its callers, and counted right while these are fewer than `2 ^ 64`. -/
theorem exists_after_wired_census {steps : List Step} (hs : ∀ s ∈ steps, s.Wired) (hsub : callers steps ⊆ s) :
    ∃ w : World, Launch.wired.after steps = w.chain ∧ w.Sound ∧ w.pool.Census s := by
  obtain ⟨v, hchain, hv, hcensus⟩ := exists_wired_census s
  obtain ⟨w, h, hw, hp⟩ := hv.exists_after (P := fun v => v.pool.Census s) hcensus hs fun t ht v v' _ hn hp => by
    cases hn with
    | refused | wait => exact hp
    | move hc _ hm => exact hm.census (hsub (mem_callers ht)) hp
  exact ⟨w, hchain ▸ h, hw, hp⟩

end World

end SplitReserve
