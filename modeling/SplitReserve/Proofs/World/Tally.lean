import SplitReserve.Proofs.World.Run

/-!
# Tallies

A tally adds up over a run what its successful calls count for, each by itself and at the chain before it.  What an invariant
cannot see in a world, since the contracts do not record it, it can say with the help of a tally: main statement is
`Sound.exists_after_tally`, the run lemma for invariants of a world and a tally.
-/

namespace SplitReserve

namespace Chain

/-- What a step counts for: a call by `count` if it succeeds, anything else for nothing. -/
def counted (c : Chain) (count : Chain → Address → Call → Nat) : Step → Nat
  | .call caller target call => if (c.call caller target call).isOk then count c target call else 0
  | .wait _ => 0

/-- What the steps of a run count for together. -/
def tally (c : Chain) (count : Chain → Address → Call → Nat) : List Step → Nat
  | [] => 0
  | s :: steps => c.counted count s + (c.step s).tally count steps

end Chain

namespace World

variable {w : World} {count : Chain → Address → Call → Nat} {steps : List Step} {k : Nat}

/-- What every move keeps when it is counted, and the passing of time, a wired run keeps with its tally. -/
theorem Sound.exists_after_tally {P : World → Nat → Prop} (hw : w.Sound) (hp : P w k) (hs : ∀ s ∈ steps, s.Wired)
    (hmove : ∀ caller target call, .call caller target call ∈ steps → ∀ (v v' : World) (reply : Reply) (k : Nat), v.Sound →
      v.Move caller target call reply v' → P v k → P v' (k + count v.chain target call))
    (hwait : ∀ (v : World) (clock k : Nat), P v k → P { v with clock } k) :
    ∃ w', w.chain.after steps = w'.chain ∧ w'.Sound ∧ P w' (k + w.chain.tally count steps) := by
  induction steps generalizing w k with
  | nil => exact ⟨w, rfl, hw, hp⟩
  | cons s steps ih =>
    -- The first step leads to a world in which the invariant holds for what the step counts for.
    have hfirst : ∃ v : World, w.chain.step s = v.chain ∧ v.Sound ∧ P v (k + w.chain.counted count s) := by
      have hwired := hs s List.mem_cons_self
      cases s with
      | call caller target call =>
        obtain ⟨hc, hn⟩ := hwired
        rw [Chain.step, Chain.apply, Chain.counted]
        cases hr : w.chain.call caller target call with
        | error e => exact ⟨w, rfl, hw, hp⟩
        | ok r =>
          obtain ⟨v, hchain, hm⟩ := move_of_call hw.linked hw.pool hc hn hr
          exact ⟨v, hchain, hw.move hc hn hm, hmove _ _ _ List.mem_cons_self w v _ k hw hm hp⟩
      | wait ms =>
        obtain ⟨v, hchain, hnext⟩ := hw.exists_next hwired
        refine ⟨v, hchain, hw.next hnext, ?_⟩
        cases hnext with
        | refused => exact hp
        | wait => exact hwait w _ k hp
    obtain ⟨v, hv, hsound, hpv⟩ := hfirst
    obtain ⟨w', h, hw', hp'⟩ := ih hsound hpv (fun t ht => hs t (List.mem_cons_of_mem _ ht))
      fun _ _ _ hm => hmove _ _ _ (List.mem_cons_of_mem _ hm)
    refine ⟨w', ?_, hw', ?_⟩
    · change (w.chain.step s).after steps = _
      rw [hv, h]
    · rwa [Chain.tally, hv, ← Nat.add_assoc]

/-! ### From the launch -/

theorem wired_not_bootstrapped : Launch.wired.query Launch.protocol (.protocol .bootstrapped) = .ok (.flag false) := by
  decide +kernel

theorem wired_balance : Launch.wired.query Launch.reserveToken (.token (.balance Launch.protocol)) = .ok (.amount 0) := by
  decide +kernel

/-- The launch begins in a sound world in which the protocol has nothing. -/
theorem exists_wired_empty : ∃ w : World, Launch.wired = w.chain ∧ w.Sound ∧ w.protocol.bootstrapped = false ∧
    (w.coin .reserve).balance Launch.protocol = 0 := by
  obtain ⟨w, hchain, hw⟩ := exists_wired
  have hnew := wired_not_bootstrapped
  have hbalance := wired_balance
  rw [hchain, query_protocol] at hnew
  rw [hchain] at hbalance
  change w.chain.query Coin.reserve.address _ = _ at hbalance
  rw [query_coin] at hbalance
  exact ⟨w, hchain, hw, Reply.flag.inj (Except.ok.inj hnew), Reply.amount.inj (Except.ok.inj hbalance)⟩

/-- What holds of the launch and is kept by every move and by the passing of time holds in every state of every wired run. -/
theorem exists_after_wired_tally {P : World → Nat → Prop} (hs : ∀ s ∈ steps, s.Wired)
    (hfirst : ∀ v : World, v.Sound → v.protocol.bootstrapped = false → (v.coin .reserve).balance Launch.protocol = 0 → P v 0)
    (hmove : ∀ caller target call, .call caller target call ∈ steps → ∀ (v v' : World) (reply : Reply) (k : Nat), v.Sound →
      v.Move caller target call reply v' → P v k → P v' (k + count v.chain target call))
    (hwait : ∀ (v : World) (clock k : Nat), P v k → P { v with clock } k) :
    ∃ w, Launch.wired.after steps = w.chain ∧ w.Sound ∧ P w (Launch.wired.tally count steps) := by
  obtain ⟨v, hchain, hv, hnew, hbalance⟩ := exists_wired_empty
  obtain ⟨w, h, hw, hp⟩ := hv.exists_after_tally (hfirst v hv hnew hbalance) hs hmove hwait
  rw [Nat.zero_add] at hp
  exact ⟨w, hchain ▸ h, hw, hchain ▸ hp⟩

end World

end SplitReserve
