import SplitReserve.Proofs.World.Sound

/-!
# Wired runs

A run is wired when its calls are permitted calls of accounts.  The launch begins in a sound world (`wired_fresh`), and every
wired step leads from a sound world to a sound one, so every wired run ends in one (`exists_after_wired`).
-/

namespace SplitReserve

/-- Steps of a wired run: an account makes a permitted call, or some time passes. -/
def Step.Wired : Step → Prop
  | .call caller target c => caller.IsAccount ∧ c.Permitted target
  | .wait _ => True

namespace World

variable {w w' : World} {s : Step}

/-! ### The first world -/

/-- Five contracts of the right kinds, as a world. -/
def ofChain? (c : Chain) : Option World :=
  match c.contracts with
  | [(_, .token r), (_, .token f), (_, .token x), (_, .protocol p), (_, .pool s)] =>
    some ⟨c.clock, fun | .reserve => r | .f => f | .x => x, p, s⟩
  | _ => none

theorem chain_of_ofChain? {c : Chain} (h : ofChain? c = some w)
    (ha : c.contracts.map Prod.fst = w.chain.contracts.map Prod.fst) : c = w.chain := by
  obtain ⟨clock, contracts⟩ := c
  unfold ofChain? at h
  split at h
  next e =>
    cases h
    dsimp only at e
    subst e
    simp only [chain, List.map_cons, List.map_nil, List.cons.injEq, and_true] at ha
    obtain ⟨rfl, rfl, rfl, rfl, rfl⟩ := ha
    rfl
  next => cases h

/-- What can be read off the books of a launch that has only been connected: the tokens are in order, and nothing has been
deposited, collected or issued. -/
def Fresh (w : World) : Prop :=
  (w.protocol.reserveToken = Coin.reserve.address ∧ w.protocol.fToken = Coin.f.address ∧
    w.protocol.xToken = Coin.x.address ∧ w.protocol.pool = some Launch.pool) ∧
  (w.pool.token = Coin.f.address ∧ w.pool.controller = some Launch.protocol) ∧
  (∀ c ∈ [Coin.reserve, .f, .x], ((w.coin c).balances.sum fun _ n => n) = (w.coin c).supply ∧
    (w.coin c).supply < wideLimit) ∧
  (∀ leg ∈ [Leg.f, .x], (w.coin leg.coin).minters.entries = [(Launch.protocol, true)] ∧ (w.coin leg.coin).supply = 0) ∧
  ((w.coin .reserve).allowances.find? Launch.protocol).isNone ∧ ((w.coin .f).allowances.find? Launch.pool).isNone ∧
  (w.pool.positions.entries = [] ∧ w.pool.shares = 0 ∧ w.pool.owed = 0 ∧ w.pool.scale = shareScale) ∧
  (w.protocol.treasury = Treasury.empty ∧ w.protocol.reserve = 0 ∧ w.protocol.supplyF = 0 ∧ w.protocol.supplyX = 0)

instance (w : World) : Decidable w.Fresh := by
  unfold Fresh
  infer_instance

theorem wired_fresh : (ofChain? Launch.wired).any fun w =>
    decide (w.Fresh ∧ Launch.wired.contracts.map Prod.fst = w.chain.contracts.map Prod.fst) := by
  decide +kernel

private theorem closed_of_isNone {t : Token} {a : Address} (h : (t.allowances.find? a).isNone) : t.Closed a := by
  have hempty : t.allowances.get a = ∅ := by
    rw [Table.get, Option.isNone_iff_eq_none.1 h]
    rfl
  intro s
  rw [Token.allowance, hempty]
  rfl

private theorem eq_of_isMinter {t : Token} {a b : Address} (h : t.minters.entries = [(b, true)])
    (ha : t.isMinter a = true) : a = b := by
  rw [Token.isMinter, Table.get, Table.find?, h, Table.lookup] at ha
  split at ha
  next e => exact e
  next => cases ha

theorem Fresh.inOrder (h : w.Fresh) (c : Coin) : c.InOrder (w.coin c) := by
  obtain ⟨-, -, hwhole, hleg, hclosed, hclosed', -⟩ := h
  have hminter : ∀ leg : Leg, ∀ a, (w.coin leg.coin).isMinter a = true → a = Launch.protocol := by
    intro leg a hm
    exact eq_of_isMinter (hleg leg (by cases leg <;> simp)).1 hm
  refine ⟨?_, ?_, ?_⟩
  · have := hwhole c (by cases c <;> simp)
    exact ⟨this.1, this.2⟩
  · intro hne a hm
    cases c with
    | reserve => exact absurd rfl hne
    | f => exact hminter .f a hm
    | x => exact hminter .x a hm
  · intro a hv
    cases c with
    | reserve => cases hv; exact closed_of_isNone hclosed
    | f => cases hv; exact closed_of_isNone hclosed'
    | x => cases hv

theorem Fresh.pool_sound (h : w.Fresh) : w.pool.Sound := by
  obtain ⟨-, -, -, -, -, -, ⟨hpos, hshares, howed, hscale⟩, -⟩ := h
  have hsum : ∀ f, w.pool.positions.sum f = 0 := by
    intro f
    rw [Table.sum, hpos]
    rfl
  refine ⟨?_, ?_, ?_, ?_, ?_, hscale.le⟩
  · rw [hsum, hshares]
  · intro a
    rw [Pool.position, Table.get, Table.find?, hpos]
    exact Nat.zero_le _
  · rw [hsum]
    exact Nat.zero_le _
  · rw [howed]
    decide
  · rw [hscale]
    decide

theorem Fresh.sound (h : w.Fresh) : w.Sound := by
  have hordered := h.inOrder
  have hpool := h.pool_sound
  obtain ⟨⟨hr, hf, hx, hp⟩, ⟨ht, hc⟩, -, hleg, -, -, ⟨-, hshares, howed, -⟩, htreasury, hreserve, hsF, hsX⟩ := h
  have hsupply : ∀ leg, w.protocol.supply leg = 0 := by
    intro leg
    cases leg <;> assumption
  exact {
    linked := ⟨⟨hr, fun leg => by cases leg <;> assumption, hp⟩, ⟨ht, hc⟩⟩
    ordered := hordered
    pool := hpool
    treasury := htreasury ▸ Treasury.empty_balanced
    held := by
      rw [hreserve, htreasury]
      exact Nat.zero_le _
    owed_le := howed.trans_le (Nat.zero_le _)
    backed := by
      rw [hshares, Nat.zero_mul]
      exact Nat.zero_le _
    supply_le := by
      intro leg
      rw [(hleg leg (by cases leg <;> simp)).2]
      exact Nat.zero_le _
    supply_lt := by
      intro leg
      rw [hsupply]
      decide
    dormant := fun _ => ⟨howed, hsupply⟩ }

/-- The launch begins in a sound world. -/
theorem exists_wired : ∃ w : World, Launch.wired = w.chain ∧ w.Sound := by
  obtain ⟨w, hw, h⟩ := (Option.any_eq_true _ _).1 wired_fresh
  obtain ⟨hfresh, ha⟩ := of_decide_eq_true h
  exact ⟨w, chain_of_ofChain? hw ha, hfresh.sound⟩

/-! ### Runs -/

/-- What a wired step does: nothing when it is refused, else a move, or time passes. -/
inductive Next (w : World) : Step → World → Prop
  | refused {s : Step} : Next w s w
  | move {caller target : Address} {call : Call} {reply : Reply} {w' : World} (hc : caller.IsAccount)
      (hn : call.Permitted target) (hm : w.Move caller target call reply w') : Next w (.call caller target call) w'
  | wait (ms : Nat) : Next w (.wait ms) { w with clock := w.clock + ms }

theorem Sound.exists_next (hw : w.Sound) (hs : s.Wired) : ∃ w', w.chain.step s = w'.chain ∧ w.Next s w' := by
  cases s with
  | call caller target c =>
    obtain ⟨hc, hn⟩ := hs
    change ∃ w' : World, w.chain.apply caller target c = w'.chain ∧ _
    unfold Chain.apply
    cases hr : w.chain.call caller target c with
    | error e => exact ⟨w, rfl, .refused⟩
    | ok r =>
      obtain ⟨w', hchain, hm⟩ := move_of_call hw.linked hw.pool hc hn hr
      exact ⟨w', hchain, .move hc hn hm⟩
  | wait ms =>
    change ∃ w' : World, (w.chain.advance ms).toOption.getD w.chain = w'.chain ∧ _
    unfold Chain.advance
    split
    · exact ⟨_, rfl, .wait ms⟩
    · exact ⟨w, rfl, .refused⟩

theorem Sound.next (hw : w.Sound) (h : w.Next s w') : w'.Sound := by
  cases h with
  | refused => exact hw
  | move hc hn hm => exact hw.move hc hn hm
  | wait ms =>
    exact { hw with linked := ⟨hw.linked.protocol, hw.linked.pool⟩ }

/-- What every step of a wired run keeps, the run keeps. -/
theorem Sound.exists_after {P : World → Prop} {steps : List Step} (hw : w.Sound) (hp : P w)
    (hs : ∀ s ∈ steps, s.Wired) (hnext : ∀ s ∈ steps, ∀ v v' : World, v.Sound → v.Next s v' → P v → P v') :
    ∃ w', w.chain.after steps = w'.chain ∧ w'.Sound ∧ P w' := by
  induction steps generalizing w with
  | nil => exact ⟨w, rfl, hw, hp⟩
  | cons s steps ih =>
    obtain ⟨v, hv, hn⟩ := hw.exists_next (hs s List.mem_cons_self)
    have hpv := hnext s List.mem_cons_self w v hw hn hp
    obtain ⟨w', h, hw', hp'⟩ := ih (hw.next hn) hpv (fun t ht => hs t (List.mem_cons_of_mem _ ht))
      fun t ht => hnext t (List.mem_cons_of_mem _ ht)
    refine ⟨w', ?_, hw', hp'⟩
    change (w.chain.step s).after steps = _
    rw [hv, h]

/-- Every wired run from the launch leads to a sound world. -/
theorem exists_after_wired {steps : List Step} (hs : ∀ s ∈ steps, s.Wired) :
    ∃ w : World, Launch.wired.after steps = w.chain ∧ w.Sound := by
  obtain ⟨w, hchain, hw⟩ := exists_wired
  obtain ⟨w', h, hw', -⟩ := hw.exists_after (P := fun _ => True) trivial hs fun _ _ _ _ _ _ _ => trivial
  exact ⟨w', hchain ▸ h, hw'⟩

end World

/-! ### A first run -/

namespace Launch

/-- The first reserve, a deposit, a harvest for it, and a gift to the pool. -/
def firstTrades : List Step :=
  [.call admin protocol (.protocol (.bootstrap firstReserve)),
    .call alice protocol (.protocol (.mint .f (100 * priceScale) 0)),
    .call alice pool (.pool (.deposit (50 * priceScale))),
    .wait 60000,
    .call keeper protocol (.protocol (.harvest (10 * priceScale))),
    .call alice fToken (.token (.transfer pool 7))]

theorem firstTrades_wired : ∀ s ∈ firstTrades, s.Wired := by
  simp [firstTrades, Step.Wired, Call.Permitted, Token.Call.Managing, admin, alice, keeper, Address.IsAccount,
    fToken_ne_reserveToken]

/-- The depositor has the harvest, less the keeper's share. -/
example : (wired.after firstTrades).query pool (.pool (.pending alice)) = .ok (.amount (99 * priceScale / 10)) := by
  decide +kernel

end Launch

end SplitReserve
