import SplitReserve.Proofs.Cover

/-!
# Round trips

Whoever mints tokens and redeems them at once gets back at most what they cost and the bonuses of the two operations.  The
fresh tokens can be worth more than they cost only by an excess that nobody had a claim to (`Protocol.unclaimed`).  There is one
when the last leveraged tokens have been redeemed and the price rises after that: the next ones are minted at the price of a stable
token and own all of it.
-/

namespace SplitReserve

namespace Protocol

variable {p p' p'' : Protocol} {owed amount : Nat} {leg : Leg} {q q' : Priced}

/-- The excess that the first to mint tokens of a leg get beyond what they pay for: all of it, when there are no leveraged tokens
yet to share it. -/
def unclaimed (p : Protocol) (owed : Nat) : Leg → Nat
  | .f => 0
  | .x => if p.supplyX = 0 then (p.excess owed).toNat else 0

theorem unclaimed_eq_zero_iff : p.unclaimed owed leg = 0 ↔ (leg = .x → p.supplyX = 0 → p.excess owed ≤ 0) := by
  cases leg with
  | f => exact ⟨fun _ => nofun, fun _ => rfl⟩
  | x =>
    rw [unclaimed]
    split
    next hx => exact Int.toNat_eq_zero.trans ⟨fun h _ _ => h, fun h => h rfl hx⟩
    next hx => exact ⟨fun _ _ h => absurd h hx, fun _ => rfl⟩

/-- At the price after they were minted, fresh tokens are worth at most what came in for them and what nobody had a claim to. -/
theorem Mints.out_mul_unit_le (h : Mints p p' owed leg amount q) (howed : owed ≤ p.reserve) :
    q.out * p'.unit owed leg ≤ q.charge.net * p.feed.price + p.unclaimed owed leg := by
  have hout := h.out_le
  cases leg with
  | f =>
    rw [unit_f] at hout ⊢
    exact hout.trans (Nat.le_add_right _ _)
  | x =>
    rcases le_or_gt (p'.unit owed .x) (p.unit owed .x) with hle | hlt
    · exact (Nat.mul_le_mul_left _ hle).trans (hout.trans (Nat.le_add_right _ _))
    by_cases hz : p'.supplyX = 0
    · have : p'.supplyX = p.supplyX + q.out := h.supply .x
      have : q.out = 0 := by omega
      simp [this]
    -- The price has risen, so the fresh tokens have their full share of the excess, at a price that the old ones did not reach.
    have hk : p'.unit owed .x ≠ 0 := by omega
    have howed' : owed ≤ p'.reserve := by
      rw [h.reserve]
      omega
    obtain ⟨hword, hworth⟩ := (le_unit_iff howed' hz hk).1 le_rfl
    have hsupply : (p'.supplyX : ℤ) = p.supplyX + q.out := by exact_mod_cast h.supply .x
    have hf : p'.supplyF = p.supplyF := h.supply .f
    rw [h.excess, hsupply, hf] at hworth
    by_cases hx : p.supplyX = 0
    · have := Int.self_le_toNat (p.excess owed)
      rw [unclaimed, if_pos hx]
      rw [hx] at hworth
      zify
      push_cast at hworth
      linarith
    · have hshort : p.excess owed < p'.unit owed .x * p.supplyX := by
        by_contra hge
        have := (le_unit_iff howed hx hk).2 ⟨hword, not_lt.1 hge⟩
        omega
      rw [unclaimed, if_neg hx]
      zify
      linarith

/-- A redemption of fresh tokens takes at most what came in for them and what nobody had a claim to. -/
theorem Mints.gross_le (h : Mints p p' owed leg amount q) (h' : Redeems p' p'' owed leg q.out q') (howed : owed ≤ p.reserve)
    (hprice : p.feed.price ≠ 0) : q'.gross ≤ q.charge.net + p.unclaimed owed leg / p.feed.price := by
  have hpos := Nat.pos_of_ne_zero hprice
  have hgross := h'.gross_le
  rw [h.feed] at hgross
  calc q'.gross ≤ (q.charge.net * p.feed.price + p.unclaimed owed leg) / p.feed.price :=
        (Nat.le_div_iff_mul_le hpos).2 (hgross.trans (h.out_mul_unit_le howed))
    _ = q.charge.net + p.unclaimed owed leg / p.feed.price := by
        rw [Nat.add_comm, Nat.add_mul_div_right _ _ hpos, Nat.add_comm]

/-- Redeeming fresh tokens pays at most what they cost, the bonuses, and what nobody had a claim to. -/
theorem Mints.roundTrip_le (h : Mints p p' owed leg amount q) (h' : Redeems p' p'' owed leg q.out q')
    (howed : owed ≤ p.reserve) (hprice : p.feed.price ≠ 0) :
    q'.out + p.treasury.bonuses ≤ amount + p''.treasury.bonuses + p.unclaimed owed leg / p.feed.price := by
  have hgross := h.gross_le h' howed hprice
  rw [h'.out, h'.charge.net, Treasury.settle_bonuses h'.settled, Treasury.settle_bonuses h.settled]
  rw [h.charge.net, h.gross] at hgross
  omega

end Protocol

namespace World

variable {w w' : World} {caller : Address} {leg : Leg} {n least : Nat} {reply : Reply}

theorem Move.mints {target : Address} (hm : w.Move caller target (.protocol (.mint leg n least)) reply w') :
    ∃ q, reply = .amount q.out ∧ w.protocol.Mints w'.protocol w.pool.owed leg n q ∧ w.protocol.feed.price ≠ 0 ∧
      w'.pool.owed = w.pool.owed := by
  cases hm with
  | books hb => cases hb
  | mint hb ht hu =>
    obtain ⟨hmints, hprice⟩ := Protocol.mint_ok hb
    exact ⟨_, rfl, hmints, hprice, rfl⟩

theorem Move.redeems {target : Address} (hm : w.Move caller target (.protocol (.redeem leg n least)) reply w') :
    ∃ q, reply = .amount q.out ∧ w.protocol.Redeems w'.protocol w.pool.owed leg n q := by
  cases hm with
  | books hb => cases hb
  | redeem hb hu ht => exact ⟨_, rfl, (Protocol.redeem_ok hb).1⟩

/-- In every state of every wired run, minting tokens and redeeming them at once pays at most what went in and the bonuses of the
two operations, unless there are no leveraged tokens to own an excess; then it pays at most that excess more. -/
theorem roundTrip_le_after_wired (steps : List Step) (hs : ∀ s ∈ steps, s.Wired) (caller : Address) (leg : Leg)
    (n least least' out paid : Nat) (r r' : Receipt) (hc : caller.IsAccount)
    (hmint : (Launch.wired.after steps).call caller Launch.protocol (.protocol (.mint leg n least)) = .ok r)
    (hout : r.reply = .amount out)
    (hredeem : r.chain.call caller Launch.protocol (.protocol (.redeem leg out least')) = .ok r')
    (hpaid : r'.reply = .amount paid) :
    ∃ w v : World, Launch.wired.after steps = w.chain ∧ r'.chain = v.chain ∧
      ((leg = .x → w.protocol.supplyX = 0 → w.excess ≤ 0) →
        paid + w.protocol.treasury.bonuses ≤ n + v.protocol.treasury.bonuses) ∧
      paid + w.protocol.treasury.bonuses ≤
        n + v.protocol.treasury.bonuses + w.protocol.unclaimed w.pool.owed leg / w.protocol.feed.price := by
  obtain ⟨w, hchain, hw⟩ := exists_after_wired hs
  rw [hchain] at hmint
  have hperm : Call.Permitted Launch.protocol (.protocol (.mint leg n least)) := fun _ => Protocol.Call.noConfusion
  have hperm' : Call.Permitted Launch.protocol (.protocol (.redeem leg out least')) := fun _ => Protocol.Call.noConfusion
  obtain ⟨w', hchain', hm⟩ := move_of_call hw.linked hw.pool hc hperm hmint
  have hw' := hw.move hc hperm hm
  rw [hchain'] at hredeem
  obtain ⟨v, hv, hm'⟩ := move_of_call hw'.linked hw'.pool hc hperm' hredeem
  obtain ⟨q, hreply, hmints, hprice, howed⟩ := hm.mints
  obtain ⟨q', hreply', hredeems⟩ := hm'.redeems
  rw [hreply, Reply.amount.injEq] at hout
  rw [hreply', Reply.amount.injEq] at hpaid
  subst hout hpaid
  rw [howed] at hredeems
  have hle := hmints.roundTrip_le hredeems hw.owed_le hprice
  refine ⟨w, v, hchain, hv, fun hclaimed => ?_, hle⟩
  rwa [Protocol.unclaimed_eq_zero_iff.2 hclaimed, Nat.zero_div, Nat.add_zero] at hle

theorem roundTrip_le_after_firstTrades :
    ∃ r r' : Receipt, (Launch.wired.after Launch.firstTrades).call Launch.bob Launch.protocol
        (.protocol (.mint .x (100 * priceScale) 0)) = .ok r ∧
      r.reply = .amount 199000000000 ∧
      r.chain.call Launch.bob Launch.protocol (.protocol (.redeem .x 199000000000 0)) = .ok r' ∧
      r'.reply = .amount 99002500000 ∧
      ∃ w v : World, Launch.wired.after Launch.firstTrades = w.chain ∧ r'.chain = v.chain ∧
        99002500000 + w.protocol.treasury.bonuses ≤ 100 * priceScale + v.protocol.treasury.bonuses := by
  have hsupply : (Launch.wired.after Launch.firstTrades).query Launch.protocol (.protocol .supplyX) =
      .ok (.amount 1000000000000) := by
    decide +kernel
  have hreplies : ((Launch.wired.after Launch.firstTrades).call Launch.bob Launch.protocol
      (.protocol (.mint .x (100 * priceScale) 0)) >>= fun r =>
        (r.chain.call Launch.bob Launch.protocol (.protocol (.redeem .x 199000000000 0))).map fun r' => (r.reply, r'.reply)) =
      .ok (.amount 199000000000, .amount 99002500000) := by
    decide +kernel
  obtain ⟨r, hr, hreplies⟩ := Outcome.bind_eq_ok.1 hreplies
  obtain ⟨r', hr', e⟩ := Outcome.map_eq_ok.1 hreplies
  obtain ⟨hout, hpaid⟩ := Prod.mk.inj e
  have hbob : Launch.bob.IsAccount := trivial
  obtain ⟨w, v, hw, hv, hlaw, -⟩ :=
    roundTrip_le_after_wired _ Launch.firstTrades_wired _ _ _ _ _ _ _ r r' hbob hr hout hr' hpaid
  rw [hw, query_protocol] at hsupply
  have hx : w.protocol.supplyX = 1000000000000 := Reply.amount.inj (Except.ok.inj hsupply)
  exact ⟨r, r', hr, hout, hr', hpaid, w, v, hw, hv, hlaw fun _ hz => by omega⟩

end World

/-! ### An excess without an owner -/

namespace Launch

/-- All leveraged tokens are redeemed, and then the price rises. -/
def abandoned : List Step :=
  [.call admin protocol (.protocol (.bootstrap firstReserve)),
    .call admin protocol (.protocol (.redeem .x (1000 * priceScale) 0)),
    .call oracle protocol (.protocol (.updatePrice 2300000 0))]

theorem abandoned_wired : ∀ s ∈ abandoned, s.Wired := by
  simp [abandoned, Step.Wired, Call.Permitted, admin, oracle, Address.IsAccount]

end Launch

/-- The next to mint a leveraged token gets the excess with it: one reserve token becomes more than sixty-five, and the bonuses are
a thousandth of one. -/
theorem World.roundTrip_gain_after_abandoned : (∀ s ∈ Launch.abandoned, s.Wired) ∧
    ∃ (r r' : Receipt) (t t' : Treasury),
      (Launch.wired.after Launch.abandoned).query Launch.protocol (.protocol .breakdown) = .ok (.treasury t) ∧
      (Launch.wired.after Launch.abandoned).call Launch.bob Launch.protocol (.protocol (.mint .x priceScale 0)) = .ok r ∧
      r.reply = .amount 2290800000 ∧
      r.chain.call Launch.bob Launch.protocol (.protocol (.redeem .x 2290800000 0)) = .ok r' ∧
      r'.reply = .amount 65882324346 ∧
      r'.chain.query Launch.protocol (.protocol .breakdown) = .ok (.treasury t') ∧
      t.bonuses = 0 ∧ t'.bonuses = 1000000 ∧ priceScale + t'.bonuses < 65882324346 + t.bonuses := by
  have hbefore : (Launch.wired.after Launch.abandoned).query Launch.protocol (.protocol .breakdown) =
      .ok (.treasury ⟨2500000000, 2500000000, 0, 0, 0, 2500000000, 0, 0⟩) := by
    decide +kernel
  have hreplies : ((Launch.wired.after Launch.abandoned).call Launch.bob Launch.protocol
      (.protocol (.mint .x priceScale 0)) >>= fun r =>
        (r.chain.call Launch.bob Launch.protocol (.protocol (.redeem .x 2290800000 0))).map fun r' =>
          (r.reply, r'.reply, r'.chain.query Launch.protocol (.protocol .breakdown))) =
      .ok (.amount 2290800000, .amount 65882324346,
        .ok (.treasury ⟨2835066957, 2836066957, 0, 5000000, 0, 2831066957, 1000000, 0⟩)) := by
    decide +kernel
  obtain ⟨r, hr, hreplies⟩ := Outcome.bind_eq_ok.1 hreplies
  obtain ⟨r', hr', e⟩ := Outcome.map_eq_ok.1 hreplies
  obtain ⟨hout, e⟩ := Prod.mk.inj e
  obtain ⟨hpaid, hafter⟩ := Prod.mk.inj e
  exact ⟨Launch.abandoned_wired, r, r', _, _, hbefore, hr, hout, hr', hpaid, hafter, rfl, rfl, by decide⟩

end SplitReserve
