import SplitReserve.Launch
import SplitReserve.Proofs.Fees
import SplitReserve.Proofs.Reports

/-!
# The rates of a protocol

What a user gets is a chain of quotients, with the charge in its middle (`Protocol.outAt`).  Under a schedule in order none of its
links falls when the amount grows (`Protocol.outAt_mono`), and the schedule of a protocol is in order from the creation of the
protocol on, since only one in order is ever written.  So at no time does a larger amount have a smaller quote: `rated_after`.
-/

namespace SplitReserve

namespace Protocol

variable {p : Protocol} {price owed amount : Nat} {op : Operation} {q : Priced}

/-! ### What a user gets -/

/-- What the amount is worth to the user, if it can be priced. -/
def outAt (p : Protocol) (price owed : Nat) (op : Operation) (amount : Nat) : Nat :=
  let level := currentLevel p.reserve owed price p.supplyF stablePrice
  let px := xPrice p.reserve owed price p.supplyF p.supplyX
  match op with
  | .mint leg => p.fees.netOn op level amount * price / leg.price px
  | .redeem leg => p.fees.netOn op level (amount * leg.price px / price)

/-- What is priced pays just that. -/
theorem priceAt_out (h : p.priceAt price owed op amount = .ok q) : q.out = p.outAt price owed op amount := by
  cases op with
  | mint leg =>
    simp only [priceAt, Outcome.bind_eq_ok, require_eq_ok, demand_eq_ok] at h
    obtain ⟨-, -, charge, hcharge, out, hout, -, -, h⟩ := h
    cases h
    obtain ⟨-, -, -, rfl⟩ := FeeSchedule.charge_eq_ok hcharge
    exact (mulDiv_eq_some.1 hout).2.2
  | redeem leg =>
    simp only [priceAt, Outcome.bind_eq_ok, require_eq_ok, demand_eq_ok] at h
    obtain ⟨-, -, gross, hgross, charge, hcharge, -, -, h⟩ := h
    cases h
    obtain ⟨-, -, -, rfl⟩ := FeeSchedule.charge_eq_ok hcharge
    obtain ⟨-, -, rfl⟩ := mulDiv_eq_some.1 hgross
    rfl

theorem outAt_mono (h : p.fees.Valid) (price owed : Nat) (op : Operation) : Monotone (p.outAt price owed op) := by
  intro m n hle
  cases op with
  | mint leg => exact Nat.div_le_div_right (Nat.mul_le_mul_right _ (h.netOn_mono _ _ hle))
  | redeem leg => exact h.netOn_mono _ _ (Nat.div_le_div_right (Nat.mul_le_mul_right _ hle))

/-! ### Schedules -/

theorem fees_valid_lasting : Lasting fun p => p.fees.Valid where
  books h hp := by
    cases h with
    | setFees _ hf => exact FeeSchedule.validate_eq_ok.1 hf
    | setPool | grantRole | revokeRole | renounceRole | setFeedConfig | updatePrice => exact hp
  terms h hp := h.fees ▸ hp

end Protocol

namespace Chain

variable {c : Chain} {self : Address} {p : Protocol}

/-- What can be relied on of the rates of the protocol `p`, which stands at `a`. -/
structure Rated (c : Chain) (a : Address) (p : Protocol) : Prop where
  found : c.find? a = some (.protocol p)
  fees : c.query a (.protocol .fees) = .ok (.fees p.fees)
  valid : p.fees.validate = .ok ()
  /-- Of two amounts that are quoted, the larger gives no less. -/
  quote_le : ∀ op m n (q q' : Quote), m ≤ n → c.query a (.protocol (.quote op m)) = .ok (.quote q) →
    c.query a (.protocol (.quote op n)) = .ok (.quote q') → q.out ≤ q'.out

theorem rated_of_valid (hp : c.find? self = some (.protocol p)) (hf : p.fees.Valid) : c.Rated self p where
  found := hp
  fees := by
    rw [query, callee_eq_ok.2 hp]
    rfl
  valid := FeeSchedule.validate_eq_ok.2 hf
  quote_le op m n q q' hle hm hn := by
    obtain ⟨qm, hqm, em⟩ := price_of_query hp hm
    obtain ⟨qn, hqn, en⟩ := price_of_query hp hn
    obtain ⟨-, -, ⟨owed, howed, hpm⟩, -⟩ := Protocol.price_ok hqm
    obtain ⟨-, -, ⟨owed', howed', hpn⟩, -⟩ := Protocol.price_ok hqn
    -- Both quotes ask the same pool what it is owed.
    cases howed.symm.trans howed'
    cases em
    cases en
    calc qm.out
        = p.outAt p.feed.price owed op m := Protocol.priceAt_out hpm
      _ ≤ p.outAt p.feed.price owed op n := Protocol.outAt_mono hf _ _ _ hle
      _ = qn.out := (Protocol.priceAt_out hpn).symm

/-- Every schedule in order charges regularly, and from its creation on a protocol has one, on whatever chain it stands and
whatever happens there. -/
theorem rated_after {creator reserveToken fToken xToken : Address}
    (h : c.find? self = some (.protocol (Protocol.init creator reserveToken fToken xToken))) (steps : List Step) :
    (∀ s : FeeSchedule, s.validate = .ok () → s.Regular) ∧ ∃ p, (c.after steps).Rated self p := by
  obtain ⟨p, hp, hf⟩ := exists_after_of_lasting Protocol.fees_valid_lasting h FeeSchedule.standard_valid steps
  exact ⟨fun _ => FeeSchedule.regular_of_validate, p, rated_of_valid hp hf⟩

theorem rated_after_firstTrades :
    Launch.contracts.find? Launch.protocol =
        some (.protocol (Protocol.init Launch.admin Launch.reserveToken Launch.fToken Launch.xToken)) ∧
      FeeSchedule.standard.validate = .ok () ∧ FeeSchedule.standard.Regular ∧
      ∃ p, (Launch.contracts.after (Launch.fundingSteps ++ Launch.wiringSteps ++ Launch.firstTrades)).Rated Launch.protocol p := by
  have hfind : Launch.contracts.find? Launch.protocol =
      some (.protocol (Protocol.init Launch.admin Launch.reserveToken Launch.fToken Launch.xToken)) := rfl
  have hvalid : FeeSchedule.standard.validate = .ok () := rfl
  obtain ⟨hregular, hrated⟩ := rated_after hfind (Launch.fundingSteps ++ Launch.wiringSteps ++ Launch.firstTrades)
  exact ⟨hfind, hvalid, hregular _ hvalid, hrated⟩

/-- What the last unit is worth goes into the fee. -/
example :
    let c := Launch.wired.after Launch.firstTrades
    ([401, 402].map fun n => c.query Launch.protocol (.protocol (.quote (.redeem .f) n))) =
      [.ok (.quote ⟨199, 1, 0, .normal⟩), .ok (.quote ⟨199, 2, 0, .normal⟩)] := by decide +kernel

end Chain

end SplitReserve
