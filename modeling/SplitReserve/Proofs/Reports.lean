import SplitReserve.Proofs.Evolution
import SplitReserve.Proofs.Quotes

/-!
# The price feed of a protocol

Nothing but an accepted report moves the price of a protocol, whatever is called on its chain and however long is waited in
between: the reports that are accepted in a run are a trail of its feed (`Fed`).  So all that is known of trails is known of
every run (`guarded_after`).
-/

namespace SplitReserve

namespace Chain

variable {c d e : Chain} {self caller target : Address} {p q r : Protocol} {rs rs' : List Report} {n least raw seen : Nat}
  {rc : Receipt}

/-! ### Reports -/

/-- The report that the protocol at `self` accepts in a step, if it does. -/
def report? (c : Chain) (self : Address) : Step → Option Report
  | .call caller target (.protocol (.updatePrice raw seen)) =>
    match c.find? self, c.call caller target (.protocol (.updatePrice raw seen)) with
    | some (.protocol p), .ok _ => if target = self then some ⟨raw, seen, c.now, p.feed.config⟩ else none
    | _, _ => none
  | _ => none

/-- The reports that it accepts in a run. -/
def reports (c : Chain) (self : Address) : List Step → List Report
  | [] => []
  | s :: steps => (c.report? self s).toList ++ (c.step s).reports self steps

/-- From `c` to `d`, the protocol at `a` has become `q`, and its feed has accepted the reports. -/
structure Fed (c d : Chain) (a : Address) (p q : Protocol) (rs : List Report) : Prop where
  found : d.find? a = some (.protocol q)
  trail : p.feed.Trail rs q.feed
  now_le : c.now ≤ d.now
  report_now : ∀ r ∈ rs, r.now ≤ d.now

theorem Fed.trans (h : Fed c d self p q rs) (h' : Fed d e self q r rs') : Fed c e self p r (rs ++ rs') where
  found := h'.found
  trail := h.trail.append h'.trail
  now_le := h.now_le.trans h'.now_le
  report_now := by
    intro x hx
    rcases List.mem_append.1 hx with hx | hx
    · exact (h.report_now x hx).trans h'.now_le
    · exact h'.report_now x hx

theorem step_of_call {call : Call} (h : c.call caller target call = .ok rc) :
    c.step (.call caller target call) = rc.chain := by
  rw [step, apply, h]

/-- An update that succeeds is a report that the feed accepts. -/
theorem updatePrice_ok (hp : c.find? self = some (.protocol p))
    (h : c.call caller self (.protocol (.updatePrice raw seen)) = .ok rc) :
    (p.roles.holds .oracle caller ∨ p.roles.holds .admin caller) ∧ p.feed.Accepts ⟨raw, seen, c.now, p.feed.config⟩ ∧
      rc.chain = c.set self (.protocol { p with feed := p.feed.accept ⟨raw, seen, c.now, p.feed.config⟩ }) := by
  rcases call_cases h with ⟨p', b, q, es, hfind, e, hb, hchain⟩ | ⟨hn, -⟩
  · cases e
    cases hp.symm.trans hfind
    cases Protocol.Call.books_of_onBooks hb with
    | updatePrice hc hf =>
      obtain ⟨hacc, rfl⟩ := PriceFeed.submit_eq_ok.1 hf
      exact ⟨hc, hacc, hchain⟩
  · exact absurd ⟨p, _, _, hp, rfl, rfl⟩ hn

/-- Whoever may report succeeds with a report that the feed accepts. -/
theorem exists_updatePrice (hp : c.find? self = some (.protocol p))
    (hc : p.roles.holds .oracle caller ∨ p.roles.holds .admin caller)
    (h : p.feed.Accepts ⟨raw, seen, c.now, p.feed.config⟩) :
    ∃ rc, c.call caller self (.protocol (.updatePrice raw seen)) = .ok rc := by
  have hrole : p.roles.requireOracle caller = .ok () := require_eq_ok.2 hc
  have hsubmit := PriceFeed.submit_eq_ok.2 ⟨h, rfl⟩
  rw [call_of_onBooks hp (b := .updatePrice raw seen) rfl, Protocol.updatePrice, hrole, Outcome.ok_bind, hsubmit]
  exact ⟨_, rfl⟩

theorem report?_of_updatePrice (hp : c.find? self = some (.protocol p))
    (h : c.call caller self (.protocol (.updatePrice raw seen)) = .ok rc) :
    c.report? self (.call caller self (.protocol (.updatePrice raw seen))) = some ⟨raw, seen, c.now, p.feed.config⟩ := by
  simp [report?, hp, h]

/-- The step is an update of the protocol at `self` that succeeds. -/
def Updates (c : Chain) (self : Address) (s : Step) : Prop :=
  ∃ caller raw seen rc, s = .call caller self (.protocol (.updatePrice raw seen)) ∧
    c.call caller self (.protocol (.updatePrice raw seen)) = .ok rc

theorem report?_of_not_updates {s : Step} (h : ¬ c.Updates self s) : c.report? self s = none := by
  unfold report?
  split
  · split
    next hcall =>
      split
      next htarget =>
        subst htarget
        exact absurd ⟨_, _, _, _, rfl, hcall⟩ h
      next => rfl
    next => rfl
  next => rfl

/-- Another step leaves the price alone, or the limits that it changes are in order. -/
theorem exists_step_trail (hp : c.find? self = some (.protocol p)) {s : Step} (h : ¬ c.Updates self s) :
    ∃ q, (c.step s).find? self = some (.protocol q) ∧ p.feed.Trail [] q.feed := by
  cases s with
  | wait ms =>
    refine ⟨p, ?_, .done _⟩
    simp only [step, advance]
    split <;> exact hp
  | call caller target call =>
    cases hcall : c.call caller target call with
    | error e =>
      refine ⟨p, ?_, .done _⟩
      rw [step, apply, hcall]
      exact hp
    | ok rc =>
      rw [step_of_call hcall]
      rcases call_cases hcall with ⟨p', b, q, es, hfind, rfl, hb, hchain⟩ | ⟨-, hr⟩
      · rw [hchain]
        by_cases htarget : self = target
        · subst htarget
          cases hp.symm.trans hfind
          refine ⟨q, find?_set_self hp, ?_⟩
          cases Protocol.Call.books_of_onBooks hb with
          | setPool | grantRole | revokeRole | renounceRole | setFees => exact .done _
          | setFeedConfig hc hv => exact .configure (require_eq_ok.1 hv) (.done _)
          | updatePrice => exact absurd ⟨_, _, _, _, rfl, hcall⟩ h
        · exact ⟨p, by rw [find?_set_of_ne htarget, hp], .done _⟩
      · obtain ⟨k, hk, he⟩ := hr.exists_of_find? hp
        cases he with
        | protocol hs => exact ⟨_, hk, hs.feed ▸ .done _⟩

theorem exists_step_fed (hp : c.find? self = some (.protocol p)) (s : Step) :
    ∃ q, Fed c (c.step s) self p q (c.report? self s).toList := by
  by_cases h : c.Updates self s
  · obtain ⟨caller, raw, seen, rc, rfl, hcall⟩ := h
    obtain ⟨-, hacc, hchain⟩ := updatePrice_ok hp hcall
    have hnow := now_le_step c (.call caller self (.protocol (.updatePrice raw seen)))
    rw [report?_of_updatePrice hp hcall]
    refine ⟨{ p with feed := p.feed.accept ⟨raw, seen, c.now, p.feed.config⟩ }, ?_, .accept hacc (.done _), hnow, ?_⟩
    · rw [step_of_call hcall, hchain]
      exact find?_set_self hp
    · simpa using hnow
  · obtain ⟨q, hq, ht⟩ := exists_step_trail hp h
    rw [report?_of_not_updates h]
    exact ⟨q, hq, ht, now_le_step c s, by simp⟩

theorem exists_after_fed (hp : c.find? self = some (.protocol p)) (steps : List Step) :
    ∃ q, Fed c (c.after steps) self p q (c.reports self steps) := by
  induction steps generalizing c p with
  | nil => exact ⟨p, hp, .done _, le_rfl, by simp [reports]⟩
  | cons s steps ih =>
    obtain ⟨q, hq⟩ := exists_step_fed hp s
    obtain ⟨r, hr⟩ := ih hq.found
    exact ⟨r, hq.trans hr⟩

end Chain

/-! ### Uses of the price -/

namespace Protocol

variable {p p' : Protocol} {caller : Address} {now amount least target : Nat} {owed : Outcome Nat} {op : Operation} {q : Priced}
  {plan : Plan}

theorem price_usable (h : p.price now owed op amount = .ok q) :
    p.feed.Usable now ∧ ∃ o, owed = .ok o ∧ p.priceAt p.feed.price o op amount = .ok q := by
  have hpriced := (price_ok h).2.2.1
  simp only [price, Outcome.bind_eq_ok] at h
  obtain ⟨-, -, price, hfresh, -⟩ := h
  exact ⟨(PriceFeed.fresh_eq_ok.1 hfresh).1, hpriced⟩

theorem price_of_trade (h : p.trade now owed op amount least = .ok (p', q)) : p.price now owed op amount = .ok q := by
  cases op with
  | mint leg =>
    simp only [trade, mint, Outcome.bind_eq_ok] at h
    obtain ⟨⟨p₁, q₁⟩, hs, p₂, -, supply, -, h⟩ := h
    cases h
    exact (settle_ok hs).1
  | redeem leg =>
    simp only [trade, redeem, Outcome.bind_eq_ok] at h
    obtain ⟨⟨p₁, q₁⟩, hs, reserve, -, supply, -, h⟩ := h
    cases h
    exact (settle_ok hs).1

theorem bootstrap_usable (h : p.bootstrap caller now amount = .ok p') :
    p.feed.Usable now ∧ ∃ value, reserveToUsd amount p.feed.price = some value ∧ p'.supplyF = value / 2 ∧
      p'.supplyX = value - value / 2 := by
  simp only [bootstrap, Outcome.bind_eq_ok, demand_eq_ok] at h
  obtain ⟨-, -, -, -, -, -, price, hfresh, value, hvalue, -, -, h⟩ := h
  cases h
  obtain ⟨hu, rfl⟩ := PriceFeed.fresh_eq_ok.1 hfresh
  exact ⟨hu, value, hvalue, rfl, rfl⟩

theorem planRebalance_usable (h : p.planRebalance now owed target = .ok (some plan)) :
    p.feed.Usable now ∧ plan.price = p.feed.price := by
  cases owed with
  | ok owed =>
    obtain ⟨hs, -, rfl⟩ := planRebalance_some h
    exact ⟨hs.usable, rfl⟩
  | error e =>
    -- There is no plan when it is not known what is owed.
    unfold planRebalance at h
    split at h
    · cases h
    · split at h <;> cases h

end Protocol

namespace Chain

open Work

variable {c : Chain} {self caller : Address} {p : Protocol} {rc : Receipt} {op : Operation}
  {n least target burned payout raw seen : Nat} {reply : Reply}

theorem exists_run_protocol (hp : c.find? self = some (.protocol p)) {b : Protocol.Call}
    (h : c.call caller self (.protocol b) = .ok rc) : ∃ s, b.run self caller p ⟨c, []⟩ = .ok (rc.reply, s) := by
  obtain ⟨s, hrun, -⟩ := exists_run h
  simp only [Chain.run, bind_apply, lift_apply, chain_apply, Outcome.ok_bind, bind_assoc, Outcome.bind_eq_ok,
    callee_eq_ok] at hrun
  obtain ⟨k, hk, hrun⟩ := hrun
  cases hp.symm.trans hk
  exact ⟨s, hrun⟩

theorem trade_of_call (hp : c.find? self = some (.protocol p)) (h : c.call caller self (op.call n least) = .ok rc) :
    ∃ p' q, p.trade c.now (c.owed p) op n least = .ok (p', q) ∧ rc.reply = .amount q.out := by
  obtain ⟨d, reply, events⟩ := rc
  cases op with
  | mint leg =>
    obtain ⟨s, hrun⟩ := exists_run_protocol hp h
    simp only [Protocol.Call.run, Protocol.runMint, bind_apply, lift_apply, chain_apply, save_apply, announce_apply,
      pure_apply, Outcome.ok_bind, bind_assoc, Outcome.bind_eq_ok] at hrun
    obtain ⟨⟨p', q⟩, hq, drawn, -, minted, -, e⟩ := hrun
    cases e
    exact ⟨p', q, hq, rfl⟩
  | redeem leg =>
    obtain ⟨s, hrun⟩ := exists_run_protocol hp h
    simp only [Protocol.Call.run, Protocol.runRedeem, bind_apply, lift_apply, chain_apply, save_apply, announce_apply,
      pure_apply, Outcome.ok_bind, bind_assoc, Outcome.bind_eq_ok] at hrun
    obtain ⟨⟨p', q⟩, hq, burned, -, paid, -, e⟩ := hrun
    cases e
    exact ⟨p', q, hq, rfl⟩

theorem bootstrap_of_call (hp : c.find? self = some (.protocol p))
    (h : c.call caller self (.protocol (.bootstrap n)) = .ok rc) : ∃ p', p.bootstrap caller c.now n = .ok p' := by
  obtain ⟨s, hrun⟩ := exists_run_protocol hp h
  simp only [Protocol.Call.run, Protocol.runBootstrap, bind_apply, lift_apply, chain_apply, Outcome.ok_bind, bind_assoc,
    Outcome.bind_eq_ok] at hrun
  obtain ⟨p', hp', -⟩ := hrun
  exact ⟨p', hp'⟩

/-- Nothing is burned without a plan. -/
theorem plan_of_call (hp : c.find? self = some (.protocol p))
    (h : c.call caller self (.protocol (.rebalance target)) = .ok rc) (hr : rc.reply = .amounts burned payout)
    (hb : burned ≠ 0) : ∃ plan, p.planRebalance c.now (c.owed p) target = .ok (some plan) := by
  obtain ⟨s, hrun⟩ := exists_run_protocol hp h
  rw [hr] at hrun
  simp only [Protocol.Call.run, Protocol.runRebalance, bind_apply, lift_apply, chain_apply, Outcome.ok_bind, bind_assoc,
    Outcome.bind_eq_ok] at hrun
  obtain ⟨-, -, -, -, pool, -, plan, hplan, hrun⟩ := hrun
  cases plan with
  | none =>
    obtain ⟨r, hr', e⟩ := hrun
    cases hr'
    cases e
    exact absurd rfl hb
  | some plan => exact ⟨plan, hplan⟩

theorem price_of_query (hp : c.find? self = some (.protocol p))
    (h : c.query self (.protocol (.quote op n)) = .ok reply) :
    ∃ q, p.price c.now (c.owed p) op n = .ok q ∧ reply = .quote q.quote := by
  simp only [query, Outcome.bind_eq_ok, callee_eq_ok] at h
  obtain ⟨k, hk, h⟩ := h
  cases hp.symm.trans hk
  obtain ⟨quoted, hquoted, rfl⟩ := Outcome.map_eq_ok.1 h
  obtain ⟨q, hq, e⟩ := Outcome.bind_eq_ok.1 hquoted
  exact ⟨q, hq, congrArg Reply.quote (Except.ok.inj e).symm⟩

/-! ### All together -/

/-- What can be relied on of the feed of the protocol `p`, which stands at `a`. -/
structure Guarded (c : Chain) (a : Address) (p : Protocol) : Prop where
  found : c.find? a = some (.protocol p)
  valid : p.feed.config.Valid
  dvd : 1000 ∣ p.feed.price
  seen_le : p.feed.seen ≤ c.now
  /-- An update is accepted just when somebody who may report gives a price within the limits in force. -/
  accepted : ∀ caller raw seen, (∃ rc, c.call caller a (.protocol (.updatePrice raw seen)) = .ok rc) ↔
    (p.roles.holds .oracle caller ∨ p.roles.holds .admin caller) ∧ raw ≠ 0 ∧ 1000 * raw < wordLimit ∧ seen ≤ c.now ∧
      c.now - seen < p.feed.config.maxAge ∧ p.feed.seen ≤ seen ∧
      (p.feed.price ≠ 0 → |(1000 * raw : ℤ) - p.feed.price| * 10000 < p.feed.config.maxStep * p.feed.price)
  /-- It writes the price and its time. -/
  written : ∀ caller raw seen rc, c.call caller a (.protocol (.updatePrice raw seen)) = .ok rc →
    rc.chain.find? a = some (.protocol { p with feed := { p.feed with price := 1000 * raw, seen } })
  /-- Nothing else that happens writes either. -/
  other : ∀ s, ¬ c.Updates a s → ∃ q, (c.step s).find? a = some (.protocol q) ∧ q.feed.price = p.feed.price ∧
    q.feed.seen = p.feed.seen
  /-- In a run, times do not go back, a price is not lost, and steps compound. -/
  run : ∀ steps, ∃ q, (c.after steps).find? a = some (.protocol q) ∧ p.feed.seen ≤ q.feed.seen ∧
    (p.feed.price ≠ 0 → q.feed.price ≠ 0 ∧ ∀ s, (∀ r ∈ c.reports a steps, r.config.maxStep ≤ s) →
      c.reports a steps ≠ [] →
      p.feed.price * (10000 - s) ^ (c.reports a steps).length < q.feed.price * 10000 ^ (c.reports a steps).length ∧
      q.feed.price * 10000 ^ (c.reports a steps).length < p.feed.price * (10000 + s) ^ (c.reports a steps).length)
  operation : ∀ caller op n least rc, c.call caller a (op.call n least) = .ok rc → p.feed.Usable c.now ∧
    ∃ owed q, c.owed p = .ok owed ∧ p.priceAt p.feed.price owed op n = .ok q ∧ rc.reply = .amount q.out
  quote : ∀ op n reply, c.query a (.protocol (.quote op n)) = .ok reply → p.feed.Usable c.now ∧
    ∃ owed q, c.owed p = .ok owed ∧ p.priceAt p.feed.price owed op n = .ok q ∧ reply = .quote q.quote
  bootstrap : ∀ caller n rc, c.call caller a (.protocol (.bootstrap n)) = .ok rc → p.feed.Usable c.now ∧
    ∃ q value, p.bootstrap caller c.now n = .ok q ∧ reserveToUsd n p.feed.price = some value ∧ q.supplyF = value / 2 ∧
      q.supplyX = value - value / 2
  rebalance : ∀ caller target rc burned payout, c.call caller a (.protocol (.rebalance target)) = .ok rc →
    rc.reply = .amounts burned payout → burned ≠ 0 → p.feed.Usable c.now ∧
      ∃ plan, p.planRebalance c.now (c.owed p) target = .ok (some plan) ∧ plan.price = p.feed.price

/-- What a feed accepts, in numbers. -/
private theorem accepts_iff {now : Nat} : p.feed.Accepts ⟨raw, seen, now, p.feed.config⟩ ↔
    raw ≠ 0 ∧ 1000 * raw < wordLimit ∧ seen ≤ now ∧ now - seen < p.feed.config.maxAge ∧ p.feed.seen ≤ seen ∧
      (p.feed.price ≠ 0 → |(1000 * raw : ℤ) - p.feed.price| * 10000 < p.feed.config.maxStep * p.feed.price) := by
  have hprice : ∀ now, Report.price ⟨raw, seen, now, p.feed.config⟩ = 1000 * raw := fun _ => Nat.mul_comm _ _
  constructor
  · rintro ⟨-, hraw, hword, hseen, hfresh, hlater, hnear⟩
    rw [hprice] at hword hnear
    exact ⟨hraw, hword, hseen, hfresh, hlater, fun hpos => by exact_mod_cast hnear hpos⟩
  · rintro ⟨hraw, hword, hseen, hfresh, hlater, hnear⟩
    refine ⟨rfl, hraw, ?_, hseen, hfresh, hlater, fun hpos => ?_⟩
    · rwa [hprice]
    · rw [hprice]
      exact_mod_cast hnear hpos

theorem guarded_of_seen_le (hp : c.find? self = some (.protocol p)) (hvalid : p.feed.config.Valid)
    (hdvd : feedFactor ∣ p.feed.price) (hseen : p.feed.seen ≤ c.now) : c.Guarded self p where
  found := hp
  valid := hvalid
  dvd := hdvd
  seen_le := hseen
  accepted := by
    intro caller raw seen
    rw [← accepts_iff]
    constructor
    · rintro ⟨rc, h⟩
      obtain ⟨hc, hacc, -⟩ := updatePrice_ok hp h
      exact ⟨hc, hacc⟩
    · rintro ⟨hc, hacc⟩
      exact exists_updatePrice hp hc hacc
  written := by
    intro caller raw seen rc h
    obtain ⟨-, -, hchain⟩ := updatePrice_ok hp h
    have hprice : raw * feedFactor = 1000 * raw := Nat.mul_comm _ _
    rw [hchain, find?_set_self hp, PriceFeed.accept, Report.price, hprice]
  other := by
    intro s hs
    obtain ⟨q, hq, ht⟩ := exists_step_trail hp hs
    exact ⟨q, hq, ht.eq_of_nil⟩
  run := by
    intro steps
    obtain ⟨q, hq⟩ := exists_after_fed hp steps
    exact ⟨q, hq.found, hq.trail.seen_le, fun hpos => ⟨hq.trail.price_ne_zero hpos, fun s => hq.trail.compounded hpos⟩⟩
  operation := by
    intro caller op n least rc h
    obtain ⟨q, priced, htrade, hreply⟩ := trade_of_call hp h
    obtain ⟨hu, owed, ho, hpriced⟩ := Protocol.price_usable (Protocol.price_of_trade htrade)
    exact ⟨hu, owed, priced, ho, hpriced, hreply⟩
  quote := by
    intro op n reply h
    obtain ⟨priced, hprice, hreply⟩ := price_of_query hp h
    obtain ⟨hu, owed, ho, hpriced⟩ := Protocol.price_usable hprice
    exact ⟨hu, owed, priced, ho, hpriced, hreply⟩
  bootstrap := by
    intro caller n rc h
    obtain ⟨q, hq⟩ := bootstrap_of_call hp h
    obtain ⟨hu, value, hvalue⟩ := Protocol.bootstrap_usable hq
    exact ⟨hu, q, value, hq, hvalue⟩
  rebalance := by
    intro caller target rc burned payout h hr hb
    obtain ⟨plan, hplan⟩ := plan_of_call hp h hr hb
    obtain ⟨hu, hprice⟩ := Protocol.planRebalance_usable hplan
    exact ⟨hu, plan, hplan, hprice⟩

/-- From its creation on, the feed of a protocol is guarded, on whatever chain it stands and whatever happens there. -/
theorem guarded_after {creator reserveToken fToken xToken : Address}
    (h : c.find? self = some (.protocol (Protocol.init creator reserveToken fToken xToken))) (steps : List Step) :
    ∃ p, (c.after steps).Guarded self p := by
  obtain ⟨p, hp⟩ := exists_after_fed h steps
  refine ⟨p, guarded_of_seen_le hp.found (hp.trail.valid ?_) (hp.trail.dvd_price ?_) ?_⟩
  · change FeedConfig.standard.Valid
    decide
  · exact Nat.dvd_zero _
  · exact hp.trail.seen_le_of_le (Nat.zero_le _) hp.report_now

theorem guarded_after_wiring :
    Launch.contracts.find? Launch.protocol =
        some (.protocol (Protocol.init Launch.admin Launch.reserveToken Launch.fToken Launch.xToken)) ∧
      ∃ p, (Launch.contracts.after (Launch.fundingSteps ++ Launch.wiringSteps)).Guarded Launch.protocol p :=
  ⟨rfl, guarded_after rfl _⟩

/-- The last of these steps is the only report. -/
example : ((Launch.contracts.reports Launch.protocol (Launch.fundingSteps ++ Launch.wiringSteps)).map Report.price) =
    [2 * priceScale] := by decide +kernel

end Chain

end SplitReserve
