import Mathlib.Data.Option.Basic
import SplitReserve.Chain.Call
import SplitReserve.Proofs.Protocol.Trade
import SplitReserve.Proofs.Session
import SplitReserve.Proofs.Token.Run

/-!
# What a call makes of the contracts

However contracts are put together on a chain, and whoever calls them, a call does one of two things (`Chain.call_cases`).  It is
one of the calls on the books of a protocol and writes that protocol alone, or it leaves the terms of every protocol as they
are: the officers, the price feed, the fees and the contracts that it knows.  Then all tokens come out of calls of their own
entries, however deep in the call of another contract those were made.  A property of the terms that the calls on the books keep
therefore holds after every run (`Chain.exists_after_of_lasting`).
-/

namespace SplitReserve

/-! ### Terms -/

namespace Protocol

variable {p q r : Protocol} {caller : Address} {now amount least : Nat} {owed : Outcome Nat} {leg : Leg} {priced : Priced}

/-- The two protocols differ in nothing but what they hold and owe, and whether they have begun. -/
structure SameTerms (p q : Protocol) : Prop where
  roles : q.roles = p.roles
  feed : q.feed = p.feed
  fees : q.fees = p.fees
  reserveToken : q.reserveToken = p.reserveToken
  fToken : q.fToken = p.fToken
  xToken : q.xToken = p.xToken
  pool : q.pool = p.pool

theorem SameTerms.refl (p : Protocol) : SameTerms p p := ⟨rfl, rfl, rfl, rfl, rfl, rfl, rfl⟩

theorem SameTerms.trans (h : SameTerms p q) (h' : SameTerms q r) : SameTerms p r where
  roles := h'.roles.trans h.roles
  feed := h'.feed.trans h.feed
  fees := h'.fees.trans h.fees
  reserveToken := h'.reserveToken.trans h.reserveToken
  fToken := h'.fToken.trans h.fToken
  xToken := h'.xToken.trans h.xToken
  pool := h'.pool.trans h.pool

/-- Whatever is counted. -/
theorem sameTerms_of_eq {treasury : Treasury} {supplyF supplyX reserve : Nat} {bootstrapped : Bool}
    (h : q = { p with treasury, supplyF, supplyX, reserve, bootstrapped }) : SameTerms p q := by
  rw [h]
  exact ⟨rfl, rfl, rfl, rfl, rfl, rfl, rfl⟩

theorem sameTerms_setSupply (p : Protocol) (leg : Leg) (n : Nat) : SameTerms p (p.setSupply leg n) := by
  cases leg <;> exact sameTerms_of_eq rfl

theorem mint_sameTerms (h : p.mint now owed leg amount least = .ok (q, priced)) : SameTerms p q := by
  simp only [mint, Outcome.bind_eq_ok] at h
  obtain ⟨⟨p₁, priced'⟩, hs, p₂, hr, supply, -, h⟩ := h
  cases h
  obtain ⟨-, -, treasury, -, rfl⟩ := settle_ok hs
  obtain ⟨rfl, -⟩ := addReserve_ok hr
  exact SameTerms.trans (sameTerms_of_eq rfl) (sameTerms_setSupply _ leg supply)

theorem redeem_sameTerms (h : p.redeem now owed leg amount least = .ok (q, priced)) : SameTerms p q := by
  simp only [redeem, Outcome.bind_eq_ok] at h
  obtain ⟨⟨p₁, priced'⟩, hs, reserve, -, supply, -, h⟩ := h
  cases h
  obtain ⟨-, -, treasury, -, rfl⟩ := settle_ok hs
  exact SameTerms.trans (sameTerms_of_eq rfl) (sameTerms_setSupply _ leg supply)

theorem bootstrap_sameTerms (h : p.bootstrap caller now amount = .ok q) : SameTerms p q := by
  obtain ⟨-, -, -, e⟩ := bootstrap_ok h
  exact sameTerms_of_eq e

theorem addReserve_sameTerms (h : p.addReserve amount = .ok q) : SameTerms p q :=
  sameTerms_of_eq (addReserve_ok h).1

theorem recapitalize_sameTerms (h : p.recapitalize caller amount = .ok q) : SameTerms p q :=
  sameTerms_of_eq (recapitalize_ok h).2

theorem payClaim_sameTerms (h : p.payClaim caller amount = .ok q) : SameTerms p q :=
  sameTerms_of_eq (payClaim_ok h).2.2

theorem withdrawTreasury_sameTerms (h : p.withdrawTreasury caller amount = .ok q) : SameTerms p q := by
  obtain ⟨-, treasury, -, e⟩ := withdrawTreasury_ok h
  exact sameTerms_of_eq e

/-- Neither a call on the books nor a change of what is counted ends the property. -/
structure Lasting (P : Protocol → Prop) : Prop where
  books : ∀ {now p caller call q es}, Call.Books now p caller call q es → P p → P q
  terms : ∀ {p q}, SameTerms p q → P p → P q

end Protocol

/-! ### Contracts and chains -/

/-- What becomes of a contract in a call, unless the call is one on its books. -/
inductive Contract.Evolves : Contract → Contract → Prop
  | token {t t' : Token} {calls : List Token.Attempt} (h : t.Serves calls t') : Evolves (.token t) (.token t')
  | listing {t t' : Token} {calls : List Token.Attempt} (h : t.Serves calls t') : Evolves (.listing t) (.listing t')
  | protocol {p q : Protocol} (h : p.SameTerms q) : Evolves (.protocol p) (.protocol q)
  | pool (p q : Pool) : Evolves (.pool p) (.pool q)
  | bench (b b' : Bench) : Evolves (.bench b) (.bench b')

namespace Contract.Evolves

variable {k k' l : Contract}

theorem refl (k : Contract) : k.Evolves k := by
  cases k with
  | token t => exact .token (.nil t)
  | listing t => exact .listing (.nil t)
  | protocol p => exact .protocol (.refl p)
  | pool p => exact .pool p p
  | bench b => exact .bench b b

theorem trans (h : k.Evolves k') (h' : k'.Evolves l) : k.Evolves l := by
  cases h with
  | token h =>
    cases h' with
    | token h' => exact .token (h.append h')
  | listing h =>
    cases h' with
    | listing h' => exact .listing (h.append h')
  | protocol h =>
    cases h' with
    | protocol h' => exact .protocol (h.trans h')
  | pool => cases h'; exact .pool ..
  | bench => cases h'; exact .bench ..

end Contract.Evolves

theorem Contract.exists_after_of_rel {o o' : Option Contract} {k : Contract} (h : Option.Rel Contract.Evolves o o')
    (hk : o = some k) : ∃ k', o' = some k' ∧ k.Evolves k' := by
  cases h with
  | none => cases hk
  | some hr =>
    cases hk
    exact ⟨_, rfl, hr⟩

theorem Contract.exists_before_of_rel {o o' : Option Contract} {k' : Contract} (h : Option.Rel Contract.Evolves o o')
    (hk : o' = some k') : ∃ k, o = some k ∧ k.Evolves k' := by
  cases h with
  | none => cases hk
  | some hr =>
    cases hk
    exact ⟨_, rfl, hr⟩

/-- No time passes, and each contract evolves. -/
structure Chain.Evolves (c d : Chain) : Prop where
  clock : d.clock = c.clock
  contracts : ∀ a, Option.Rel Contract.Evolves (c.find? a) (d.find? a)

namespace Chain.Evolves

variable {c d : Chain} {a : Address} {k k' : Contract}

theorem refl (c : Chain) : c.Evolves c := by
  refine ⟨rfl, fun a => ?_⟩
  cases c.find? a with
  | none => exact .none
  | some k => exact .some (.refl k)

theorem now (h : c.Evolves d) : d.now = c.now := by
  rw [Chain.now, Chain.now, h.clock]

theorem exists_of_find? (h : c.Evolves d) (hk : c.find? a = some k) : ∃ k', d.find? a = some k' ∧ k.Evolves k' :=
  Contract.exists_after_of_rel (h.contracts a) hk

theorem exists_before (h : c.Evolves d) (hk : d.find? a = some k') : ∃ k, c.find? a = some k ∧ k.Evolves k' :=
  Contract.exists_before_of_rel (h.contracts a) hk

/-- What is written has to come out of what was there in the beginning. -/
theorem set (h : c.Evolves d) (hk : c.find? a = some k) (hr : k.Evolves k') : c.Evolves (d.set a k') := by
  refine ⟨h.clock, fun b => ?_⟩
  by_cases hb : b = a
  · subst hb
    obtain ⟨l, hl, -⟩ := h.exists_of_find? hk
    rw [hk, find?_set_self hl]
    exact .some hr
  · rw [find?_set_of_ne hb]
    exact h.contracts b

end Chain.Evolves

/-! ### Pieces of work -/

namespace Work

variable {α β : Type} {c : Chain} {a self caller : Address} {k k' : Contract} {n : Nat}

/-- Whatever the session has made of the chain `c`, the work makes it evolve further. -/
def Keeps (c : Chain) (w : Work α) : Prop := ∀ s x t, w s = .ok (x, t) → c.Evolves s.chain → c.Evolves t.chain

theorem Keeps.pure (x : α) : Keeps c (Pure.pure x : Work α) := by
  intro s y t h hs
  cases h
  exact hs

theorem Keeps.throw (e : Failure) : Keeps c (MonadExcept.throw e : Work α) := by
  intro s y t h
  cases h

theorem Keeps.bind {w : Work α} {k : α → Work β} (hw : Keeps c w) (hk : ∀ x, Keeps c (k x)) : Keeps c (w >>= k) := by
  intro s y t h hs
  obtain ⟨x, u, hx, hy⟩ := bind_eq_ok.1 h
  exact hk x u y t hy (hw s x u hx hs)

/-- A computation on its own is taken to have succeeded. -/
theorem Keeps.lift {o : Outcome α} {k : α → Work β} (hk : ∀ x, o = .ok x → Keeps c (k x)) :
    Keeps c ((liftM o : Work α) >>= k) := by
  intro s y t h hs
  obtain ⟨x, u, hx, hy⟩ := bind_eq_ok.1 h
  obtain ⟨x', ho, e⟩ := lift_eq_ok.1 hx
  cases e
  exact hk x ho s y t hy hs

/-- What is read has come out of what was there in the beginning. -/
theorem Keeps.chain {k : Chain → Work β} (hk : ∀ d, c.Evolves d → Keeps c (k d)) : Keeps c (Work.chain >>= k) := by
  intro s y t h hs
  obtain ⟨d, u, hd, hy⟩ := bind_eq_ok.1 h
  cases hd
  exact hk s.chain hs s y t hy hs

theorem Keeps.announce (es : List Event) : Keeps c (announce a es) := by
  intro s y t h hs
  cases h
  exact hs

theorem Keeps.save (hk : c.find? a = some k) (hr : k.Evolves k') : Keeps c (save a k') := by
  intro s y t h hs
  cases h
  exact hs.set hk hr

theorem Keeps.commit (hk : c.find? a = some k) (hr : k.Evolves k') (es : List Event) : Keeps c (commit a k' es) :=
  .bind (.save hk hr) fun _ => .announce es

theorem Keeps.onToken {entry : Entry} (call : Token.Call) : Keeps c (onToken entry a fun t => call.apply t caller) := by
  refine .chain fun d hd => .lift fun k' hk' => ?_
  obtain ⟨k, hk, hr⟩ := hd.exists_before (Chain.callee_eq_ok.1 hk')
  cases k' with
  | token t => exact .lift fun x hx => .commit hk (hr.trans (.token (Token.serves_of_apply hx))) _
  | listing t => exact .lift fun x hx => .commit hk (hr.trans (.listing (Token.serves_of_apply hx))) _
  | protocol | pool | bench => exact .throw _

theorem Keeps.pay {token recipient : Address} : Keeps c (pay token self recipient n) :=
  .onToken (.transfer recipient n)

theorem Keeps.draw {token owner : Address} : Keeps c (draw token self owner n) :=
  .onToken (.transferFrom owner self n)

theorem Keeps.mint {token recipient : Address} : Keeps c (mint token self recipient n) :=
  .onToken (.mint recipient n)

theorem Keeps.burn {token holder : Address} : Keeps c (burn token self holder n) :=
  .onToken (.burnFrom holder n)

end Work

/-! ### Entries -/

section Entries

open Work

variable {c : Chain} {self caller recipient : Address} {n least burn payout : Nat} {leg : Leg}

/-- The work at `self` on a protocol that comes out of the one that was there. -/
theorem Protocol.runPayClaim_keeps {k : Contract} {p : Protocol} (hk : c.find? self = some k) (hp : k.Evolves (.protocol p)) :
    Keeps c (p.runPayClaim self caller recipient n) :=
  .lift fun _ hq => .bind (.save hk (hp.trans (.protocol (payClaim_sameTerms hq)))) fun _ => .pay

theorem Work.askForPayment_keeps {controller : Address} : Keeps c (askForPayment controller self recipient n) := by
  refine .chain fun d hd => .lift fun k' hk' => ?_
  obtain ⟨k, hk, hr⟩ := hd.exists_before (Chain.callee_eq_ok.1 hk')
  cases k' with
  | protocol p => exact Protocol.runPayClaim_keeps hk hr
  | token | listing | pool | bench => exact .throw _

namespace Pool

variable {k : Contract} {p : Pool}

theorem runDeposit_keeps (hk : c.find? self = some k) (hp : k.Evolves (.pool p)) : Keeps c (runDeposit self caller p n) :=
  .lift fun _ _ => .bind (.save hk (hp.trans (.pool ..))) fun _ => .bind .draw fun _ => .announce _

theorem runWithdraw_keeps (hk : c.find? self = some k) (hp : k.Evolves (.pool p)) : Keeps c (runWithdraw self caller p n) :=
  .lift fun _ _ => .bind (.save hk (hp.trans (.pool ..))) fun _ => .bind .pay fun _ => .announce _

theorem runClaim_keeps (hk : c.find? self = some k) (hp : k.Evolves (.pool p)) : Keeps c (runClaim self caller p) := by
  refine .lift fun r _ => .bind (.save hk (hp.trans (.pool ..))) fun _ => ?_
  split
  · exact .pure _
  · exact .lift fun _ _ => .bind askForPayment_keeps fun _ => .bind (.announce _) fun _ => .pure _

theorem runClose_keeps (hk : c.find? self = some k) (hp : k.Evolves (.pool p)) : Keeps c (runClose self caller p) :=
  .lift fun _ _ => .commit hk (hp.trans (.pool ..)) _

theorem runBear_keeps (hk : c.find? self = some k) (hp : k.Evolves (.pool p)) :
    Keeps c (runBear self caller p burn payout) := by
  refine .lift fun r _ => ?_
  dsimp only
  split
  · exact .pure _
  · exact .bind (.commit hk (hp.trans (.pool ..)) _) fun _ => .pure _

theorem runIndexRewards_keeps (hk : c.find? self = some k) (hp : k.Evolves (.pool p)) :
    Keeps c (runIndexRewards self caller p n) := by
  refine .lift fun r _ => ?_
  dsimp only
  split
  · exact .pure _
  · exact .bind (.commit hk (hp.trans (.pool ..)) _) fun _ => .pure _

theorem Call.run_keeps (hk : c.find? self = some (.pool p)) (call : Pool.Call) : Keeps c (call.run self caller p) := by
  have hp := Contract.Evolves.refl (.pool p)
  cases call with
  | setController => exact .lift fun _ _ => .bind (.save hk (.pool ..)) fun _ => .pure _
  | deposit => exact .bind (runDeposit_keeps hk hp) fun _ => .pure _
  | withdraw => exact .bind (runWithdraw_keeps hk hp) fun _ => .pure _
  | claim => exact .bind (runClaim_keeps hk hp) fun _ => .pure _
  | close => exact .bind (runClose_keeps hk hp) fun _ => .pure _
  | bear => exact .bind (runBear_keeps hk hp) fun _ => .pure _
  | indexRewards => exact .bind (runIndexRewards_keeps hk hp) fun _ => .pure _

end Pool

theorem Work.askToBear_keeps {pool : Address} : Keeps c (askToBear pool self burn payout) := by
  refine .chain fun d hd => .lift fun k' hk' => ?_
  obtain ⟨k, hk, hr⟩ := hd.exists_before (Chain.callee_eq_ok.1 hk')
  cases k' with
  | pool p => exact Pool.runBear_keeps hk hr
  | token | listing | protocol | bench => exact .throw _

theorem Work.askToIndex_keeps {pool : Address} : Keeps c (askToIndex pool self n) := by
  refine .chain fun d hd => .lift fun k' hk' => ?_
  obtain ⟨k, hk, hr⟩ := hd.exists_before (Chain.callee_eq_ok.1 hk')
  cases k' with
  | pool p => exact Pool.runIndexRewards_keeps hk hr
  | token | listing | protocol | bench => exact .throw _

namespace Protocol

variable {p : Protocol}

theorem runMint_keeps (hp : c.find? self = some (.protocol p)) : Keeps c (runMint self caller p leg n least) := by
  refine .chain fun d _ => .lift fun r hr => .bind (.save hp (.protocol (mint_sameTerms hr))) fun _ => ?_
  exact .bind .draw fun _ => .bind .mint fun _ => .bind (.announce _) fun _ => .pure _

theorem runRedeem_keeps (hp : c.find? self = some (.protocol p)) : Keeps c (runRedeem self caller p leg n least) := by
  refine .chain fun d _ => .lift fun r hr => .bind (.save hp (.protocol (redeem_sameTerms hr))) fun _ => ?_
  exact .bind .burn fun _ => .bind .pay fun _ => .bind (.announce _) fun _ => .pure _

theorem runRebalance_keeps (hp : c.find? self = some (.protocol p)) : Keeps c (runRebalance self caller p n) := by
  refine .lift fun _ _ => .lift fun _ _ => .lift fun pool _ => .chain fun d _ => .lift fun plan _ => ?_
  cases plan with
  | none => exact .pure _
  | some plan =>
    refine .bind askToBear_keeps fun loss => ?_
    dsimp only
    split
    · exact .pure _
    · refine .lift fun supplyF _ => .bind (.save hp (.protocol (sameTerms_of_eq rfl))) fun _ => .bind .burn fun _ => ?_
      exact .chain fun _ _ => .lift fun _ _ => .lift fun _ _ => .bind (.announce _) fun _ => .pure _

theorem runHarvest_keeps (hp : c.find? self = some (.protocol p)) : Keeps c (runHarvest self caller p n) := by
  refine .lift fun _ _ => .lift fun _ _ => .lift fun pool _ => .lift fun share _ => ?_
  split
  · exact .pure _
  · refine .bind askToIndex_keeps fun indexed => ?_
    split
    · exact .pure _
    · refine .lift fun q hq => .bind (.save hp (.protocol (addReserve_sameTerms hq))) fun _ => ?_
      exact .bind .draw fun _ => .bind (.announce _) fun _ => .pure _

theorem runWithdrawTreasury_keeps (hp : c.find? self = some (.protocol p)) :
    Keeps c (runWithdrawTreasury self caller p recipient n) :=
  .lift fun _ hq => .bind (.save hp (.protocol (withdrawTreasury_sameTerms hq))) fun _ => .bind .pay fun _ => .announce _

theorem runRecapitalize_keeps (hp : c.find? self = some (.protocol p)) : Keeps c (runRecapitalize self caller p n) := by
  refine .lift fun q hq => .bind (.save hp (.protocol (recapitalize_sameTerms hq))) fun _ => ?_
  exact .bind .draw fun _ => .chain fun _ _ => .lift fun _ _ => .announce _

theorem runBootstrap_keeps (hp : c.find? self = some (.protocol p)) : Keeps c (runBootstrap self caller p n) := by
  refine .chain fun d _ => .lift fun q hq => .bind (.save hp (.protocol (bootstrap_sameTerms hq))) fun _ => ?_
  exact .bind .draw fun _ => .bind .mint fun _ => .bind .mint fun _ => .announce _

/-- But for the calls on the books. -/
theorem Call.run_keeps (hp : c.find? self = some (.protocol p)) {call : Protocol.Call} {now : Nat}
    (hc : call.onBooks now p caller = none) : Keeps c (call.run self caller p) := by
  cases call with
  | withdrawTreasury => exact .bind (runWithdrawTreasury_keeps hp) fun _ => .pure _
  | recapitalize => exact .bind (runRecapitalize_keeps hp) fun _ => .pure _
  | bootstrap => exact .bind (runBootstrap_keeps hp) fun _ => .pure _
  | mint => exact .bind (runMint_keeps hp) fun _ => .pure _
  | redeem => exact .bind (runRedeem_keeps hp) fun _ => .pure _
  | rebalance => exact .bind (runRebalance_keeps hp) fun _ => .pure _
  | harvest => exact .bind (runHarvest_keeps hp) fun _ => .pure _
  | payClaim => exact .bind (runPayClaim_keeps hp (.refl _)) fun _ => .pure _
  | setPool | grantRole | revokeRole | renounceRole | setFees | setFeedConfig | updatePrice => cases hc

end Protocol

end Entries

/-! ### Calls -/

open Work

theorem Protocol.Call.run_onBooks {c : Chain} {self caller : Address} {p : Protocol} {call : Protocol.Call}
    {o : Outcome (Protocol × List Event)} {es : List (Address × Event)} (h : call.onBooks c.now p caller = some o) :
    call.run self caller p ⟨c, es⟩ = runOnBooks self o ⟨c, es⟩ := by
  cases call <;> cases h <;> rfl

namespace Chain

variable {c : Chain} {caller target a : Address} {call : Call} {r : Receipt}

/-- A call that succeeds is carried out by the contract that it is for. -/
theorem exists_run (h : c.call caller target call = .ok r) :
    ∃ s, Chain.run caller target call ⟨c, []⟩ = .ok (r.reply, s) ∧ r.chain = s.chain := by
  obtain ⟨⟨reply, s⟩, hrun, e⟩ := Outcome.bind_eq_ok.1 h
  cases e
  exact ⟨s, hrun, rfl⟩

theorem evolves_of_keeps {α : Type} {w : Work α} {x : α} {s : Session} {es : List (Address × Event)} (hw : Keeps c w)
    (h : w ⟨c, es⟩ = .ok (x, s)) : c.Evolves s.chain := hw _ x s h (.refl c)

/-- What becomes of a call on the books. -/
theorem call_of_onBooks {p : Protocol} {b : Protocol.Call} {o : Outcome (Protocol × List Event)}
    (hp : c.find? target = some (.protocol p)) (hb : b.onBooks c.now p caller = some o) : c.call caller target (.protocol b) =
      o.map fun r => ⟨c.set target (.protocol r.1), .nothing, c.grouped (r.2.map fun e => (target, e))⟩ := by
  have hrun : Chain.run caller target (.protocol b) ⟨c, []⟩ = Protocol.runOnBooks target o ⟨c, []⟩ := by
    simp only [Chain.run, bind_apply, lift_apply, chain_apply, callee_eq_ok.2 hp, Outcome.ok_bind, bind_assoc]
    exact Protocol.Call.run_onBooks hb
  rw [Chain.call, StateT.run, hrun]
  cases o <;> rfl

/-- The call is for a protocol, and on its books. -/
def OnBooks (c : Chain) (caller target : Address) (call : Call) : Prop :=
  ∃ p b o, c.find? target = some (.protocol p) ∧ call = .protocol b ∧ b.onBooks c.now p caller = some o

/-- A call writes the books of one protocol, or leaves the terms of all of them as they are. -/
theorem call_cases (h : c.call caller target call = .ok r) :
    (∃ p b q es, c.find? target = some (.protocol p) ∧ call = .protocol b ∧
      b.onBooks c.now p caller = some (.ok (q, es)) ∧ r.chain = c.set target (.protocol q)) ∨
    (¬ c.OnBooks caller target call ∧ c.Evolves r.chain) := by
  by_cases hb : c.OnBooks caller target call
  · obtain ⟨p, b, o, hp, rfl, ho⟩ := hb
    rw [call_of_onBooks hp ho] at h
    obtain ⟨⟨q, es⟩, rfl, rfl⟩ := Outcome.map_eq_ok.1 h
    exact Or.inl ⟨p, b, q, es, hp, rfl, ho, rfl⟩
  refine Or.inr ⟨hb, ?_⟩
  obtain ⟨s, hrun, hchain⟩ := exists_run h
  rw [hchain]
  simp only [Chain.run, bind_apply, lift_apply, chain_apply, Outcome.ok_bind, bind_assoc, Outcome.bind_eq_ok,
    callee_eq_ok] at hrun
  obtain ⟨k, hk, hrun⟩ := hrun
  cases k with
  | token t =>
    cases call with
    | token b =>
      refine evolves_of_keeps (.lift fun x hx => ?_) hrun
      exact .bind (.commit hk (.token (Token.serves_of_apply hx)) _) fun _ => .pure _
    | protocol | pool | bench => cases hrun
  | listing t =>
    cases call with
    | token b =>
      refine evolves_of_keeps ?_ hrun
      dsimp only
      split
      · refine .lift fun x hx => ?_
        exact .bind (.commit hk (.listing (Token.serves_of_apply hx)) _) fun _ => .pure _
      · exact .bind (.throw _) fun _ => .lift fun x hx =>
          .bind (.commit hk (.listing (Token.serves_of_apply hx)) _) fun _ => .pure _
    | protocol | pool | bench => cases hrun
  | protocol p =>
    cases call with
    | protocol b =>
      have hnone : b.onBooks c.now p caller = none :=
        Option.eq_none_iff_forall_ne_some.2 fun o ho => hb ⟨p, b, o, hk, rfl, ho⟩
      exact evolves_of_keeps (Protocol.Call.run_keeps hk hnone) hrun
    | token | pool | bench => cases hrun
  | pool p =>
    cases call with
    | pool b => exact evolves_of_keeps (Pool.Call.run_keeps hk b) hrun
    | token | protocol | bench => cases hrun
  | bench b =>
    cases call with
    | bench d =>
      refine evolves_of_keeps (.lift fun _ _ => ?_) hrun
      exact .bind (.save hk (.bench ..)) fun _ => .pure _
    | token | protocol | pool => cases hrun

/-! ### Runs -/

/-- A step that is no call, or a call that fails, lets time pass at most; the others are as in `call_cases`. -/
theorem step_cases (c : Chain) (s : Step) :
    (∃ caller target p b q es, s = .call caller target (.protocol b) ∧ c.find? target = some (.protocol p) ∧
      b.onBooks c.now p caller = some (.ok (q, es)) ∧ c.step s = c.set target (.protocol q)) ∨
    (∀ a, Option.Rel Contract.Evolves (c.find? a) ((c.step s).find? a)) := by
  cases s with
  | wait ms =>
    refine Or.inr fun a => ?_
    have : (c.step (.wait ms)).find? a = c.find? a := by
      simp only [step, advance]
      split <;> rfl
    rw [this]
    exact (Evolves.refl c).contracts a
  | call caller target call =>
    simp only [step, apply]
    cases h : c.call caller target call with
    | error e => exact Or.inr (Evolves.refl c).contracts
    | ok r =>
      rcases call_cases h with ⟨p, b, q, es, hp, rfl, hb, hr⟩ | ⟨-, hr⟩
      · exact Or.inl ⟨caller, target, p, b, q, es, rfl, hp, hb, hr⟩
      · exact Or.inr hr.contracts

/-- Over a run, every contract but a protocol evolves. -/
theorem exists_after_evolves {k : Contract} (hk : c.find? a = some k) (hp : ∀ p, k ≠ .protocol p) (steps : List Step) :
    ∃ k', (c.after steps).find? a = some k' ∧ k.Evolves k' := by
  induction steps generalizing c k with
  | nil => exact ⟨k, hk, .refl k⟩
  | cons s steps ih =>
    obtain ⟨k', hk', hr⟩ : ∃ k', (c.step s).find? a = some k' ∧ k.Evolves k' := by
      rcases step_cases c s with ⟨caller, target, p, b, q, es, -, hfind, -, hstep⟩ | hall
      · have ha : a ≠ target := by
          rintro rfl
          exact hp p (Option.some.inj (hk.symm.trans hfind))
        exact ⟨k, by rw [hstep, find?_set_of_ne ha, hk], .refl k⟩
      · exact Contract.exists_after_of_rel (hall a) hk
    have hp' : ∀ p, k' ≠ .protocol p := by
      rintro p rfl
      cases hr
      exact hp _ rfl
    obtain ⟨l, hl, hr'⟩ := ih hk' hp'
    exact ⟨l, hl, hr.trans hr'⟩

/-- A token on a chain is at all times what calls of its own have made of it. -/
theorem exists_token_after {t : Token} (h : c.find? a = some (.token t)) (steps : List Step) :
    ∃ attempts, (c.after steps).find? a = some (.token (t.after attempts)) := by
  obtain ⟨k, hk, hr⟩ := exists_after_evolves h (by simp) steps
  cases hr with
  | token hs => exact ⟨_, hs.after_eq ▸ hk⟩

theorem exists_step_of_lasting {P : Protocol → Prop} (hP : Protocol.Lasting P) {p : Protocol}
    (hp : c.find? a = some (.protocol p)) (h : P p) (s : Step) : ∃ q, (c.step s).find? a = some (.protocol q) ∧ P q := by
  rcases step_cases c s with ⟨caller, target, p', b, q, es, -, hfind, hb, hstep⟩ | hall
  · rw [hstep]
    by_cases htarget : a = target
    · subst htarget
      cases hp.symm.trans hfind
      exact ⟨q, find?_set_self hp, hP.books (Protocol.Call.books_of_onBooks hb) h⟩
    · exact ⟨p, by rw [find?_set_of_ne htarget, hp], h⟩
  · obtain ⟨k, hk, hr⟩ := Contract.exists_after_of_rel (hall a) hp
    cases hr with
    | @protocol _ q hsame => exact ⟨q, hk, hP.terms hsame h⟩

/-- Whatever happens on the chain, a protocol keeps what lasts. -/
theorem exists_after_of_lasting {P : Protocol → Prop} (hP : Protocol.Lasting P) {p : Protocol}
    (hp : c.find? a = some (.protocol p)) (h : P p) (steps : List Step) :
    ∃ q, (c.after steps).find? a = some (.protocol q) ∧ P q := by
  induction steps generalizing c p with
  | nil => exact ⟨p, hp, h⟩
  | cons s steps ih =>
    obtain ⟨q, hq, hlast⟩ := exists_step_of_lasting hP hp h s
    exact ih hq hlast

theorem now_le_step (c : Chain) (s : Step) : c.now ≤ (c.step s).now := by
  cases s with
  | wait ms =>
    simp only [step, advance]
    split
    · exact Nat.div_le_div_right (Nat.le_add_right _ _)
    · exact le_rfl
  | call caller target call =>
    simp only [step, apply]
    cases h : c.call caller target call with
    | error e => exact le_rfl
    | ok r =>
      rcases call_cases h with ⟨p, b, q, es, -, -, -, hr⟩ | ⟨-, hr⟩
      · exact (congrArg Chain.now hr).ge
      · exact hr.now.ge

end Chain

end SplitReserve
