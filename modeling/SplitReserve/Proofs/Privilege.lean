import SplitReserve.Proofs.Pool.Counts
import SplitReserve.Proofs.Roles
import SplitReserve.Proofs.World.Census

/-!
# Those without privileges

An account without a role, that owns neither a token nor the pool and mints no token, changes nothing that is the officers' to
change, whatever it calls: not the `rights` of the protocol, the pool and the tokens, and not the deposit of anyone else.  Nor
does it lower what others have, but for what it is paid, withdraws, or is allowed to spend (`World.Taken`).  The contracts act
for such callers all the time, and with privileges of their own; so the proof goes through the moves, which say what the
contracts do then.
-/

namespace SplitReserve

/-! ### Rights -/

/-- What the owner of a token settles. -/
structure Token.Rights where
  owner : Address
  isMinter : Address → Bool

def Token.rights (t : Token) : Token.Rights := ⟨t.owner, t.isMinter⟩

/-- What the officers of a protocol settle. -/
structure Protocol.Rights where
  roles : Roles
  fees : FeeSchedule
  feed : PriceFeed
  reserveToken : Address
  fToken : Address
  xToken : Address
  pool : Option Address
  bootstrapped : Bool
  /-- What has been taken out of the treasury. -/
  withdrawn : Nat

def Protocol.rights (p : Protocol) : Protocol.Rights :=
  ⟨p.roles, p.fees, p.feed, p.reserveToken, p.fToken, p.xToken, p.pool, p.bootstrapped, p.treasury.withdrawn⟩

/-- What the owner of a pool and its controller settle. -/
structure Pool.Rights where
  owner : Address
  controller : Option Address
  token : Address
  scale : Nat
  index : Nat

def Pool.rights (p : Pool) : Pool.Rights := ⟨p.owner, p.controller, p.token, p.scale, p.index⟩

/-! ### Tokens -/

namespace Token

variable {t t' : Token} {caller a : Address} {es : List Event}

private theorem owner_of_move {b : Address} {n : Nat} (h : t.move a b n = .ok (t', es)) : t'.owner = t.owner := by
  simp only [move, Outcome.bind_eq_ok] at h
  obtain ⟨-, -, received, -, h⟩ := h
  cases h
  rfl

private theorem owner_of_destroy {n : Nat} (h : t.destroy a n = .ok (t', es)) : t'.owner = t.owner := by
  simp only [destroy, Outcome.bind_eq_ok] at h
  obtain ⟨-, -, supply, -, h⟩ := h
  cases h
  rfl

/-- Only the calls that are the owner's change the rights. -/
theorem Call.rights_eq {c : Call} (hc : ¬ c.Managing) (h : c.apply t caller = .ok (t', es)) : t'.rights = t.rights := by
  have howner : t'.owner = t.owner := by
    cases c with
    | transfer => exact owner_of_move h
    | approve =>
      cases h
      rfl
    | transferFrom owner recipient n =>
      simp only [Call.apply, Token.transferFrom, Outcome.bind_eq_ok] at h
      obtain ⟨-, -, ⟨u, moved⟩, hm, h⟩ := h
      cases h
      change u.owner = t.owner
      exact owner_of_move hm
    | mint recipient n =>
      simp only [Call.apply, Token.mint, Outcome.bind_eq_ok] at h
      obtain ⟨-, -, balance, -, supply, -, h⟩ := h
      cases h
      rfl
    | burn => exact owner_of_destroy h
    | burnFrom holder n =>
      simp only [Call.apply, Token.burnFrom, Outcome.bind_eq_ok] at h
      obtain ⟨-, -, h⟩ := h
      exact owner_of_destroy h
    | addMinter | removeMinter | transferOwnership => exact absurd trivial hc
  rw [rights, rights, howner, funext fun a => Call.isMinter hc h a]

/-- Managing is for the owner. -/
theorem Call.not_managing {c : Call} (ho : t.owner ≠ caller) (h : c.apply t caller = .ok (t', es)) : ¬ c.Managing := by
  cases c with
  | addMinter | removeMinter | transferOwnership =>
    simp only [Call.apply, Token.addMinter, Token.removeMinter, Token.transferOwnership, requireOwner, Outcome.bind_eq_ok,
      require_eq_ok] at h
    obtain ⟨-, hc, -⟩ := h
    exact absurd hc.symm ho
  | transfer | approve | transferFrom | mint | burn | burnFrom => exact id

/-- Whoever is no owner and no minter takes from another only what that one allows. -/
theorem Call.le_balance_or_spent {c : Call} (ho : t.owner ≠ caller) (hm : t.isMinter caller = false)
    (h : c.apply t caller = .ok (t', es)) (ha : a ≠ caller) :
    t.balance a ≤ t'.balance a ∨ ∃ recipient n, c = .transferFrom a recipient n ∧ Flow t t' (some a) (some recipient) n ∧
      n ≤ t.allowance a caller ∧ t'.allowance a caller + n = t.allowance a caller := by
  have hne : some caller ≠ some a := by simpa using ha.symm
  cases c with
  | transfer recipient n => exact Or.inl ((transfer_flow h).1.le_balance hne)
  | approve =>
    cases h
    exact Or.inl le_rfl
  | transferFrom owner recipient n =>
    obtain ⟨hf, -, hn, hallowed⟩ := transferFrom_flow h
    by_cases hoa : owner = a
    · subst hoa
      refine Or.inr ⟨recipient, n, rfl, hf, hn, ?_⟩
      rw [hallowed, if_pos ⟨rfl, rfl⟩, Nat.sub_add_cancel hn]
    · exact Or.inl (hf.le_balance (by simpa using hoa))
  | mint => exact absurd (mint_flow h).2.1 (by simp [hm])
  | burn n => exact Or.inl ((destroy_flow h).1.le_balance hne)
  | burnFrom => exact absurd (burnFrom_flow h).2.1 (by simp [hm])
  | addMinter | removeMinter | transferOwnership => exact absurd trivial (Call.not_managing ho h)

/-- From `t` to `t'`, the rights stay as they are, and only those with `P` have less, besides `u`. -/
structure Spares (t t' : Token) (u : Address) (P : Address → Prop) : Prop where
  rights : t'.rights = t.rights
  balance : ∀ a ≠ u, t.balance a ≤ t'.balance a ∨ P a

variable {u : Address} {P : Address → Prop}

theorem Spares.refl (t : Token) : Spares t t u P := ⟨rfl, fun _ _ => Or.inl le_rfl⟩

/-- Tokens that flow away are those of `u`, or of someone with `P`. -/
theorem Flow.spares {source target : Option Address} {n : Nat} (h : Flow t t' source target n) (hr : t'.rights = t.rights)
    (hs : ∀ a ≠ u, source = some a → P a) : Spares t t' u P := by
  refine ⟨hr, fun a ha => ?_⟩
  by_cases hsource : source = some a
  · exact Or.inr (hs a ha hsource)
  · exact Or.inl (h.le_balance hsource)

/-- What `u` allowed is drawn from nobody else. -/
theorem spares_of_transferFrom {n : Nat} (h : t.transferFrom caller u a n = .ok (t', es)) : Spares t t' u P := by
  refine (transferFrom_flow h).1.spares (Call.rights_eq (c := .transferFrom ..) id h) ?_
  rintro b hb ⟨⟩
  exact absurd rfl hb

/-- What `caller` pays is taken from `caller`. -/
theorem spares_of_transfer {n : Nat} (h : t.transfer caller a n = .ok (t', es)) (hP : P caller) : Spares t t' u P := by
  refine (transfer_flow h).1.spares (Call.rights_eq (c := .transfer ..) id h) ?_
  rintro b - ⟨⟩
  exact hP

end Token

/-! ### The protocol -/

namespace Protocol

variable {p p' : Protocol} {caller : Address} {now owed amount : Nat} {leg : Leg} {q : Priced} {es : List Event}

/-- Nothing on the books follows the call of one who has no role. -/
theorem Call.onBooks_eq {c : Call} (hr : p.roles.Lacks caller) (h : c.onBooks now p caller = some (.ok (p', es))) :
    p' = p := by
  cases Call.books_of_onBooks h with
  | setPool hc | grantRole hc | revokeRole hc | setFees hc | setFeedConfig hc =>
    rw [hr .admin] at hc
    cases hc
  | renounceRole hroles =>
    rw [hr.revoke_eq] at hroles
    cases hroles
    rfl
  | updatePrice hc =>
    rw [hr .oracle, hr .admin] at hc
    rcases hc with hc | hc <;> cases hc

/-- A trade writes the treasury, the reserve and a supply. -/
private theorem rights_of_books {treasury : Treasury} {reserve n : Nat} (ht : treasury.withdrawn = p.treasury.withdrawn)
    (h : p' = { p with treasury, reserve }.setSupply leg n) : p'.rights = p.rights := by
  rw [h, rights, rights, ← ht]
  cases leg <;> rfl

theorem Mints.rights_eq (h : Mints p p' owed leg amount q) : p'.rights = p.rights :=
  rights_of_books (Treasury.settle_withdrawn h.settled) h.books

theorem Redeems.rights_eq (h : Redeems p p' owed leg amount q) : p'.rights = p.rights :=
  rights_of_books (Treasury.settle_withdrawn h.settled) h.books

end Protocol

/-! ### The pool -/

namespace Pool

variable {p p' : Pool} {a : Address} {s : Position} {n k : Nat}

/-- From `p` to `p'`, the rights stay as they are, and so do the deposits of all but `a`. -/
structure Spares (p p' : Pool) (a : Address) : Prop where
  rights : p'.rights = p.rights
  position : ∀ b ≠ a, p'.position b = p.position b
  isOpen : ∀ b ≠ a, p'.isOpen b = p.isOpen b

theorem Spares.refl (p : Pool) (a : Address) : Spares p p a := ⟨rfl, fun _ _ => rfl, fun _ _ => rfl⟩

theorem Rewrites.spares (h : Rewrites p p' a s) (howner : p'.owner = p.owner) (hopen : ∀ b ≠ a, p'.isOpen b = p.isOpen b) :
    Spares p p' a := by
  refine ⟨?_, fun b hb => ?_, hopen⟩
  · rw [Pool.rights, Pool.rights, howner, h.controller, h.token, h.scale, h.index]
  · rw [h.position, if_neg hb]

theorem Sound.deposit_spares (hp : p.Sound) (h : p.deposit a n = .ok (p', k)) : Spares p p' a := by
  refine (hp.deposit_ok h).1.spares ?_ fun b hb => ?_
  · simp only [Pool.deposit, Outcome.bind_eq_ok] at h
    obtain ⟨-, -, -, -, s, -, shares, -, -, -, held, -, total, -, h⟩ := h
    cases h
    change (openPosition _ a).owner = p.owner
    unfold openPosition
    split <;> rfl
  · rw [isOpen, (deposit_counts h).1]
    exact (isOpen_openPosition p a b).trans (if_neg hb)

theorem Sound.withdraw_spares (hp : p.Sound) (h : p.withdraw a n = .ok (p', k)) : Spares p p' a := by
  refine (hp.withdraw_ok h).1.spares ?_ fun b _ => ?_
  · simp only [Pool.withdraw, Outcome.bind_eq_ok] at h
    obtain ⟨-, -, s, -, worth, -, -, -, h⟩ := h
    split at h
    all_goals
      simp only [Outcome.bind_eq_ok] at h
      obtain ⟨shares, -, left, -, h⟩ := h
      cases h
      rfl
  · rw [isOpen, (withdraw_counts h).1, isOpen]

theorem Sound.claim_spares (hp : p.Sound) (h : p.claim a = .ok (p', n)) : Spares p p' a := by
  obtain ⟨-, -, -, s, hr, -⟩ := hp.claim_ok h
  refine hr.spares ?_ fun b _ => ?_
  · unfold Pool.claim at h
    split at h
    · cases h
      rfl
    · simp only [Outcome.bind_eq_ok] at h
      obtain ⟨s, -, h⟩ := h
      split at h
      · cases h
        rfl
      · simp only [Outcome.bind_eq_ok] at h
        obtain ⟨-, -, h⟩ := h
        cases h
        rfl
  · rw [isOpen, (claim_counts h).1, isOpen]

theorem Sound.close_spares (hp : p.Sound) (h : p.close a = .ok p') : Spares p p' a := by
  refine (hp.close_ok h).1.spares ?_ fun b hb => ?_
  · simp only [Pool.close, Outcome.bind_eq_ok] at h
    obtain ⟨-, -, s, -, -, -, h⟩ := h
    cases h
    rfl
  · rw [isOpen, (close_counts h).2.1]
    exact (Table.get_insert _ _ _ _).trans (if_neg hb)

end Pool

/-! ### Accounts without privileges -/

namespace World

variable {w v : World} {u target : Address} {call : Call} {reply : Reply}

/-- An account without a role, which owns neither the pool nor a token and mints no token.  The controller of the pool and the
pool of the protocol are contracts, so it is neither of them. -/
structure Unprivileged (w : World) (u : Address) : Prop where
  account : u.IsAccount
  roles : w.protocol.roles.Lacks u
  poolOwner : w.pool.owner ≠ u
  owner : ∀ k, (w.coin k).owner ≠ u
  minter : ∀ k, (w.coin k).isMinter u = false

/-- From `w` to `v`, a call by `u` takes tokens of the kind `k` from `a`: the protocol pays `u` what is answered, the pool pays
`u` what it withdraws, or `u` spends what `a` allows. -/
inductive Taken (w v : World) (u : Address) : Address → Call → Reply → Coin → Address → Prop
  | redeemed {leg : Leg} {n least paid : Nat}
      (h : (w.coin .reserve).Flow (v.coin .reserve) (some Launch.protocol) (some u) paid) :
      Taken w v u Launch.protocol (.protocol (.redeem leg n least)) (.amount paid) .reserve Launch.protocol
  | claimed {paid : Nat} (h : (w.coin .reserve).Flow (v.coin .reserve) (some Launch.protocol) (some u) paid) :
      Taken w v u Launch.pool (.pool .claim) (.amount paid) .reserve Launch.protocol
  | withdrawn {n : Nat} (h : (w.coin .f).Flow (v.coin .f) (some Launch.pool) (some u) n) :
      Taken w v u Launch.pool (.pool (.withdraw n)) .nothing .f Launch.pool
  | spent {k : Coin} {a recipient : Address} {n : Nat} (h : (w.coin k).Flow (v.coin k) (some a) (some recipient) n)
      (hn : n ≤ (w.coin k).allowance a u) (ha : (v.coin k).allowance a u + n = (w.coin k).allowance a u) :
      Taken w v u k.address (.token (.transferFrom a recipient n)) (.flag true) k a

/-- From `w` to `v`, a call by `u` leaves to the officers what is theirs, and to the others what they have. -/
structure Spares (w v : World) (u target : Address) (call : Call) (reply : Reply) : Prop where
  protocol : v.protocol.rights = w.protocol.rights
  pool : w.pool.Spares v.pool u
  coin : ∀ k, (w.coin k).Spares (v.coin k) u (w.Taken v u target call reply k)

/-- What an account without privileges achieves is permitted. -/
theorem Unprivileged.permitted (hu : w.Unprivileged u) {r : Receipt} (h : w.chain.call u target call = .ok r) :
    call.Permitted target := by
  rcases call_ok h with ⟨k, c, t, log, rfl, rfl, ht, -⟩ | ⟨c, s, rfl, rfl, hrun, -⟩ | ⟨c, s, rfl, rfl, hrun, -⟩
  · refine ⟨Token.Call.not_managing (hu.owner k) ht, ?_⟩
    rintro - n rfl
    exact absurd (Token.burnFrom_flow ht).2.1 (by simp [hu.minter k])
  · rintro a rfl
    simp only [Protocol.Call.run, Protocol.runOnBooks, Protocol.setPool, Work.bind_apply, Work.lift_apply, bind_assoc,
      Outcome.bind_eq_ok] at hrun
    obtain ⟨_, hp, -⟩ := hrun
    obtain ⟨q, hq, -⟩ := Outcome.map_eq_ok.1 hp
    obtain ⟨_, hadmin, -⟩ := Outcome.bind_eq_ok.1 hq
    exact hu.roles.requireAdmin_ne_ok _ hadmin
  · rintro a rfl
    simp only [Pool.Call.run, Pool.setController, Work.bind_apply, Work.lift_apply, bind_assoc, Outcome.bind_eq_ok,
      require_eq_ok] at hrun
    obtain ⟨_, howner, -⟩ := hrun
    exact hu.poolOwner howner.symm

/-! ### The moves of such an account -/

theorem spares_setCoin {P : Coin → Address → Prop} {k : Coin} {t : Token} (h : ∀ l, (w.coin l).Spares (v.coin l) u (P l))
    (ht : (w.coin k).Spares t u (P k)) (l : Coin) : (w.coin l).Spares ((v.setCoin k t).coin l) u (P l) := by
  rw [coin_setCoin]
  split
  next e =>
    rw [e]
    exact ht
  next => exact h l

namespace Unprivileged

variable {n least paid k : Nat} {leg : Leg} {p : Protocol} {s : Pool} {q : Priced} {t t' : Token} {log log' : List Event}

theorem spares_token (hu : w.Unprivileged u) {k : Coin} {c : Token.Call} (ht : c.apply (w.coin k) u = .ok (t, log)) :
    w.Spares (w.setCoin k t) u k.address (.token c) c.reply := by
  have hcoin : (w.setCoin k t).coin k = t := by rw [coin_setCoin, if_pos rfl]
  refine ⟨rfl, .refl _ _, spares_setCoin (fun _ => .refl _) ⟨?_, fun a ha => ?_⟩⟩
  · exact Token.Call.rights_eq (Token.Call.not_managing (hu.owner k) ht) ht
  · refine (Token.Call.le_balance_or_spent (hu.owner k) (hu.minter k) ht ha).imp_right ?_
    rintro ⟨recipient, n, rfl, hf, hn, hallowed⟩
    exact .spent (by rwa [hcoin]) hn (by rwa [hcoin])

/-- What the protocol draws is the caller's. -/
theorem spares_mint (hp : w.protocol.mint w.now (.ok w.pool.owed) leg n least = .ok (p, q))
    (ht : (w.coin .reserve).transferFrom Launch.protocol u Launch.protocol n = .ok (t, log))
    (ht' : (w.coin leg.coin).mint Launch.protocol u q.out = .ok (t', log')) :
    w.Spares (((w.setProtocol p).setCoin .reserve t).setCoin leg.coin t') u Launch.protocol (.protocol (.mint leg n least))
      (.amount q.out) := by
  refine ⟨(Protocol.mint_ok hp).1.rights_eq, .refl _ _, ?_⟩
  refine spares_setCoin (spares_setCoin (fun _ => .refl _) (Token.spares_of_transferFrom ht)) ?_
  exact (Token.mint_flow ht').1.spares (Token.Call.rights_eq (c := .mint ..) id ht') nofun

theorem spares_redeem (hp : w.protocol.redeem w.now (.ok w.pool.owed) leg n least = .ok (p, q))
    (ht' : (w.coin leg.coin).burnFrom Launch.protocol u n = .ok (t', log'))
    (ht : (w.coin .reserve).transfer Launch.protocol u q.out = .ok (t, log)) :
    w.Spares (((w.setProtocol p).setCoin leg.coin t').setCoin .reserve t) u Launch.protocol (.protocol (.redeem leg n least))
      (.amount q.out) := by
  refine ⟨(Protocol.redeem_ok hp).1.rights_eq, .refl _ _, ?_⟩
  refine spares_setCoin (spares_setCoin (fun _ => .refl _) ?_) ?_
  · refine (Token.burnFrom_flow ht').1.spares (Token.Call.rights_eq (c := .burnFrom ..) id ht') ?_
    rintro a ha ⟨⟩
    exact absurd rfl ha
  · refine Token.spares_of_transfer ht (.redeemed ?_)
    rw [coin_setCoin, if_pos rfl]
    exact (Token.transfer_flow ht).1

theorem spares_deposit (hs : w.pool.Sound) (hp : w.pool.deposit u n = .ok (s, k))
    (ht : (w.coin .f).transferFrom Launch.pool u Launch.pool n = .ok (t, log)) :
    w.Spares ((w.setPool s).setCoin .f t) u Launch.pool (.pool (.deposit n)) .nothing := by
  exact ⟨rfl, hs.deposit_spares hp, spares_setCoin (fun _ => .refl _) (Token.spares_of_transferFrom ht)⟩

theorem spares_withdraw (hs : w.pool.Sound) (hp : w.pool.withdraw u n = .ok (s, k))
    (ht : (w.coin .f).transfer Launch.pool u n = .ok (t, log)) :
    w.Spares ((w.setPool s).setCoin .f t) u Launch.pool (.pool (.withdraw n)) .nothing := by
  refine ⟨rfl, hs.withdraw_spares hp, spares_setCoin (fun _ => .refl _) (Token.spares_of_transfer ht (.withdrawn ?_))⟩
  rw [coin_setCoin, if_pos rfl]
  exact (Token.transfer_flow ht).1

theorem spares_claim (hs : w.pool.Sound) (hp : w.pool.claim u = .ok (s, n)) (hq : w.protocol.payClaim Launch.pool n = .ok p)
    (ht : (w.coin .reserve).transfer Launch.protocol u n = .ok (t, log)) :
    w.Spares (((w.setPool s).setProtocol p).setCoin .reserve t) u Launch.pool (.pool .claim) (.amount n) := by
  refine ⟨?_, hs.claim_spares hp, spares_setCoin (fun _ => .refl _) (Token.spares_of_transfer ht (.claimed ?_))⟩
  · obtain ⟨-, -, rfl⟩ := Protocol.payClaim_ok hq
    rfl
  · rw [coin_setCoin, if_pos rfl]
    exact (Token.transfer_flow ht).1

/-- Officers' calls do not succeed for it, and users' calls are its own affair. -/
theorem spares (hu : w.Unprivileged u) (hs : w.pool.Sound) (hm : w.Move u target call reply v) :
    w.Spares v u target call reply := by
  cases hm with
  | token ht => exact hu.spares_token ht
  | books hp =>
    rw [Protocol.Call.onBooks_eq hu.roles hp]
    exact ⟨rfl, .refl _ _, fun _ => .refl _⟩
  | withdrawTreasury hp | recapitalize hp | bootstrap hp =>
    obtain ⟨_, hadmin, -⟩ := Outcome.bind_eq_ok.1 hp
    exact absurd hadmin (hu.roles.requireAdmin_ne_ok _)
  | noRebalance hk | rebalance hk | noHarvest hk | harvest hk => exact absurd hk (hu.roles.requireKeeper_ne_ok _)
  | mint hp ht ht' => exact spares_mint hp ht ht'
  | redeem hp ht' ht => exact spares_redeem hp ht' ht
  | deposit hp ht => exact spares_deposit hs hp ht
  | withdraw hp ht => exact spares_withdraw hs hp ht
  | claimNothing hp => exact ⟨rfl, hs.claim_spares hp, fun _ => .refl _⟩
  | claim hp _ hq ht => exact spares_claim hs hp hq ht
  | close hp => exact ⟨rfl, hs.close_spares hp, fun _ => .refl _⟩

end Unprivileged

/-! ### In every run -/

/-- In every state of every wired run, every call by an account without privileges fails and changes nothing, or leaves to the
officers what is theirs and to the others what they have. -/
theorem spared_after_wired (steps : List Step) (hs : ∀ s ∈ steps, s.Wired) :
    ∃ w : World, Launch.wired.after steps = w.chain ∧ ∀ (u target : Address) (call : Call), w.Unprivileged u →
      (∃ e, w.chain.call u target call = .error e ∧ w.chain.apply u target call = w.chain) ∨
      ∃ r v, w.chain.call u target call = .ok r ∧ w.chain.apply u target call = v.chain ∧ w.Spares v u target call r.reply := by
  obtain ⟨w, hchain, hw⟩ := exists_after_wired hs
  refine ⟨w, hchain, fun u target call hu => ?_⟩
  unfold Chain.apply
  cases hr : w.chain.call u target call with
  | error e => exact Or.inl ⟨e, rfl, rfl⟩
  | ok r =>
    obtain ⟨v, hv, hm⟩ := move_of_call hw.linked hw.pool hu.account (hu.permitted hr) hr
    exact Or.inr ⟨r, v, rfl, hv, hu.spares hw.pool hm⟩

theorem firstTrades_unprivileged : (ofChain? (Launch.wired.after Launch.firstTrades)).any fun w =>
    decide ((∀ r ∈ [Role.admin, .keeper, .oracle], w.protocol.roles.holds r Launch.alice = false) ∧
      w.pool.owner ≠ Launch.alice ∧
      ∀ k ∈ [Coin.reserve, .f, .x], (w.coin k).owner ≠ Launch.alice ∧ (w.coin k).isMinter Launch.alice = false) := by
  decide +kernel

/-- After a first run, a depositor without privileges withdraws. -/
theorem spared_after_firstTrades :
    (∀ s ∈ Launch.firstTrades, s.Wired) ∧
      ∃ w v : World, Launch.wired.after Launch.firstTrades = w.chain ∧ w.Unprivileged Launch.alice ∧
        w.chain.apply Launch.alice Launch.pool (.pool (.withdraw priceScale)) = v.chain ∧
        w.Spares v Launch.alice Launch.pool (.pool (.withdraw priceScale)) .nothing := by
  obtain ⟨w, hchain, h⟩ := spared_after_wired Launch.firstTrades Launch.firstTrades_wired
  have hu : w.Unprivileged Launch.alice := by
    have hcheck := firstTrades_unprivileged
    rw [hchain, ofChain?_chain] at hcheck
    obtain ⟨hroles, howner, hcoin⟩ := of_decide_eq_true hcheck
    exact ⟨trivial, fun r => hroles r (by cases r <;> simp), howner, fun k => (hcoin k (by cases k <;> simp)).1,
      fun k => (hcoin k (by cases k <;> simp)).2⟩
  have hok : ((Launch.wired.after Launch.firstTrades).call Launch.alice Launch.pool (.pool (.withdraw priceScale))).map
      Receipt.reply = .ok .nothing := by decide +kernel
  rw [hchain] at hok
  obtain ⟨r, hr, hreply⟩ := Outcome.map_eq_ok.1 hok
  rcases h Launch.alice Launch.pool (.pool (.withdraw priceScale)) hu with ⟨e, he, -⟩ | ⟨r', v, hr', hv, hspares⟩
  · rw [hr] at he
    cases he
  · rw [hr] at hr'
    cases hr'
    rw [hreply] at hspares
    exact ⟨Launch.firstTrades_wired, w, v, hchain, hu, hv, hspares⟩

end World

end SplitReserve
