import Mathlib.Data.Set.Card
import SplitReserve.Launch
import SplitReserve.Proofs.Evolution
import SplitReserve.Proofs.Roles

/-!
# Who governs a protocol

Roles change through the calls that give, take and give up a role, and through nothing else, however a chain is put together.
These calls keep the counts and leave an admin (`Staffed`), and they alone announce a change of a role, just when there was one
(`Chain.Governed`).  So every run from the creation of a protocol leaves it governed: `governed_after`.
-/

namespace SplitReserve

/-! ### Announcements -/

def Event.IsRoleChange : Event → Prop
  | .roleChanged .. => True
  | _ => False

namespace Token

variable {t t' : Token} {caller a b : Address} {n : Nat} {es : List Event}

theorem move_quiet (h : t.move a b n = .ok (t', es)) : ∀ e ∈ es, ¬ e.IsRoleChange := by
  simp only [move, Outcome.bind_eq_ok] at h
  obtain ⟨_, -, received, -, h⟩ := h
  cases h
  simp [Event.IsRoleChange]

theorem destroy_quiet (h : t.destroy a n = .ok (t', es)) : ∀ e ∈ es, ¬ e.IsRoleChange := by
  simp only [destroy, Outcome.bind_eq_ok] at h
  obtain ⟨_, -, supply, -, h⟩ := h
  cases h
  simp [Event.IsRoleChange]

/-- Tokens know no roles. -/
theorem Call.quiet {c : Call} (h : c.apply t caller = .ok (t', es)) : ∀ e ∈ es, ¬ e.IsRoleChange := by
  cases c with
  | transfer => exact move_quiet h
  | burn => exact destroy_quiet h
  | approve =>
    cases h
    simp [Event.IsRoleChange]
  | transferFrom =>
    simp only [Call.apply, Token.transferFrom, Outcome.bind_eq_ok] at h
    obtain ⟨_, -, ⟨u, moved⟩, hm, h⟩ := h
    cases h
    have := move_quiet hm
    simpa [or_imp, forall_and, Event.IsRoleChange] using this
  | burnFrom =>
    obtain ⟨_, -, h⟩ := Outcome.bind_eq_ok.1 h
    exact destroy_quiet h
  | mint =>
    simp only [Call.apply, Token.mint, Outcome.bind_eq_ok] at h
    obtain ⟨_, -, balance, -, supply, -, h⟩ := h
    cases h
    simp [Event.IsRoleChange]
  | addMinter | removeMinter | transferOwnership =>
    obtain ⟨_, -, h⟩ := Outcome.bind_eq_ok.1 h
    cases h
    simp

end Token

namespace Work

variable {α β : Type} {a self caller : Address} {k : Contract} {n : Nat}

/-- The work announces no change of a role. -/
def Quiet (w : Work α) : Prop := ∀ s x t, w s = .ok (x, t) → ∀ e ∈ t.events, e.2.IsRoleChange → e ∈ s.events

theorem Quiet.pure (x : α) : Quiet (Pure.pure x : Work α) := by
  intro s y t h e he _
  cases h
  exact he

theorem Quiet.throw (e : Failure) : Quiet (MonadExcept.throw e : Work α) := by
  intro s y t h
  cases h

theorem Quiet.bind {w : Work α} {k : α → Work β} (hw : Quiet w) (hk : ∀ x, Quiet (k x)) : Quiet (w >>= k) := by
  intro s y t h e he hr
  obtain ⟨x, u, hx, hy⟩ := bind_eq_ok.1 h
  exact hw s x u hx e (hk x u y t hy e he hr) hr

theorem Quiet.lift {o : Outcome α} {k : α → Work β} (hk : ∀ x, o = .ok x → Quiet (k x)) :
    Quiet ((liftM o : Work α) >>= k) := by
  intro s y t h
  obtain ⟨x, u, hx, hy⟩ := bind_eq_ok.1 h
  obtain ⟨x', ho, e⟩ := lift_eq_ok.1 hx
  cases e
  exact hk x ho s y t hy

theorem Quiet.chain {k : Chain → Work β} (hk : ∀ c, Quiet (k c)) : Quiet (Work.chain >>= k) := by
  intro s y t h
  obtain ⟨c, u, hc, hy⟩ := bind_eq_ok.1 h
  cases hc
  exact hk s.chain s y t hy

theorem Quiet.announce {es : List Event} (hes : ∀ e ∈ es, ¬ e.IsRoleChange) : Quiet (announce a es) := by
  intro s y t h e he hr
  cases h
  rcases List.mem_append.1 he with he | he
  · exact he
  · obtain ⟨e', he', rfl⟩ := List.mem_map.1 he
    exact absurd hr (hes e' he')

theorem Quiet.announceOne {e : Event} (he : ¬ e.IsRoleChange) : Quiet (Work.announce a [e]) :=
  .announce (List.forall_mem_singleton.2 he)

theorem Quiet.save : Quiet (save a k) := by
  intro s y t h e he _
  cases h
  exact he

theorem Quiet.commit {es : List Event} (hes : ∀ e ∈ es, ¬ e.IsRoleChange) : Quiet (commit a k es) :=
  .bind .save fun _ => .announce hes

theorem Quiet.commitOne {e : Event} (he : ¬ e.IsRoleChange) : Quiet (Work.commit a k [e]) :=
  .commit (List.forall_mem_singleton.2 he)

theorem Quiet.onToken {entry : Entry} (call : Token.Call) : Quiet (onToken entry a fun t => call.apply t caller) := by
  refine .chain fun c => .lift fun k _ => ?_
  cases k with
  | token | listing => exact .lift fun _ h => .commit (Token.Call.quiet h)
  | protocol | pool | bench => exact .throw _

theorem Quiet.pay {token recipient : Address} : Quiet (pay token self recipient n) := .onToken (.transfer recipient n)

theorem Quiet.draw {token owner : Address} : Quiet (draw token self owner n) := .onToken (.transferFrom owner self n)

theorem Quiet.mint {token recipient : Address} : Quiet (mint token self recipient n) := .onToken (.mint recipient n)

theorem Quiet.burn {token holder : Address} : Quiet (burn token self holder n) := .onToken (.burnFrom holder n)

end Work

section Entries

open Work

variable {self caller recipient : Address} {n least burn payout : Nat} {leg : Leg}

theorem Protocol.runPayClaim_quiet {p : Protocol} : Quiet (p.runPayClaim self caller recipient n) :=
  .lift fun _ _ => .bind .save fun _ => .pay

theorem Work.askForPayment_quiet {controller : Address} : Quiet (askForPayment controller self recipient n) := by
  refine .chain fun c => .lift fun k _ => ?_
  cases k with
  | protocol p => exact Protocol.runPayClaim_quiet
  | token | listing | pool | bench => exact .throw _

namespace Pool

variable {p : Pool}

theorem runBear_quiet : Quiet (runBear self caller p burn payout) := by
  refine .lift fun r _ => ?_
  dsimp only
  split
  · exact .pure _
  · exact .bind (.commitOne id) fun _ => .pure _

theorem runIndexRewards_quiet : Quiet (runIndexRewards self caller p n) := by
  refine .lift fun r _ => ?_
  dsimp only
  split
  · exact .pure _
  · exact .bind (.commitOne id) fun _ => .pure _

theorem runClaim_quiet : Quiet (runClaim self caller p) := by
  refine .lift fun r _ => .bind .save fun _ => ?_
  split
  · exact .pure _
  · exact .lift fun _ _ => .bind askForPayment_quiet fun _ => .bind (.announceOne id) fun _ => .pure _

/-- Pools know no roles. -/
theorem Call.run_quiet (call : Pool.Call) : Quiet (call.run self caller p) := by
  cases call with
  | setController => exact .lift fun _ _ => .bind .save fun _ => .pure _
  | deposit =>
    have h : ∀ n, Quiet (runDeposit self caller p n) := fun n =>
      .lift fun _ _ => .bind .save fun _ => .bind .draw fun _ => .announceOne id
    exact .bind (h _) fun _ => .pure _
  | withdraw =>
    have h : ∀ n, Quiet (runWithdraw self caller p n) := fun n =>
      .lift fun _ _ => .bind .save fun _ => .bind .pay fun _ => .announceOne id
    exact .bind (h _) fun _ => .pure _
  | claim => exact .bind runClaim_quiet fun _ => .pure _
  | close =>
    have h : Quiet (runClose self caller p) := .lift fun _ _ => .commitOne id
    exact .bind h fun _ => .pure _
  | bear => exact .bind runBear_quiet fun _ => .pure _
  | indexRewards => exact .bind runIndexRewards_quiet fun _ => .pure _

end Pool

theorem Work.askToBear_quiet {pool : Address} : Quiet (askToBear pool self burn payout) := by
  refine .chain fun c => .lift fun k _ => ?_
  cases k with
  | pool p => exact Pool.runBear_quiet
  | token | listing | protocol | bench => exact .throw _

theorem Work.askToIndex_quiet {pool : Address} : Quiet (askToIndex pool self n) := by
  refine .chain fun c => .lift fun k _ => ?_
  cases k with
  | pool p => exact Pool.runIndexRewards_quiet
  | token | listing | protocol | bench => exact .throw _

namespace Protocol

variable {p : Protocol}

theorem runMint_quiet : Quiet (runMint self caller p leg n least) := by
  refine .chain fun c => .lift fun r _ => .bind .save fun _ => .bind .draw fun _ => .bind .mint fun _ => ?_
  exact .bind (.announceOne id) fun _ => .pure _

theorem runRedeem_quiet : Quiet (runRedeem self caller p leg n least) := by
  refine .chain fun c => .lift fun r _ => .bind .save fun _ => .bind .burn fun _ => .bind .pay fun _ => ?_
  exact .bind (.announceOne id) fun _ => .pure _

theorem runRebalance_quiet : Quiet (runRebalance self caller p n) := by
  refine .lift fun _ _ => .lift fun _ _ => .lift fun pool _ => .chain fun c => .lift fun plan _ => ?_
  cases plan with
  | none => exact .pure _
  | some plan =>
    refine .bind askToBear_quiet fun loss => ?_
    dsimp only
    split
    · exact .pure _
    · refine .lift fun supplyF _ => .bind .save fun _ => .bind .burn fun _ => ?_
      exact .chain fun _ => .lift fun _ _ => .lift fun _ _ => .bind (.announceOne id) fun _ => .pure _

theorem runHarvest_quiet : Quiet (runHarvest self caller p n) := by
  refine .lift fun _ _ => .lift fun _ _ => .lift fun pool _ => .lift fun share _ => ?_
  split
  · exact .pure _
  · refine .bind askToIndex_quiet fun indexed => ?_
    split
    · exact .pure _
    · refine .lift fun q _ => .bind .save fun _ => .bind .draw fun _ => ?_
      exact .bind (.announceOne id) fun _ => .pure _

theorem runWithdrawTreasury_quiet : Quiet (runWithdrawTreasury self caller p recipient n) :=
  .lift fun _ _ => .bind .save fun _ => .bind .pay fun _ => .announceOne id

theorem runRecapitalize_quiet : Quiet (runRecapitalize self caller p n) :=
  .lift fun _ _ => .bind .save fun _ => .bind .draw fun _ => .chain fun _ => .lift fun _ _ => .announceOne id

theorem runBootstrap_quiet : Quiet (runBootstrap self caller p n) :=
  .chain fun _ => .lift fun _ _ => .bind .save fun _ => .bind .draw fun _ => .bind .mint fun _ => .bind .mint fun _ =>
    .announceOne id

/-- But for the calls on the books. -/
theorem Call.run_quiet {call : Protocol.Call} {now : Nat} (hc : call.onBooks now p caller = none) :
    Quiet (call.run self caller p) := by
  cases call with
  | withdrawTreasury => exact .bind runWithdrawTreasury_quiet fun _ => .pure _
  | recapitalize => exact .bind runRecapitalize_quiet fun _ => .pure _
  | bootstrap => exact .bind runBootstrap_quiet fun _ => .pure _
  | mint => exact .bind runMint_quiet fun _ => .pure _
  | redeem => exact .bind runRedeem_quiet fun _ => .pure _
  | rebalance => exact .bind runRebalance_quiet fun _ => .pure _
  | harvest => exact .bind runHarvest_quiet fun _ => .pure _
  | payClaim => exact .bind runPayClaim_quiet fun _ => .pure _
  | setPool | grantRole | revokeRole | renounceRole | setFees | setFeedConfig | updatePrice => cases hc

end Protocol

end Entries

/-! ### Officers -/

/-- The members are counted, and one of them is an admin. -/
structure Roles.Staffed (t : Roles) : Prop where
  counted : t.Counted
  admin : ∃ a, t.holds .admin a = true

namespace Roles

variable {t t' : Roles} {n : Nat} {a : Address} {changed : Bool}

theorem first_staffed (a : Address) : (first a).Staffed :=
  ⟨first_counted a, a, by rw [holds, office, first, Office.holds, Table.get_insert, if_pos rfl]⟩

theorem Staffed.grant (ht : t.Staffed) (h : t.grant n a = .ok (t', changed)) : t'.Staffed := by
  obtain ⟨b, hb⟩ := ht.admin
  refine ⟨ht.counted.grant h, b, ?_⟩
  rw [← hasRole_number, (grant_ok h).1, hasRole_number]
  exact .inr hb

theorem Staffed.revoke (ht : t.Staffed) (h : t.revoke n a = .ok (t', changed)) : t'.Staffed :=
  ⟨ht.counted.revoke h, ht.counted.exists_admin_of_revoke h ht.admin⟩

/-- The count of a role is the number of accounts that hold it. -/
theorem Counted.encard_eq (ht : t.Counted) (n : Nat) :
    {a | t.hasRole n a = true}.encard = t.memberCount n := by
  cases h : Role.ofNumber? n with
  | none => simp [hasRole, memberCount, h]
  | some r =>
    rw [Role.ofNumber?_eq_some_iff] at h
    subst h
    have hset : {a | t.hasRole r.number a = true} = (t.office r).members := by
      ext a
      rw [Set.mem_ofPred_eq, hasRole_number, Finset.mem_coe, Office.mem_members, holds]
    rw [hset, Set.encard_coe_eq_coe_finsetCard, memberCount_number, ht r]

end Roles

namespace Protocol

variable {p q : Protocol} {caller account x : Address} {now n role : Nat} {g granted changed : Bool} {b : Call} {e : Failure}
  {es : List Event}

theorem Call.Books.staffed (h : b.Books now p caller q es) (hp : p.roles.Staffed) : q.roles.Staffed := by
  cases h with
  | setPool | setFees | setFeedConfig | updatePrice => exact hp
  | grantRole _ hr => exact hp.grant hr
  | revokeRole _ hr | renounceRole hr => exact hp.revoke hr

theorem staffed_lasting : Lasting fun p => p.roles.Staffed where
  books := Call.Books.staffed
  terms h hp := h.roles ▸ hp

theorem mem_roleEvents : .roleChanged n x g ∈ roleEvents role account granted changed ↔
    changed = true ∧ n = role ∧ x = account ∧ g = granted := by
  unfold roleEvents
  split <;> simp_all

/-- A call on the books announces the changes of the roles that it makes, and no others. -/
theorem Call.Books.roleChanged_iff (h : b.Books now p caller q es) :
    .roleChanged n x g ∈ es ↔ q.roles.hasRole n x = g ∧ p.roles.hasRole n x ≠ g := by
  have hgiven : ∀ {account roles role changed}, p.roles.grant role account = .ok (roles, changed) →
      (.roleChanged n x g ∈ roleEvents role account true changed ↔ roles.hasRole n x = g ∧ p.roles.hasRole n x ≠ g) := by
    intro account roles role changed hr
    obtain ⟨hheld, hchanged⟩ := Roles.grant_ok hr
    have := hheld n x
    rw [mem_roleEvents]
    grind
  have htaken : ∀ {account roles role changed}, p.roles.revoke role account = .ok (roles, changed) →
      (.roleChanged n x g ∈ roleEvents role account false changed ↔ roles.hasRole n x = g ∧ p.roles.hasRole n x ≠ g) := by
    intro account roles role changed hr
    obtain ⟨hheld, hchanged⟩ := Roles.revoke_ok hr
    have := hheld n x
    rw [mem_roleEvents]
    grind
  cases h with
  | setPool | setFees | setFeedConfig | updatePrice => simp
  | grantRole _ hr => exact hgiven hr
  | revokeRole _ hr | renounceRole hr => exact htaken hr

theorem revokeRole_eq_error_iff (hc : p.roles.requireAdmin caller = .ok ()) :
    p.revokeRole caller n x = .error e ↔ p.roles.revoke n x = .error e := by
  rw [revokeRole, hc, Outcome.ok_bind, Outcome.bind_eq_error]
  refine or_iff_left ?_
  rintro ⟨_, _, h⟩
  cases h

theorem renounceRole_eq_error_iff : p.renounceRole caller n = .error e ↔ p.roles.revoke n caller = .error e := by
  rw [renounceRole, Outcome.bind_eq_error]
  refine or_iff_left ?_
  rintro ⟨_, _, h⟩
  cases h

end Protocol

/-! ### Calls and runs -/

namespace Chain

open Work

variable {c : Chain} {self caller target a : Address} {k : Contract} {p : Protocol} {call : Call} {rc : Receipt}

theorem mem_grouped (hk : c.find? a = some k) {e : Event} {es : List (Address × Event)} :
    (a, e) ∈ c.grouped es ↔ (a, e) ∈ es := by
  simp only [grouped, List.mem_flatMap, List.mem_filter, decide_eq_true_eq]
  constructor
  · rintro ⟨_, -, he, -⟩
    exact he
  · intro he
    obtain ⟨l, hl, -⟩ := Option.map_eq_some_iff.1 hk
    have ha : l.1 = a := by simpa using List.find?_some hl
    exact ⟨l, List.mem_of_find?_eq_some hl, he, ha.symm⟩

/-- Any other call announces no change of a role. -/
theorem quiet_of_not_onBooks (hn : ¬ c.OnBooks caller target call) (h : c.call caller target call = .ok rc) :
    ∀ e ∈ rc.events, ¬ e.2.IsRoleChange := by
  obtain ⟨⟨reply, s⟩, hrun, e⟩ := Outcome.bind_eq_ok.1 h
  cases e
  -- It is enough that the work is quiet, since it begins with nothing announced.
  have hquiet : ∀ w : Work Reply, Quiet w → w ⟨c, []⟩ = .ok (reply, s) →
      ∀ e ∈ c.grouped s.events, ¬ e.2.IsRoleChange := by
    intro w hw h e he hr
    obtain ⟨_, -, he⟩ := List.mem_flatMap.1 he
    exact List.not_mem_nil (hw _ _ _ h e (List.mem_filter.1 he).1 hr)
  simp only [Chain.run, bind_apply, lift_apply, chain_apply, Outcome.ok_bind, bind_assoc, Outcome.bind_eq_ok, StateT.run,
    callee_eq_ok] at hrun
  obtain ⟨k, hk, hrun⟩ := hrun
  cases k with
  | token t =>
    cases call with
    | token b => exact hquiet _ (.lift fun _ hx => .bind (.commit (Token.Call.quiet hx)) fun _ => .pure _) hrun
    | protocol | pool | bench => cases hrun
  | listing t =>
    cases call with
    | token b =>
      refine hquiet _ ?_ hrun
      dsimp only
      split
      · exact .lift fun _ hx => .bind (.commit (Token.Call.quiet hx)) fun _ => .pure _
      · exact .bind (.throw _) fun _ => .lift fun _ hx => .bind (.commit (Token.Call.quiet hx)) fun _ => .pure _
    | protocol | pool | bench => cases hrun
  | protocol p =>
    cases call with
    | protocol b =>
      have hb : b.onBooks c.now p caller = none :=
        Option.eq_none_iff_forall_ne_some.2 fun o ho => hn ⟨p, b, o, hk, rfl, ho⟩
      exact hquiet _ (Protocol.Call.run_quiet hb) hrun
    | token | pool | bench => cases hrun
  | pool p =>
    cases call with
    | pool b => exact hquiet _ (Pool.Call.run_quiet b) hrun
    | token | protocol | bench => cases hrun
  | bench b =>
    cases call with
    | bench d => exact hquiet _ (.lift fun _ _ => .bind .save fun _ => .pure _) hrun
    | token | protocol | pool => cases hrun

/-- Whatever is called, a protocol announces the changes of its roles, and no others. -/
theorem exists_announced (hp : c.find? a = some (.protocol p)) (h : c.call caller target call = .ok rc) :
    ∃ q, rc.chain.find? a = some (.protocol q) ∧ ∀ n x g,
      (a, .roleChanged n x g) ∈ rc.events ↔ q.roles.hasRole n x = g ∧ p.roles.hasRole n x ≠ g := by
  have hsame : ∀ {n x g}, ¬ (p.roles.hasRole n x = g ∧ p.roles.hasRole n x ≠ g) := fun h => h.2 h.1
  by_cases hb : c.OnBooks caller target call
  · obtain ⟨p', b, o, hfind, rfl, ho⟩ := hb
    rw [call_of_onBooks hfind ho] at h
    obtain ⟨⟨q, es⟩, rfl, rfl⟩ := Outcome.map_eq_ok.1 h
    by_cases htarget : a = target
    · subst htarget
      cases hp.symm.trans hfind
      refine ⟨q, find?_set_self hp, fun n x g => ?_⟩
      rw [mem_grouped hp, ← (Protocol.Call.books_of_onBooks ho).roleChanged_iff]
      simp
    · refine ⟨p, by rw [find?_set_of_ne htarget, hp], fun n x g => iff_of_false (fun he => ?_) hsame⟩
      rw [mem_grouped hp] at he
      obtain ⟨_, -, e⟩ := List.mem_map.1 he
      cases e
      exact htarget rfl
  · obtain ⟨-, hr⟩ := (call_cases h).resolve_left fun ⟨p', b, q, es, hfind, hcall, ho, _⟩ =>
      hb ⟨p', b, _, hfind, hcall, ho⟩
    obtain ⟨k, hk, he⟩ := hr.exists_of_find? hp
    cases he with
    | @protocol _ q hs =>
      refine ⟨q, hk, fun n x g => iff_of_false (fun he => quiet_of_not_onBooks hb h _ he trivial) ?_⟩
      rw [hs.roles]
      exact hsame

theorem exists_after_staffed (hp : c.find? a = some (.protocol p)) (hs : p.roles.Staffed) (steps : List Step) :
    ∃ q, (c.after steps).find? a = some (.protocol q) ∧ q.roles.Staffed :=
  exists_after_of_lasting Protocol.staffed_lasting hp hs steps

/-! ### All together -/

/-- How the protocol `p`, which stands at `a`, is governed. -/
structure Governed (c : Chain) (a : Address) (p : Protocol) : Prop where
  found : c.find? a = some (.protocol p)
  hasRole : ∀ n x, c.query a (.protocol (.hasRole n x)) = .ok (.flag (p.roles.hasRole n x))
  counted : ∀ n, {x | p.roles.hasRole n x = true}.encard = p.roles.memberCount n
  beyond : ∀ n x, 3 ≤ n → p.roles.hasRole n x = false
  admin : 1 ≤ p.roles.memberCount Role.admin.number ∧ ∃ x, p.roles.requireAdmin x = .ok ()
  /-- What an admin takes away fails only for the last admin. -/
  revoke : ∀ caller n x, p.roles.requireAdmin caller = .ok () → ∀ e,
    c.call caller a (.protocol (.revokeRole n x)) = .error e ↔ e = .fault .lastAdmin ∧ n = Role.admin.number ∧
      ∀ y, p.roles.hasRole Role.admin.number y = true ↔ y = x
  /-- Everyone but the last admin can give up a role. -/
  renounce : ∀ caller n e, c.call caller a (.protocol (.renounceRole n)) = .error e ↔
    e = .fault .lastAdmin ∧ n = Role.admin.number ∧ ∀ y, p.roles.hasRole Role.admin.number y = true ↔ y = caller
  /-- Whatever is called, of whatever contract. -/
  announced : ∀ caller target call rc, c.call caller target call = .ok rc → ∃ q, rc.chain.find? a = some (.protocol q) ∧
    ∀ n x g, (a, .roleChanged n x g) ∈ rc.events ↔ q.roles.hasRole n x = g ∧ p.roles.hasRole n x ≠ g

theorem governed_of_staffed (hp : c.find? a = some (.protocol p)) (hs : p.roles.Staffed) : c.Governed a p where
  found := hp
  hasRole n x := by
    rw [query, callee_eq_ok.2 hp]
    rfl
  counted := hs.counted.encard_eq
  beyond n x hn := Roles.hasRole_of_count_le hn x
  admin := by
    obtain ⟨x, hx⟩ := hs.admin
    refine ⟨?_, x, require_eq_ok.2 hx⟩
    rw [Roles.memberCount_number, hs.counted .admin]
    exact Finset.card_pos.2 ⟨x, Office.mem_members.2 hx⟩
  revoke caller n x hc e := by
    rw [call_of_onBooks hp (b := .revokeRole n x) rfl, Outcome.map_eq_error, Protocol.revokeRole_eq_error_iff hc,
      hs.counted.revoke_eq_error_iff]
    simp only [Roles.hasRole_number]
  renounce caller n e := by
    rw [call_of_onBooks hp (b := .renounceRole n) rfl, Outcome.map_eq_error, Protocol.renounceRole_eq_error_iff,
      hs.counted.revoke_eq_error_iff]
    simp only [Roles.hasRole_number]
  announced caller target call rc h := exists_announced hp h

/-- From its creation on, a protocol is governed, on whatever chain it stands and whatever happens there. -/
theorem governed_after {creator reserveToken fToken xToken : Address}
    (h : c.find? a = some (.protocol (Protocol.init creator reserveToken fToken xToken))) (steps : List Step) :
    ∃ p, (c.after steps).Governed a p := by
  obtain ⟨p, hp, hs⟩ := exists_after_staffed h (Roles.first_staffed creator) steps
  exact ⟨p, governed_of_staffed hp hs⟩

theorem governed_after_wiring :
    Launch.contracts.find? Launch.protocol =
        some (.protocol (Protocol.init Launch.admin Launch.reserveToken Launch.fToken Launch.xToken)) ∧
      ∃ p, (Launch.contracts.after (Launch.fundingSteps ++ Launch.wiringSteps)).Governed Launch.protocol p :=
  ⟨rfl, governed_after rfl _⟩

/-- The keeper becomes the second admin, and then the last. -/
example :
    let call := fun caller b => Step.call caller Launch.protocol (.protocol b)
    let c := Launch.wired.after
      [call Launch.admin (.grantRole Role.admin.number Launch.keeper), call Launch.admin (.renounceRole Role.admin.number)]
    (c.call Launch.keeper Launch.protocol (.protocol (.renounceRole Role.admin.number))).map Receipt.reply =
      .error (.fault .lastAdmin) := by decide +kernel

end Chain

end SplitReserve
