import SplitReserve.Proofs.World.Act
import SplitReserve.Proofs.World.Census
import SplitReserve.Proofs.World.Relay

/-!
# Acts of different depositors commute

Two accounts act on the pool in a world of a wired run.  In whichever order they do, each gets the same answer, or the same
refusal (`Sound.answer_act_of_ne`), and both orders lead to the same world (`Sound.act_agree`).  That is because an act sees only
its own account, and what both take from is enough for both: the shares, the stable tokens of the pool and the reserve of the
protocol.  So nobody gains or loses by coming before or after another.

One counter is an exception, that of the depositors, which saturates; it agrees when fewer than `2 ^ 64` accounts have called.
Once it is full it need not: a closing and an opening leave it at one number or another, as one or the other comes first
(`depositors_act_of_full`), and a run can fill it (`acts_differ_after_relay`).
-/

namespace SplitReserve

/-- What a call answers and announces, or why it fails. -/
def Chain.answer (c : Chain) (caller target : Address) (call : Call) : Outcome (Reply × List (Address × Event)) :=
  (c.call caller target call).map fun r => (r.reply, r.events)

namespace World

variable {w u v : World} {a b : Address} {e e' : Effect}

/-- Two worlds that differ in the number of depositors at most. -/
structure Agree (u v : World) : Prop where
  clock : u.clock = v.clock
  coin : u.coin = v.coin
  protocol : u.protocol = v.protocol
  pool : ∀ depositors, { u.pool with depositors } = { v.pool with depositors }

theorem Agree.refl (w : World) : w.Agree w := ⟨rfl, rfl, rfl, fun _ => rfl⟩

theorem Agree.eq (h : u.Agree v) (hd : u.pool.depositors = v.pool.depositors) : u = v := by
  have hpool : u.pool = v.pool := by
    have := h.pool u.pool.depositors
    conv_rhs at this => rw [hd]
    exact this
  rw [mk.injEq]
  exact ⟨h.clock, h.coin, h.protocol, hpool⟩

/-! ### One act after the other -/

/-- What two accounts have in a sound world is there for both of them. -/
private theorem add_within_le (hw : w.Sound) (hab : a ≠ b) (he : e.Within (w.pool.standing a))
    (he' : e'.Within (w.pool.standing b)) :
    e.booking.taken + e'.booking.taken ≤ w.pool.shares ∧
      e.returned + e'.returned ≤ (w.coin .f).balance Launch.pool ∧
      e.booking.paid + e'.booking.paid ≤ (w.coin .reserve).balance Launch.protocol := by
  have hshares : (w.pool.position a).shares + (w.pool.position b).shares ≤ w.pool.shares := by
    rw [← hw.pool.shares]
    exact Table.add_le_sum (f := fun _ s => s.shares) (fun _ => rfl) w.pool.positions hab
  have hworth : w.pool.worth a + w.pool.worth b ≤ w.pool.worthAll := by
    have := hw.pool.sum_worth_le {a, b}
    rwa [Finset.sum_pair hab] at this
  have hdue : w.pool.due a + w.pool.due b ≤ w.pool.owed := by
    have := hw.pool.sum_due_le {a, b}
    rwa [Finset.sum_pair hab] at this
  have hbacked := hw.worthAll_le
  have howed := hw.owed_le
  have hheld := hw.held
  refine ⟨?_, ?_, ?_⟩
  · exact (Nat.add_le_add he.taken he'.taken).trans hshares
  · exact (Nat.add_le_add he.returned he'.returned).trans (hworth.trans hbacked)
  · have hpaid : e.booking.paid + e'.booking.paid ≤ w.pool.due a + w.pool.due b := Nat.add_le_add he.paid he'.paid
    omega

theorem Sound.acted_agree (hw : w.Sound) (ha : a.IsAccount) (hb : b.IsAccount) (hab : a ≠ b)
    (he : e.Within (w.pool.standing a)) (he' : e'.Within (w.pool.standing b)) :
    ((w.acted a e).acted b e').Agree ((w.acted b e').acted a e) := by
  obtain ⟨hshares, hstable, hreserve⟩ := add_within_le hw hab he he'
  refine ⟨rfl, ?_, ?_, fun n => Pool.booked_comm hab hshares n⟩
  · funext c
    cases c with
    | reserve => exact Token.exchange_comm _ hab ha.ne_protocol hb.ne_protocol hreserve
    | f => exact Token.exchange_comm _ hab ha.ne_pool hb.ne_pool hstable
    | x => rfl
  · have hpaid := Nat.sub_right_comm w.protocol.reserve e.booking.paid e'.booking.paid
    change { w.protocol with reserve := w.protocol.reserve - e.booking.paid - e'.booking.paid } =
      { w.protocol with reserve := w.protocol.reserve - e'.booking.paid - e.booking.paid }
    rw [hpaid]

/-- Two accounts that act in either order make the same world, but for the number of depositors. -/
theorem Sound.act_agree (hw : w.Sound) (ha : a.IsAccount) (hb : b.IsAccount) (hab : a ≠ b) (A B : Act) :
    ((w.act a A).act b B).Agree ((w.act b B).act a A) := by
  have hB := effect_act_of_ne (w := w) hab.symm hb A B
  have hA := effect_act_of_ne (w := w) hab ha B A
  cases h : A.effect a (w.pool.standing a) (w.purse a) with
  | error f =>
    rw [act_of_error (hA.trans h), act_of_error h]
    exact Agree.refl _
  | ok e =>
    cases h' : B.effect b (w.pool.standing b) (w.purse b) with
    | error f' =>
      rw [act_of_error (hB.trans h'), act_of_error h']
      exact Agree.refl _
    | ok e' =>
      rw [act_of_effect (hB.trans h'), act_of_effect (hA.trans h), act_of_effect h, act_of_effect h']
      exact hw.acted_agree ha hb hab (Act.effect_within h) (Act.effect_within h')

/-- The number of depositors too is the same, when there is room to count both accounts. -/
theorem Sound.act_comm (hw : w.Sound) (ha : a.IsAccount) (hb : b.IsAccount) (hab : a ≠ b) (A B : Act) {s : Finset Address}
    (hs : w.pool.Census s) (hcard : s.card < wordLimit) (has : a ∈ s) (hbs : b ∈ s) :
    (w.act a A).act b B = (w.act b B).act a A := by
  refine (hw.act_agree ha hb hab A B).eq ?_
  have hB := effect_act_of_ne (w := w) hab.symm hb A B
  have hA := effect_act_of_ne (w := w) hab ha B A
  cases h : A.effect a (w.pool.standing a) (w.purse a) with
  | error f => rw [act_of_error (hA.trans h), act_of_error h]
  | ok e =>
    cases h' : B.effect b (w.pool.standing b) (w.purse b) with
    | error f' => rw [act_of_error (hB.trans h'), act_of_error h']
    | ok e' =>
      rw [act_of_effect (hB.trans h'), act_of_effect (hA.trans h), act_of_effect h, act_of_effect h']
      -- Who opens a position is not among the depositors yet, and who closes one is.
      have he := (Act.effect_within h).opens
      have he' := (Act.effect_within h').opens
      refine Pool.recount_comm (n := w.pool.depositors) ?_ ?_
      · rintro (ho | ho)
        · exact hs.depositors_lt hcard hbs (he' true ho)
        · exact hs.depositors_lt hcard has (he true ho)
      · rintro (ho | ho)
        · exact hs.depositors_pos hcard (he' false ho)
        · exact hs.depositors_pos hcard (he false ho)

/-- A full counter does not count an opening before a closing, but it does after it. -/
theorem depositors_act_of_full (ha : a.IsAccount) (hb : b.IsAccount) (hab : a ≠ b) {A B : Act}
    (hA : A.effect a (w.pool.standing a) (w.purse a) = .ok e) (hB : B.effect b (w.pool.standing b) (w.purse b) = .ok e')
    (hclose : e.booking.opens = some false) (hopen : e'.booking.opens = some true) (hfull : w.pool.depositors = maxWord) :
    ((w.act a A).act b B).pool.depositors = maxWord ∧ ((w.act b B).act a A).pool.depositors = maxWord - 1 := by
  rw [act_of_effect ((effect_act_of_ne hab.symm hb A B).trans hB), act_of_effect ((effect_act_of_ne hab ha B A).trans hA),
    act_of_effect hA, act_of_effect hB]
  constructor
  · rw [depositors_acted, depositors_acted, hclose, hopen, hfull]
    decide
  · rw [depositors_acted, depositors_acted, hclose, hopen, hfull]
    decide

theorem Sound.answer_act (hw : w.Sound) (ha : a.IsAccount) (A : Act) :
    w.chain.answer a Launch.pool A.call =
      (A.effect a (w.pool.standing a) (w.purse a)).map fun e => (e.reply, w.chain.grouped e.events) := by
  rw [Chain.answer, hw.call_act ha]
  cases A.effect a (w.pool.standing a) (w.purse a) with
  | ok e => rfl
  | error f => rfl

/-- An act has the same answer after that of another account as before it. -/
theorem Sound.answer_act_of_ne (hw : w.Sound) (ha : a.IsAccount) (hb : b.IsAccount) (hab : b ≠ a) (A B : Act) :
    (w.chain.apply a Launch.pool A.call).answer b Launch.pool B.call = w.chain.answer b Launch.pool B.call := by
  rw [hw.apply_act ha, (hw.act ha A).answer_act hb, effect_act_of_ne hab hb, hw.answer_act hb]
  rfl

/-! ### In every run -/

/-- In every state of every wired run, the acts of two accounts commute: each has the same answer, or fails for the same reason,
in both orders, and both lead to the same state of the pool, the protocol and the tokens.  The counter of depositors, which
saturates, is left out, unless the accounts that have called, with these two, are fewer than `2 ^ 64`. -/
theorem acts_commute_after_wired (steps : List Step) (hs : ∀ s ∈ steps, s.Wired) {a b : Address} (ha : a.IsAccount)
    (hb : b.IsAccount) (hab : a ≠ b) (A B : Act) :
    let c := Launch.wired.after steps
    (c.apply b Launch.pool B.call).answer a Launch.pool A.call = c.answer a Launch.pool A.call ∧
    (c.apply a Launch.pool A.call).answer b Launch.pool B.call = c.answer b Launch.pool B.call ∧
    (∃ u v : World, (c.apply a Launch.pool A.call).apply b Launch.pool B.call = u.chain ∧
      (c.apply b Launch.pool B.call).apply a Launch.pool A.call = v.chain ∧ u.Agree v) ∧
    ((insert a (insert b (callers steps))).card < wordLimit →
      (c.apply a Launch.pool A.call).apply b Launch.pool B.call =
        (c.apply b Launch.pool B.call).apply a Launch.pool A.call) := by
  intro c
  have hsub : callers steps ⊆ insert a (insert b (callers steps)) :=
    (Finset.subset_insert b _).trans (Finset.subset_insert a _)
  obtain ⟨w, hchain, hw, hcensus⟩ := exists_after_wired_census hs hsub
  have hc : c = w.chain := hchain
  have hfirst : (c.apply a Launch.pool A.call).apply b Launch.pool B.call = ((w.act a A).act b B).chain := by
    rw [hc, hw.apply_apply_act ha hb]
  have hsecond : (c.apply b Launch.pool B.call).apply a Launch.pool A.call = ((w.act b B).act a A).chain := by
    rw [hc, hw.apply_apply_act hb ha]
  refine ⟨?_, ?_, ⟨_, _, hfirst, hsecond, hw.act_agree ha hb hab A B⟩, fun hcard => ?_⟩
  · rw [hc]
    exact hw.answer_act_of_ne hb ha hab B A
  · rw [hc]
    exact hw.answer_act_of_ne ha hb hab.symm A B
  · rw [hfirst, hsecond, hw.act_comm ha hb hab A B hcensus hcard (Finset.mem_insert_self a _)
      (Finset.mem_insert_of_mem (Finset.mem_insert_self b _))]

/-- A claim and a deposit after a first run. -/
theorem acts_commute_after_firstTrades :
    let c := Launch.wired.after Launch.firstTrades
    let deposit := Act.deposit ⟨1000, by decide⟩
    ((∀ s ∈ Launch.firstTrades, s.Wired) ∧ Launch.alice.IsAccount ∧ Launch.admin.IsAccount ∧ Launch.alice ≠ Launch.admin) ∧
    (c.apply Launch.admin Launch.pool deposit.call).answer Launch.alice Launch.pool Act.claim.call =
      c.answer Launch.alice Launch.pool Act.claim.call ∧
    (c.apply Launch.alice Launch.pool Act.claim.call).apply Launch.admin Launch.pool deposit.call =
      (c.apply Launch.admin Launch.pool deposit.call).apply Launch.alice Launch.pool Act.claim.call := by
  intro c deposit
  have halice : Launch.alice.IsAccount := trivial
  have hadmin : Launch.admin.IsAccount := trivial
  have hne : Launch.alice ≠ Launch.admin := by decide
  obtain ⟨hanswer, -, -, hstates⟩ :=
    acts_commute_after_wired Launch.firstTrades Launch.firstTrades_wired halice hadmin hne .claim deposit
  exact ⟨⟨Launch.firstTrades_wired, halice, hadmin, hne⟩, hanswer, hstates (by decide +kernel)⟩

/-- After a relay of `2 ^ 64 - 1` guests the counter is full, and it matters whether the first guest closes its position before
or after the next one deposits. -/
theorem acts_differ_after_relay :
    let steps := Launch.relay maxWord
    let c := Launch.wired.after steps
    let a := Address.guest 0
    let b := Address.guest maxWord
    let deposit := Act.deposit ⟨1, by decide⟩
    ((∀ s ∈ steps, s.Wired) ∧ a.IsAccount ∧ b.IsAccount ∧ a ≠ b) ∧
    (∃ u v : World, (c.apply a Launch.pool Act.close.call).apply b Launch.pool deposit.call = u.chain ∧
      (c.apply b Launch.pool deposit.call).apply a Launch.pool Act.close.call = v.chain ∧
      u.pool.depositors = maxWord ∧ v.pool.depositors = maxWord - 1) ∧
    (c.apply a Launch.pool Act.close.call).apply b Launch.pool deposit.call ≠
      (c.apply b Launch.pool deposit.call).apply a Launch.pool Act.close.call := by
  intro steps c a b deposit
  have hwide : maxWord < wideLimit := by decide
  have ha : a.IsAccount := Address.guest_isAccount 0
  have hb : b.IsAccount := Address.guest_isAccount maxWord
  have hab : a ≠ b := fun e => absurd ((Address.guest_inj (by decide) hwide).1 e) (by decide)
  obtain ⟨w, hchain, hw⟩ := exists_after_relay hwide
  have hc : c = w.chain := hchain
  -- The first guest has nothing left in the pool, and the next one is ready.
  have hleaver : w.pool.standing a = .leaver := (hw.standing 0 (by decide)).trans (if_pos (by decide))
  obtain ⟨e, he, hclosing⟩ := effect_close_leaver a (w.purse a)
  rw [← hleaver] at he
  obtain ⟨e', he', hdepositing⟩ := hw.effect_deposit hwide
  have hfull : w.pool.depositors = maxWord := hw.depositors.trans (by decide)
  obtain ⟨hfirst, hsecond⟩ := depositors_act_of_full ha hb hab he he' (by rw [hclosing]; rfl) (by rw [hdepositing]; rfl) hfull
  have hu : (c.apply a Launch.pool Act.close.call).apply b Launch.pool deposit.call =
      ((w.act a .close).act b deposit).chain := by
    rw [hc, hw.sound.apply_apply_act ha hb]
  have hv : (c.apply b Launch.pool deposit.call).apply a Launch.pool Act.close.call =
      ((w.act b deposit).act a .close).chain := by
    rw [hc, hw.sound.apply_apply_act hb ha]
  refine ⟨⟨Launch.relay_wired maxWord, ha, hb, hab⟩, ⟨_, _, hu, hv, hfirst, hsecond⟩, ?_⟩
  rw [hu, hv, Ne, chain_inj]
  intro heq
  rw [heq, hsecond] at hfirst
  exact absurd hfirst (by decide)

end World

end SplitReserve
