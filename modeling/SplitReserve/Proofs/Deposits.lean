import SplitReserve.Proofs.Rebalance
import SplitReserve.Proofs.World.Act

/-!
# Deposits and withdrawals

Shares are rounded against the depositor, and so is what they are worth.  At the scale of a pool, which is at most that of a new
one, the two together take no more than one unit: a deposit is worth what is paid in or one less, a withdrawal takes what is paid
out or one more, and paying in and taking out again loses one unit at most (`Standing.worth_deposited`, `worth_withdrawn`,
`worth_returned`).  Neither concerns any other depositor, the rewards, or the terms of the pool (`Pool.Sound.answer_booked`).
Main statement: `World.deposits_return_after_wired`.
-/

namespace SplitReserve

/-! ### Rounding -/

/-- A number that is `m` or `m + 1` times the divisor, or between, adds as much to a quotient. -/
private theorem add_div_cases {b m d : Nat} (a : Nat) (hd : 0 < d) (hle : m * d ≤ b) (hge : b ≤ m * d + d) :
    (a + b) / d = a / d + m ∨ (a + b) / d = a / d + m + 1 := by
  have hfloor := Nat.div_mul_le_self a d
  have hceil : a < a / d * d + d := Nat.lt_div_mul_add hd
  have hlow : a / d + m ≤ (a + b) / d := by
    rw [Nat.le_div_iff_mul_le hd, Nat.add_mul]
    omega
  have hhigh : (a + b) / d < a / d + m + 2 := by
    rw [Nat.div_lt_iff_lt_mul hd, Nat.add_mul, Nat.add_mul]
    omega
  omega

private theorem divUp_mul_lt (n : Nat) {d : Nat} (hd : 0 < d) : divUp n d * d < n + d := by
  have := Nat.div_mul_le_self (n + (d - 1)) d
  unfold divUp
  omega

namespace Standing

variable {s s' : Standing} {n : Nat}

/-- The shares issued for a deposit have its value at the scale, but for less than the scale. -/
private theorem issued_value (n : Nat) (hscale : 0 < s.scale) :
    s.issued n * s.scale ≤ n * shareScale ∧ n * shareScale < s.issued n * s.scale + s.scale :=
  ⟨Nat.div_mul_le_self _ _, Nat.lt_div_mul_add hscale⟩

/-- For less than its worth, a position is taken the shares that the withdrawal asks for. -/
private theorem taken_of_ne (hscale : 0 < s.scale) (hle : n ≤ s.worth) (hne : n ≠ s.worth) :
    s.taken n = divUp (n * shareScale) s.scale := by
  rw [taken, if_neg hne, Nat.min_eq_left]
  exact (divUp_le_iff hscale).2 ((Nat.mul_le_mul_right _ hle).trans (Nat.div_mul_le_self _ _))

/-- A deposit is worth what is paid in, or one unit less. -/
theorem worth_deposited (hscale : 0 < s.scale) (hle : s.scale ≤ shareScale) (hn : n ≠ 0) (hs : s'.scale = s.scale)
    (hshares : s'.held.shares = s.held.shares + s.issued n) : s'.worth = s.worth + n ∨ s'.worth + 1 = s.worth + n := by
  obtain ⟨hmost, hleast⟩ := s.issued_value n hscale
  obtain ⟨m, rfl⟩ : ∃ m, n = m + 1 := Nat.exists_eq_add_one_of_ne_zero hn
  rw [Nat.succ_mul] at hmost hleast
  rw [worth, hshares, hs, Nat.add_mul, worth]
  have := add_div_cases (s.held.shares * s.scale) (by decide) (by omega : m * shareScale ≤ s.issued (m + 1) * s.scale) hmost
  omega

/-- Who withdraws everything is left with nothing; else the position loses what is paid out, or one unit more. -/
theorem worth_withdrawn (hscale : 0 < s.scale) (hle : s.scale ≤ shareScale) (hn : n ≤ s.worth) (hs : s'.scale = s.scale)
    (hshares : s'.held.shares = s.held.shares - s.taken n) :
    (n = s.worth → s'.worth = 0) ∧ (n ≠ s.worth → s'.worth + n = s.worth ∨ s'.worth + n + 1 = s.worth) := by
  refine ⟨fun hall => ?_, fun hne => ?_⟩
  · rw [taken, if_pos hall, Nat.sub_self] at hshares
    rw [worth, hshares, Nat.zero_mul, Nat.zero_div]
  · have htaken := taken_of_ne hscale hn hne
    have hmost := divUp_mul_lt (n * shareScale) hscale
    have hleast : n * shareScale ≤ divUp (n * shareScale) s.scale * s.scale := (divUp_le_iff hscale).1 le_rfl
    rw [← htaken] at hmost hleast
    have hsum : s'.held.shares * s.scale + s.taken n * s.scale = s.held.shares * s.scale := by
      rw [hshares, ← Nat.add_mul, Nat.sub_add_cancel (s.taken_le n)]
    have := add_div_cases (s'.held.shares * s.scale) (by decide) hleast (by omega)
    rw [hsum] at this
    rw [worth, hs, worth]
    omega

/-- Who withdraws at once what was paid in, or all if it is worth less, is left with as much as before or one unit less. -/
theorem worth_returned {t : Standing} (hscale : 0 < s.scale) (hle : s.scale ≤ shareScale) (hn : n ≠ 0)
    (hs : s'.scale = s.scale) (hshares : s'.held.shares = s.held.shares + s.issued n) (ht : t.scale = s.scale)
    (hleft : t.held.shares = s'.held.shares - s'.taken (min n s'.worth)) : t.worth = s.worth ∨ t.worth + 1 = s.worth := by
  have hafter := worth_deposited hscale hle hn hs hshares
  have hmin : min n s'.worth ≤ s'.worth := Nat.min_le_right _ _
  have hscale' : 0 < s'.scale := hs ▸ hscale
  by_cases hall : min n s'.worth = s'.worth
  · have := (worth_withdrawn hscale' (hs ▸ hle) hmin (ht.trans hs.symm) hleft).1 hall
    omega
  · -- The shares taken are those issued, or one more, which is worth one unit at most.
    have htaken := taken_of_ne hscale' hmin hall
    have hn' : min n s'.worth = n := by omega
    rw [hn', hs, divUp_eq _ hscale] at htaken
    rw [hn'] at hleft
    rw [show n * shareScale / s.scale = s.issued n from rfl] at htaken
    have hheld := s'.taken_le n
    have hone : t.held.shares = s.held.shares ∨ t.held.shares + 1 = s.held.shares := by
      split at htaken <;> omega
    rw [worth, ht, worth]
    obtain hsame | hone := hone
    · exact Or.inl (by rw [hsame])
    · have hvalue : s.held.shares * s.scale = t.held.shares * s.scale + s.scale := by rw [← hone, Nat.succ_mul]
      have := add_div_cases (t.held.shares * s.scale) (by decide) (by omega : 0 * shareScale ≤ s.scale) (by omega)
      rw [← hvalue] at this
      omega

end Standing

/-! ### What stays -/

namespace Pool

variable {p : Pool} {a : Address} {e : Booking}

/-- The queries for anything but the position of `a` and the sums over all positions.  The rewards of `a` are among them. -/
def Query.Apart (a : Address) : Query → Prop
  | .position b | .isOpen b | .actual b => b ≠ a
  | .total | .shares | .lossCap | .stats => False
  | .owed | .scale | .index | .pending _ | .sharesFor _ | .controller | .token => True

/-- What is booked for `a`, when nothing is paid and the position is settled, is no concern of anyone else. -/
theorem Sound.answer_booked (hp : p.Sound) (hp' : (p.booked a e).Sound) (hpaid : e.paid = 0) {shares : Nat}
    (hposition : e.position = some ⟨shares, p.index, p.due a⟩) {q : Query} (hq : q.Apart a) :
    q.answer (p.booked a e) = q.answer p := by
  have hother : ∀ b, b ≠ a → (p.booked a e).standing b = p.standing b := fun b hb => standing_booked_of_ne hb
  cases q with
  | total | shares | lossCap | stats => exact hq.elim
  | owed =>
    change Except.ok (Reply.amount (p.owed - e.paid)) = _
    rw [hpaid, Nat.sub_zero]
    rfl
  | scale | index | sharesFor | controller | token => rfl
  | position b =>
    have : (p.booked a e).position b = p.position b := congrArg Standing.held (hother b hq)
    rw [Query.answer, this, Query.answer]
  | isOpen b =>
    have : (p.booked a e).isOpen b = p.isOpen b := congrArg Standing.isOpen (hother b hq)
    rw [Query.answer, this, Query.answer]
  | actual b =>
    have : (p.booked a e).position b = p.position b := congrArg Standing.held (hother b hq)
    rw [Query.answer, Pool.actual, this]
    rfl
  | pending b =>
    have hdue : (p.booked a e).due b = p.due b := by
      by_cases hb : b = a
      · subst hb
        have : (p.booked b e).position b = ⟨shares, (p.booked b e).index, p.due b⟩ := by
          rw [position_booked, hposition]
          rfl
        exact due_of_position this
      · exact congrArg Standing.due (hother b hb)
    rw [Query.answer, hp'.pending, hdue, Query.answer, hp.pending]

end Pool

/-- On `d` the pool answers as on `c` whatever is not about the position of `a`. -/
def Chain.SameApart (c d : Chain) (a : Address) : Prop :=
  ∀ q : Pool.Query, q.Apart a → d.query Launch.pool (.pool q) = c.query Launch.pool (.pool q)

/-- A withdrawal of `n` by `a`, whose position is worth `worth`, is paid and leaves a position worth `left`. -/
structure Chain.Withdraws (c : Chain) (a : Address) (n worth left : Nat) (r : Receipt) : Prop where
  paid : ∃ stable held,
    c.query Launch.fToken (.token (.balance a)) = .ok (.amount stable) ∧
    r.chain.query Launch.fToken (.token (.balance a)) = .ok (.amount (stable + n)) ∧
    c.query Launch.fToken (.token (.balance Launch.pool)) = .ok (.amount (held + n)) ∧
    r.chain.query Launch.fToken (.token (.balance Launch.pool)) = .ok (.amount held)
  actual : r.chain.query Launch.pool (.pool (.actual a)) = .ok (.amount left)
  all : n = worth → left = 0
  part : n ≠ worth → left + n = worth ∨ left + n + 1 = worth
  same : c.SameApart r.chain a

namespace World

variable {w : World} {a : Address} {e : Effect} {n : Nat}

/-- An act of `a` that pays no rewards, and settles its position at some number of shares. -/
structure Settles (w : World) (a : Address) (e : Effect) (shares : Nat) : Prop where
  paid : e.booking.paid = 0
  position : e.booking.position = some ⟨shares, w.pool.index, w.pool.due a⟩

theorem settles_of_depositing (h : e.booking = (w.pool.standing a).depositing n) :
    w.Settles a e ((w.pool.standing a).held.shares + (w.pool.standing a).issued n) := by
  constructor
  · rw [h]
    rfl
  · rw [h]
    rfl

theorem settles_of_withdrawing (h : e.booking = (w.pool.standing a).withdrawing n) :
    w.Settles a e ((w.pool.standing a).held.shares - (w.pool.standing a).taken n) := by
  constructor
  · rw [h]
    rfl
  · rw [h]
    rfl

namespace Settles

variable {shares : Nat}

theorem shares_eq (h : w.Settles a e shares) : ((w.acted a e).pool.standing a).held.shares = shares := by
  rw [Pool.held_standing, acted, Pool.position_booked, h.position]
  rfl

/-- The rest of the pool is left as it was. -/
theorem same (h : w.Settles a e shares) (hw : w.Sound) (hw' : (w.acted a e).Sound) :
    w.chain.SameApart (w.acted a e).chain a := by
  intro q hq
  rw [query_pool, query_pool]
  exact hw.pool.answer_booked hw'.pool h.paid h.position hq

end Settles

/-- Nobody pays in more than it has. -/
theorem Move.deposit_le {target : Address} {reply : Reply} {w' : World}
    (hm : w.Move a target (.pool (.deposit n)) reply w') : n ≤ (w.coin .f).balance a := by
  cases hm with
  | deposit hp ht =>
    obtain ⟨-, hle, -⟩ := Token.transferFrom_flow ht
    exact hle

/-- A deposit that succeeds, as an act. -/
theorem Sound.exists_deposited (hw : w.Sound) (ha : a.IsAccount) {r : Receipt}
    (h : w.chain.call a Launch.pool (.pool (.deposit n)) = .ok r) :
    ∃ e : Effect, n ≠ 0 ∧ e.booking = (w.pool.standing a).depositing n ∧ r.chain = (w.acted a e).chain ∧ (w.acted a e).Sound := by
  have hlt : n < wordLimit := by
    have hperm : Call.Permitted Launch.pool (.pool (.deposit n)) := fun _ => Pool.Call.noConfusion
    obtain ⟨w', -, hm⟩ := move_of_call hw.linked hw.pool ha hperm h
    have hheld := hm.deposit_le.trans ((hw.ordered .f).whole.balance_le a)
    exact hheld.trans_lt ((hw.supply_le .f).trans_lt (hw.supply_lt .f))
  have hsound := hw.act ha (.deposit ⟨n, hlt⟩)
  have hcall := hw.call_act ha (.deposit ⟨n, hlt⟩)
  rw [Act.call, h] at hcall
  obtain ⟨e, heffect, hr⟩ := Outcome.map_eq_ok.1 hcall.symm
  rw [act_of_effect heffect] at hsound
  simp only [Act.effect, Outcome.bind_eq_ok, require_eq_ok] at heffect
  obtain ⟨-, hn, -, -, -, -, heffect⟩ := heffect
  cases heffect
  exact ⟨_, hn, rfl, hr ▸ rfl, hsound⟩

/-- A withdrawal of no more than the worth of a position, as an act. -/
theorem Sound.exists_withdrawn (hw : w.Sound) (ha : a.IsAccount) (hn : n ≠ 0) (hle : n ≤ w.pool.worth a) :
    ∃ (e : Effect) (r : Receipt), w.chain.call a Launch.pool (.pool (.withdraw n)) = .ok r ∧
      e.booking = (w.pool.standing a).withdrawing n ∧ e.drawn = 0 ∧ e.returned = n ∧ r.chain = (w.acted a e).chain ∧
      (w.acted a e).Sound := by
  have hlt : n < wordLimit := hle.trans_lt (hw.fits.worth_lt hw.pool a)
  obtain ⟨e, heffect, hbooking, hdrawn, hreturned⟩ : ∃ e,
      (Act.withdraw ⟨n, hlt⟩).effect a (w.pool.standing a) (w.purse a) = .ok e ∧
        e.booking = (w.pool.standing a).withdrawing n ∧ e.drawn = 0 ∧ e.returned = n := by
    have hle' : n ≤ (w.pool.standing a).worth := hle
    rw [Act.effect, require, if_pos hn, Outcome.ok_bind, require, if_pos hle', Outcome.ok_bind]
    exact ⟨_, rfl, rfl, rfl, rfl⟩
  have hsound := hw.act ha (.withdraw ⟨n, hlt⟩)
  have hcall := hw.call_act ha (.withdraw ⟨n, hlt⟩)
  rw [heffect, Outcome.map_ok] at hcall
  rw [act_of_effect heffect] at hsound
  exact ⟨e, _, hcall, hbooking, hdrawn, hreturned, rfl, hsound⟩

private theorem query_actual (hw : w.Sound) (a : Address) :
    w.chain.query Launch.pool (.pool (.actual a)) = .ok (.amount (w.pool.worth a)) := hw.backed_deposits.actual a

/-- A withdrawal does what it should, up to one unit. -/
theorem Sound.exists_withdraws (hw : w.Sound) (ha : a.IsAccount) (hn : n ≠ 0) (hle : n ≤ w.pool.worth a) :
    ∃ (v : World) (r : Receipt), w.chain.call a Launch.pool (.pool (.withdraw n)) = .ok r ∧
      w.chain.Withdraws a n (w.pool.worth a) (v.pool.worth a) r ∧ v.pool.scale = w.pool.scale ∧
      (v.pool.standing a).held.shares = (w.pool.standing a).held.shares - (w.pool.standing a).taken n := by
  obtain ⟨e, r, hr, hbooking, hdrawn, hreturned, hchain, hsound⟩ := hw.exists_withdrawn ha hn hle
  have hsettles := settles_of_withdrawing hbooking
  have hshares := hsettles.shares_eq
  have hscale : ((w.acted a e).pool.standing a).scale = (w.pool.standing a).scale := rfl
  have hworth := Standing.worth_withdrawn hw.pool.scale_pos hw.pool.scale_le hle hscale hshares
  have hheld : n ≤ (w.coin .f).balance Launch.pool := (hle.trans (hw.pool.worth_le a)).trans hw.worthAll_le
  have hpool : ((w.acted a e).coin .f).balance Launch.pool = (w.coin .f).balance Launch.pool - n := by
    change ((w.coin .f).exchange a Launch.pool e.drawn e.returned).balance Launch.pool = _
    rw [Token.balance_exchange, if_pos rfl, hdrawn, hreturned, Nat.add_zero]
  have hstable : ((w.acted a e).coin .f).balance a = (w.coin .f).balance a + n := by
    rw [stable_acted ha, hdrawn, hreturned, Nat.sub_zero]
  refine ⟨w.acted a e, r, hr, ⟨⟨(w.coin .f).balance a, (w.coin .f).balance Launch.pool - n, ?_, ?_, ?_, ?_⟩, ?_, hworth.1,
    hworth.2, ?_⟩, rfl, hshares⟩
  · exact w.query_coin .f (.balance a)
  · rw [hchain, ← hstable]
    exact query_coin _ .f (.balance a)
  · rw [Nat.sub_add_cancel hheld]
    exact w.query_coin .f (.balance Launch.pool)
  · rw [hchain, ← hpool]
    exact query_coin _ .f (.balance Launch.pool)
  · rw [hchain]
    exact query_actual hsound a
  · rw [hchain]
    exact hsettles.same hw hsound

/-- In every state of every wired run, for every account: a deposit that succeeds makes its position worth what is paid in more,
or one unit less than that; then every withdrawal of no more than the position is worth succeeds, pays just what is asked, and
takes as much from what the position is worth or one unit more, and all of it if all is asked; and who withdraws at once what was
paid in is left with as much as before or one unit less, never more.  Neither call changes what the pool answers about rewards,
about other depositors, or about its terms. -/
theorem deposits_return_after_wired (steps : List Step) (hs : ∀ s ∈ steps, s.Wired) (a : Address) (ha : a.IsAccount) (n : Nat)
    (r : Receipt) (h : (Launch.wired.after steps).call a Launch.pool (.pool (.deposit n)) = .ok r) :
    ∃ due before after : Nat,
      (Launch.wired.after steps).query Launch.pool (.pool (.pending a)) = .ok (.amount due) ∧
      (Launch.wired.after steps).query Launch.pool (.pool (.actual a)) = .ok (.amount before) ∧
      r.chain.query Launch.pool (.pool (.actual a)) = .ok (.amount after) ∧
      (after = before + n ∨ after + 1 = before + n) ∧
      (Launch.wired.after steps).SameApart r.chain a ∧
      ∀ m, m ≠ 0 → m ≤ after → ∃ (r' : Receipt) (left : Nat),
        r.chain.call a Launch.pool (.pool (.withdraw m)) = .ok r' ∧ r.chain.Withdraws a m after left r' ∧
        (m = min n after → left = before ∨ left + 1 = before) := by
  obtain ⟨w, hchain, hw⟩ := exists_after_wired hs
  rw [hchain] at h ⊢
  obtain ⟨e, hn, hbooking, hr, hsound⟩ := hw.exists_deposited ha h
  have hsettles := settles_of_depositing hbooking
  have hshares := hsettles.shares_eq
  have hpos := hw.pool.scale_pos
  have hle := hw.pool.scale_le
  have hscale : ((w.acted a e).pool.standing a).scale = (w.pool.standing a).scale := rfl
  have hpending : w.chain.query Launch.pool (.pool (.pending a)) = .ok (.amount (w.pool.due a)) := by
    rw [query_pool, Pool.Query.answer, hw.pool.pending, Outcome.map_ok]
  rw [hr]
  refine ⟨_, w.pool.worth a, (w.acted a e).pool.worth a, hpending, query_actual hw a, query_actual hsound a, ?_, ?_, ?_⟩
  · exact Standing.worth_deposited hpos hle hn hscale hshares
  · exact hsettles.same hw hsound
  · intro m hm hmle
    obtain ⟨v, r', hr', hwithdraws, hv, hleft⟩ := hsound.exists_withdraws ha hm hmle
    refine ⟨r', _, hr', hwithdraws, ?_⟩
    rintro rfl
    exact Standing.worth_returned hpos hle hn hscale hshares hv hleft

end World

/-! ### A deposit after a loss -/

namespace Launch

/-- The pool bears a loss, and then somebody joins it. -/
def joinedTrades : List Step :=
  fallingTrades 1232200 ++
    [.call keeper protocol (.protocol (.rebalance Level.secondRatio)), .call admin pool (.pool (.deposit 1000000007))]

theorem joinedTrades_wired : ∀ s ∈ joinedTrades, s.Wired := by
  intro s hs
  rcases List.mem_append.1 hs with h | h
  · exact fallingTrades_wired _ s h
  · simp only [List.mem_cons, List.not_mem_nil, or_false] at h
    rcases h with rfl | rfl
    · exact ⟨trivial, fun _ => Protocol.Call.noConfusion⟩
    · exact ⟨trivial, fun _ => Pool.Call.noConfusion⟩

end Launch

/-- Both roundings cost a unit when five units are paid in and taken out again. -/
theorem World.deposits_return_after_joinedTrades : (∀ s ∈ Launch.joinedTrades, s.Wired) ∧ Launch.admin.IsAccount ∧
    ∃ r : Receipt, (Launch.wired.after Launch.joinedTrades).call Launch.admin Launch.pool (.pool (.deposit 5)) = .ok r ∧
      (Launch.wired.after Launch.joinedTrades).query Launch.pool (.pool (.actual Launch.admin)) = .ok (.amount 1000000006) ∧
      r.chain.query Launch.pool (.pool (.actual Launch.admin)) = .ok (.amount 1000000010) ∧
      ∃ (r' : Receipt) (left : Nat), r.chain.call Launch.admin Launch.pool (.pool (.withdraw 5)) = .ok r' ∧
        r.chain.Withdraws Launch.admin 5 1000000010 left r' ∧ (left = 1000000006 ∨ left + 1 = 1000000006) := by
  have hbefore : (Launch.wired.after Launch.joinedTrades).query Launch.pool (.pool (.actual Launch.admin)) =
      .ok (.amount 1000000006) := by
    decide +kernel
  have hcall : ((Launch.wired.after Launch.joinedTrades).call Launch.admin Launch.pool (.pool (.deposit 5))).map
      (fun r => r.chain.query Launch.pool (.pool (.actual Launch.admin))) = .ok (.ok (.amount 1000000010)) := by
    decide +kernel
  obtain ⟨r, hr, hafter⟩ := Outcome.map_eq_ok.1 hcall
  have hadmin : Launch.admin.IsAccount := trivial
  obtain ⟨due, before, after, -, hq, hq', -, -, hwithdraw⟩ :=
    deposits_return_after_wired _ Launch.joinedTrades_wired _ hadmin 5 r hr
  cases Reply.amount.inj (Except.ok.inj (hq.symm.trans hbefore))
  cases Reply.amount.inj (Except.ok.inj (hq'.symm.trans hafter))
  obtain ⟨r', left, hr', hw, hleft⟩ := hwithdraw 5 (by decide) (by decide)
  exact ⟨Launch.joinedTrades_wired, hadmin, r, hr, hbefore, hafter, r', left, hr', hw, hleft rfl⟩

end SplitReserve
