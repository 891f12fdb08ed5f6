import SplitReserve.Proofs.World.Act
import SplitReserve.Proofs.World.Census

/-!
# A relay of depositors

One stable token makes any number of accounts depositors.  In each lap of a relay a guest deposits it, withdraws it and hands it to
the next, and keeps an open position with nothing in it.  Main statement: after `n` laps `n` guests have such positions, the next one
is ready to deposit, and the counter of depositors stands at `n`, or is full (`exists_after_relay`).
-/

namespace SplitReserve

namespace Launch

/-- The first guest gets a stable token, and lets the pool draw it. -/
def relayStart : List Step :=
  [.call admin protocol (.protocol (.bootstrap firstReserve)),
    .call admin fToken (.token (.transfer (.guest 0) 1)),
    .call (.guest 0) fToken (.token (.approve pool 1))]

/-- A guest deposits and withdraws the token and hands it to the next, who lets the pool draw it. -/
def relayLap (k : Nat) : List Step :=
  [.call (.guest k) pool (.pool (.deposit 1)),
    .call (.guest k) pool (.pool (.withdraw 1)),
    .call (.guest k) fToken (.token (.transfer (.guest (k + 1)) 1)),
    .call (.guest (k + 1)) fToken (.token (.approve pool 1))]

def relay (n : Nat) : List Step := relayStart ++ (List.range n).flatMap relayLap

theorem relay_succ (n : Nat) : relay (n + 1) = relay n ++ relayLap n := by
  rw [relay, List.range_succ, List.flatMap_append, List.flatMap_singleton, ← List.append_assoc, relay]

theorem relayStart_wired : ∀ s ∈ relayStart, s.Wired := by
  simp [relayStart, Step.Wired, Call.Permitted, Token.Call.Managing, admin, Address.guest, Address.IsAccount,
    fToken_ne_reserveToken]

theorem relayLap_wired (k : Nat) : ∀ s ∈ relayLap k, s.Wired := by
  simp [relayLap, Step.Wired, Call.Permitted, Token.Call.Managing, Address.guest, Address.IsAccount,
    fToken_ne_reserveToken]

theorem relay_wired (n : Nat) : ∀ s ∈ relay n, s.Wired := by
  intro s hs
  rcases List.mem_append.1 hs with hs | hs
  · exact relayStart_wired s hs
  · obtain ⟨k, -, hk⟩ := List.mem_flatMap.1 hs
    exact relayLap_wired k s hk

end Launch

namespace Standing

/-- The standing of who has never had a position, in a pool without losses and rewards. -/
def newcomer : Standing := ⟨none, false, shareScale, 0⟩

/-- The standing of who has one share there. -/
def holder : Standing := ⟨some ⟨1, 0, 0⟩, true, shareScale, 0⟩

/-- The standing of who has had it back. -/
def leaver : Standing := ⟨some default, true, shareScale, 0⟩

end Standing

theorem Address.guest_isAccount (k : Nat) : (Address.guest k).IsAccount := trivial

namespace World

variable {w : World} {a b : Address} {n : Nat}

/-- The world after `n` laps. -/
structure Relayed (w : World) (n : Nat) : Prop where
  sound : w.Sound
  standing : ∀ k < wideLimit, w.pool.standing (.guest k) = if k < n then .leaver else .newcomer
  depositors : w.pool.depositors = clampWord n
  stable : 1 ≤ (w.purse (.guest n)).stable
  allowed : 1 ≤ (w.purse (.guest n)).allowed

/-! ### One lap -/

theorem Relayed.effect_deposit (h : w.Relayed n) (hn : n < wideLimit) :
    ∃ e, (Act.deposit ⟨1, by decide⟩).effect (.guest n) (w.pool.standing (.guest n)) (w.purse (.guest n)) = .ok e ∧
      e.booking = Standing.newcomer.depositing 1 := by
  rw [h.standing n hn, if_neg (lt_irrefl n), Act.effect]
  simp only [require, if_pos h.allowed, if_pos h.stable]
  exact ⟨_, rfl, rfl⟩

theorem effect_withdraw_holder (a : Address) (m : Purse) :
    ∃ e, (Act.withdraw ⟨1, by decide⟩).effect a .holder m = .ok e ∧
      e.booking = Standing.holder.withdrawing 1 ∧ e.drawn = 0 ∧ e.returned = 1 :=
  ⟨_, rfl, rfl, rfl, rfl⟩

theorem effect_close_leaver (a : Address) (m : Purse) :
    ∃ e, Act.close.effect a .leaver m = .ok e ∧ e.booking = Standing.closing :=
  ⟨_, rfl, rfl⟩

/-- The next guest deposits the token and becomes a depositor. -/
theorem Relayed.exists_deposit (h : w.Relayed n) (hn : n < wideLimit) :
    ∃ v : World, w.chain.apply (.guest n) Launch.pool (.pool (.deposit 1)) = v.chain ∧ v.Sound ∧
      v.pool.standing (.guest n) = .holder ∧ (∀ b, b ≠ .guest n → v.pool.standing b = w.pool.standing b) ∧
      v.pool.depositors = clampWord (n + 1) := by
  obtain ⟨e, he, hbooking⟩ := h.effect_deposit hn
  obtain ⟨happly, hv⟩ := h.sound.apply_of_effect (Address.guest_isAccount n) he
  refine ⟨_, happly, hv, ?_, fun b hb => Pool.standing_booked_of_ne hb, ?_⟩
  · rw [pool_acted, hbooking, Pool.standing_booked, h.standing n hn, if_neg (lt_irrefl n)]
    rfl
  · rw [depositors_acted, hbooking, h.depositors]
    exact clampWord_clampWord_add n 1

/-- Who has one share gets a stable token for it, and stays a depositor. -/
theorem Sound.exists_withdraw_holder (hw : w.Sound) (ha : a.IsAccount) (hholder : w.pool.standing a = .holder) :
    ∃ v : World, w.chain.apply a Launch.pool (.pool (.withdraw 1)) = v.chain ∧ v.Sound ∧
      v.pool.standing a = .leaver ∧ (∀ b, b ≠ a → v.pool.standing b = w.pool.standing b) ∧
      v.pool.depositors = w.pool.depositors ∧ 1 ≤ (v.coin .f).balance a := by
  obtain ⟨e, he, hbooking, hdrawn, hreturned⟩ := effect_withdraw_holder a (w.purse a)
  rw [← hholder] at he
  obtain ⟨happly, hv⟩ := hw.apply_of_effect ha he
  refine ⟨_, happly, hv, ?_, fun b hb => Pool.standing_booked_of_ne hb, ?_, ?_⟩
  · rw [pool_acted, hbooking, Pool.standing_booked, hholder]
    rfl
  · rw [depositors_acted, hbooking]
    rfl
  · rw [stable_acted ha, hdrawn, hreturned]
    exact Nat.le_add_left 1 _

/-- A successful call of a token writes the token and nothing else. -/
theorem Sound.apply_token (hw : w.Sound) (ha : a.IsAccount) {k : Coin} {c : Token.Call} {t : Token} {log : List Event}
    (hn : (Call.token c).Permitted k.address) (ht : c.apply (w.coin k) a = .ok (t, log)) :
    w.chain.apply a k.address (.token c) = (w.setCoin k t).chain ∧ (w.setCoin k t).Sound := by
  obtain ⟨r, hr, -, hchain⟩ := (Move.token ht).exists_call hw.linked hw.pool
  refine ⟨?_, hw.token ha hn ht⟩
  rw [Chain.apply, hr]
  exact hchain

/-- Who has a stable token can hand it to another, who lets the pool draw it. -/
theorem Sound.exists_handOver (hw : w.Sound) (ha : a.IsAccount) (hb : b.IsAccount) (hab : a ≠ b)
    (hle : 1 ≤ (w.coin .f).balance a) :
    ∃ u : World, (w.chain.apply a Launch.fToken (.token (.transfer b 1))).apply b Launch.fToken
        (.token (.approve Launch.pool 1)) = u.chain ∧ u.Sound ∧ u.pool = w.pool ∧ 1 ≤ (u.purse b).stable ∧
      1 ≤ (u.purse b).allowed := by
  obtain ⟨t, log, ht⟩ := (hw.ordered .f).whole.exists_move hle b
  obtain ⟨htransfer, hv⟩ := hw.apply_token (k := .f) (c := .transfer b 1) ha
    ⟨not_false, fun e => absurd e Launch.fToken_ne_reserveToken⟩ ht
  have hcoin : (w.setCoin .f t).coin .f = t := by rw [coin_setCoin, if_pos rfl]
  have happrove : t.approve b Launch.pool 1 = .ok (t.setAllowance b Launch.pool 1, _) := rfl
  obtain ⟨happly, hu⟩ := hv.apply_token (k := .f) (c := .approve Launch.pool 1) hb
    ⟨not_false, fun e => absurd e Launch.fToken_ne_reserveToken⟩ (by rw [hcoin]; exact happrove)
  refine ⟨_, (congrArg (Chain.apply · _ _ _) htransfer).trans happly, hu, rfl, ?_, ?_⟩
  · change 1 ≤ (((w.setCoin .f t).setCoin .f _).coin .f).balance b
    rw [coin_setCoin, if_pos rfl, Token.balance_setAllowance, (Token.transfer_flow ht).1.balance_target hab]
    exact Nat.le_add_left 1 _
  · change 1 ≤ (((w.setCoin .f t).setCoin .f _).coin .f).allowance b Launch.pool
    rw [coin_setCoin, if_pos rfl, Token.allowance_setAllowance, if_pos ⟨rfl, rfl⟩]

theorem Relayed.exists_lap (h : w.Relayed n) (hn : n + 1 < wideLimit) :
    ∃ u : World, w.chain.after (Launch.relayLap n) = u.chain ∧ u.Relayed (n + 1) := by
  have hlt : n < wideLimit := (Nat.lt_succ_self n).trans hn
  have hguest := Address.guest_isAccount n
  have hne : Address.guest n ≠ .guest (n + 1) := fun e => absurd ((Address.guest_inj hlt hn).1 e) (Nat.succ_ne_self n).symm
  obtain ⟨v, hdeposit, hv, hholder, hothers, hcount⟩ := h.exists_deposit hlt
  obtain ⟨v', hwithdraw, hv', hleaver, hothers', hcount', hstable⟩ := hv.exists_withdraw_holder hguest hholder
  obtain ⟨u, hhand, hu, hpool, hstable', hallowed⟩ :=
    hv'.exists_handOver hguest (Address.guest_isAccount (n + 1)) hne hstable
  refine ⟨u, ?_, hu, fun k hk => ?_, ?_, hstable', hallowed⟩
  · rw [← hwithdraw, ← hdeposit] at hhand
    exact hhand
  · rw [hpool]
    by_cases hkn : k = n
    · rw [hkn, hleaver, if_pos (Nat.lt_succ_self n)]
    · have hk' : Address.guest k ≠ .guest n := fun e => hkn ((Address.guest_inj hk hlt).1 e)
      have hiff : k < n + 1 ↔ k < n := by omega
      rw [hothers' _ hk', hothers _ hk', h.standing k hk]
      simp only [hiff]
  · rw [hpool, hcount', hcount]

/-! ### All laps -/

theorem relayStart_ready : (ofChain? (Launch.wired.after Launch.relayStart)).any fun w =>
    decide ((w.pool.positions.entries = [] ∧ w.pool.opened.entries = [] ∧ w.pool.depositors = 0) ∧
      (w.pool.scale = shareScale ∧ w.pool.index = 0) ∧
      1 ≤ (w.purse (.guest 0)).stable ∧ 1 ≤ (w.purse (.guest 0)).allowed) := by
  decide +kernel

theorem exists_relayed_zero : ∃ w : World, Launch.wired.after Launch.relayStart = w.chain ∧ w.Relayed 0 := by
  obtain ⟨w, hchain, hw⟩ := exists_after_wired Launch.relayStart_wired
  have hready := relayStart_ready
  rw [hchain, ofChain?_chain] at hready
  obtain ⟨⟨hpositions, hopened, hdepositors⟩, ⟨hscale, hindex⟩, hstable, hallowed⟩ := of_decide_eq_true hready
  refine ⟨w, hchain, hw, fun k _ => ?_, hdepositors, hstable, hallowed⟩
  have hposition : w.pool.positions.find? (.guest k) = none := by
    rw [Table.find?, hpositions]
    rfl
  have hopen : w.pool.isOpen (.guest k) = false := by
    rw [Pool.isOpen, Table.get, Table.find?, hopened]
    rfl
  rw [Pool.standing, hposition, hopen, hscale, hindex]
  rfl

/-- After a relay of `n` laps, the first `n` guests have open positions with nothing in them. -/
theorem exists_after_relay (hn : n < wideLimit) :
    ∃ w : World, Launch.wired.after (Launch.relay n) = w.chain ∧ w.Relayed n := by
  induction n with
  | zero =>
    rw [Launch.relay, List.range_zero, List.flatMap_nil, List.append_nil]
    exact exists_relayed_zero
  | succ n ih =>
    obtain ⟨w, hchain, hw⟩ := ih ((Nat.lt_succ_self n).trans hn)
    rw [Launch.relay_succ, Chain.after_append, hchain]
    exact hw.exists_lap hn

end World

end SplitReserve
