import SplitReserve.Proofs.Pool.Counts
import SplitReserve.Proofs.Pool.Worth

/-!
# Bookings

What an act of an account does to the books of a pool, in closed form.  An act sees no more of a pool than the `Standing` of its
account: its own position, the scale and the index.  What it writes is a `Booking`, which `Pool.booked` enters in the books.  Main
statements: each of the four acts books what its standing says or fails for a reason that its standing shows (`Sound.deposit_eq`
and the three after it); a booking of one account changes no other's standing (`standing_booked_of_ne`); and the bookings of two
accounts commute, but for the counter of depositors, which saturates (`booked_comm`, `recount_comm`).
-/

namespace SplitReserve

/-- What an account has in a pool, and the terms on which it has it. -/
structure Standing where
  /-- The position, once there has been one. -/
  position : Option Position
  isOpen : Bool
  scale : Nat
  index : Nat

/-- What an act writes to the books of a pool. -/
structure Booking where
  /-- The new position, if it is written. -/
  position : Option Position := none
  /-- Whether the position is opened or closed. -/
  opens : Option Bool := none
  issued : Nat := 0
  taken : Nat := 0
  paid : Nat := 0

namespace Standing

def held (s : Standing) : Position := s.position.getD default

def due (s : Standing) : Nat := s.held.claimable + s.held.shares * (s.index - s.held.snapshot) / indexScale

def worth (s : Standing) : Nat := s.held.shares * s.scale / shareScale

/-- The shares issued for a deposit. -/
def issued (s : Standing) (n : Nat) : Nat := n * shareScale / s.scale

/-- The shares taken for a withdrawal. -/
def taken (s : Standing) (n : Nat) : Nat :=
  if n = s.worth then s.held.shares else min (divUp (n * shareScale) s.scale) s.held.shares

def depositing (s : Standing) (n : Nat) : Booking where
  position := some ⟨s.held.shares + s.issued n, s.index, s.due⟩
  opens := if s.isOpen then none else some true
  issued := s.issued n

def withdrawing (s : Standing) (n : Nat) : Booking where
  position := some ⟨s.held.shares - s.taken n, s.index, s.due⟩
  taken := s.taken n

/-- Who has never had a position is paid nothing, and no position is written. -/
def claiming (s : Standing) : Booking where
  position := s.position.map fun _ => ⟨s.held.shares, s.index, 0⟩
  paid := s.due

def closing : Booking where
  position := some default
  opens := some false

theorem taken_le (s : Standing) (n : Nat) : s.taken n ≤ s.held.shares := by
  unfold taken
  split
  · exact le_rfl
  · exact Nat.min_le_right _ _

end Standing

namespace Pool

variable {p p' : Pool} {a b : Address} {n : Nat} {e e' : Booking}

def standing (p : Pool) (a : Address) : Standing := ⟨p.positions.find? a, p.isOpen a, p.scale, p.index⟩

/-- The number of depositors when a position has been opened, or closed. -/
def recount (opens : Option Bool) (n : Nat) : Nat :=
  match opens with
  | none => n
  | some true => clampWord (n + 1)
  | some false => n - 1

/-- Enter a booking of `a` in the books. -/
def booked (p : Pool) (a : Address) (e : Booking) : Pool :=
  { p with
    positions := e.position.elim p.positions (p.positions.insert a)
    opened := e.opens.elim p.opened (p.opened.insert a)
    depositors := recount e.opens p.depositors
    shares := p.shares + e.issued - e.taken
    owed := p.owed - e.paid
    claimed := if e.paid = 0 then p.claimed else clampWord (p.claimed + e.paid) }

theorem held_standing (p : Pool) (a : Address) : (p.standing a).held = p.position a := rfl

theorem due_standing (p : Pool) (a : Address) : (p.standing a).due = p.due a := rfl

theorem worth_standing (p : Pool) (a : Address) : (p.standing a).worth = p.worth a := rfl

/-! ### The acts -/

theorem Fits.shares_lt (h : p.Fits) (hp : p.Sound) : p.shares < wordLimit * shareScale := by
  have hlt : p.shares * p.scale < p.worthAll * shareScale + shareScale := Nat.lt_div_mul_add (by decide)
  have hle : p.worthAll * shareScale + shareScale ≤ wordLimit * shareScale := by
    rw [← Nat.succ_mul]
    exact Nat.mul_le_mul_right _ h
  calc p.shares ≤ p.shares * p.scale := Nat.le_mul_of_pos_right _ hp.scale_pos
    _ < p.worthAll * shareScale + shareScale := hlt
    _ ≤ wordLimit * shareScale := hle

/-- Since the scale is at most that of a new pool, a deposit is issued as many shares at least. -/
private theorem le_issued (hp : p.Sound) (a : Address) (n : Nat) : n ≤ (p.standing a).issued n :=
  (Nat.le_div_iff_mul_le hp.scale_pos).2 (Nat.mul_le_mul_left _ hp.scale_le)

/-- Opening a position that is open writes nothing. -/
private theorem openPosition_eq (p : Pool) (a : Address) (q : Position) (shares : Nat) :
    { (p.setPosition a q).openPosition a with shares } =
      { p.booked a { position := some q, opens := if p.isOpen a then none else some true } with shares } := by
  unfold openPosition
  rw [show (p.setPosition a q).isOpen a = p.isOpen a from rfl]
  split
  · rfl
  · simp only [booked, recount, setPosition, if_true]
    rfl

/-- The books stand in the way of no deposit but that of nothing. -/
theorem Sound.deposit_eq (hp : p.Sound) (hf : p.Fits) (a : Address) (hn : n < wordLimit) :
    p.deposit a n = (do
      require (n ≠ 0) .invalidAmount
      return (p.booked a ((p.standing a).depositing n), (p.standing a).issued n)) := by
  have hscale : p.scale ≠ 0 := hp.scale_pos.ne'
  have hproduct : n * shareScale < wideLimit := by
    have : wordLimit * shareScale < wideLimit := by decide
    exact (Nat.mul_le_mul_right _ hn.le).trans_lt this
  have hissued : sharesIssued n p.scale = some ((p.standing a).issued n) := mulDivWide_eq_some.2 ⟨hscale, hproduct, rfl⟩
  -- All shares together are within range, with room to spare.
  have htotal : p.shares + (p.standing a).issued n < wideLimit := by
    have hshares := hf.shares_lt hp
    have hle : (p.standing a).issued n ≤ n * shareScale := Nat.div_le_self _ _
    have hlimit : 2 * (wordLimit * shareScale) < wideLimit := by decide
    have := Nat.mul_le_mul_right shareScale hn.le
    omega
  have hheld : (p.position a).shares + (p.standing a).issued n < wideLimit :=
    (Nat.add_le_add_right (hp.shares_le a) _).trans_lt htotal
  have hle := le_issued hp a n
  rw [Standing.depositing, held_standing, due_standing]
  -- What matters of the shares issued has been said; spelled out they are a quotient that nothing should evaluate.
  generalize (p.standing a).issued n = k at *
  by_cases hz : n ≠ 0
  · have hok : p.deposit a n =
        .ok ({ (p.setPosition a ⟨(p.position a).shares + k, p.index, p.due a⟩).openPosition a with shares := p.shares + k },
          k) := by
      have hpos : k ≠ 0 := by omega
      simp only [Pool.deposit, Outcome.bind_eq_ok, require_eq_ok, demand_eq_ok, wide?_eq_some]
      exact ⟨(), hz, (), hscale, _, hp.settled a, k, hissued, (), hpos, _, ⟨hheld, rfl⟩, _, ⟨htotal, rfl⟩, rfl⟩
    rw [hok, openPosition_eq, require, if_pos hz]
    rfl
  · rw [Pool.deposit, require_bind, if_neg hz, require, if_neg hz]
    rfl

/-- The books let an account withdraw as much as its position is worth. -/
theorem Sound.withdraw_eq (hp : p.Sound) (hf : p.Fits) (a : Address) (n : Nat) :
    p.withdraw a n = (do
      require (n ≠ 0) .invalidAmount
      require (n ≤ p.worth a) .insufficientPoolBalance
      return (p.booked a ((p.standing a).withdrawing n), (p.standing a).taken n)) := by
  have hworth := hf.worth_lt hp a
  have hactual : clampWord (p.worth a) = p.worth a := clampWord_of_lt hworth
  rw [Pool.withdraw, Standing.withdrawing, held_standing, due_standing]
  simp only [require_bind, hp.settled, hf.toStable hp, hactual, Outcome.ok_bind]
  by_cases hz : n ≠ 0
  · by_cases hle : n ≤ p.worth a
    · have hproduct : n * shareScale < wideLimit := by
        have : wordLimit * shareScale < wideLimit := by decide
        exact (Nat.mul_le_mul_right _ (hle.trans hworth.le)).trans_lt this
      have htaken : sharesTaken n p.scale = some (divUp (n * shareScale) p.scale) :=
        mulDivWideUp_eq_some.2 ⟨hp.scale_pos.ne', hproduct, rfl⟩
      have hsub : (p.standing a).taken n ≤ (p.position a).shares := (p.standing a).taken_le n
      have hshares : (p.standing a).taken n = if n = p.worth a then (p.position a).shares
          else min (divUp (n * shareScale) p.scale) (p.position a).shares := rfl
      simp only [if_pos hz, if_pos hle]
      by_cases hall : n = p.worth a
      · rw [if_pos hall] at hshares
        rw [if_pos hall, ← hshares, subtract, if_pos le_rfl]
        rfl
      · rw [if_neg hall] at hshares
        rw [if_neg hall, htaken, demand_some, Outcome.map_ok, ← hshares]
        generalize (p.standing a).taken n = k at *
        rw [Outcome.ok_bind, subtract, if_pos hsub]
        rfl
    · simp only [if_pos hz, if_neg hle]
  · rw [if_neg hz, if_neg hz]

/-- A claim never fails on the books, and pays what is due. -/
theorem Sound.claim_eq (hp : p.Sound) (a : Address) : p.claim a = .ok (p.booked a (p.standing a).claiming, p.due a) := by
  cases hpos : p.positions.find? a with
  | none =>
    have hdue : p.due a = 0 := by
      have hd : p.position a = default := by rw [position, Table.get, hpos, Option.getD_none]
      have := (p.due_bounds a).1
      rw [hd, Position.credit_default] at this
      unfold indexScale at this
      omega
    have hclaiming : (p.standing a).claiming = {} := by
      rw [Standing.claiming, due_standing, hdue, standing, hpos]
      rfl
    rw [Pool.claim, hpos, hclaiming, hdue]
    rfl
  | some s =>
    have hclaiming : (p.standing a).claiming = { position := some ⟨(p.position a).shares, p.index, 0⟩, paid := p.due a } := by
      rw [Standing.claiming, due_standing, held_standing, standing, hpos]
      rfl
    rw [Pool.claim, hpos, hclaiming]
    simp only [hp.settled, Outcome.ok_bind]
    by_cases hdue : p.due a = 0
    · rw [if_pos hdue, hdue]
      rfl
    · have hle : p.due a ≤ (p.setPosition a ⟨(p.position a).shares, p.index, 0⟩).owed := hp.due_le a
      rw [if_neg hdue, require, if_pos hle, Outcome.ok_bind, booked]
      simp only [if_neg hdue]
      rfl

/-- A position can be closed when it is open and has neither shares nor rewards. -/
theorem Sound.close_eq (hp : p.Sound) (a : Address) :
    p.close a = (do
      require (p.isOpen a) .noPosition
      require ((p.position a).shares = 0 ∧ p.due a = 0) .positionNotEmpty
      return p.booked a Standing.closing) := by
  rw [Pool.close]
  simp only [require_bind, hp.settled, Outcome.ok_bind]
  by_cases ho : p.isOpen a = true
  · rw [if_pos ho, if_pos ho]
    rfl
  · rw [if_neg ho, if_neg ho]

/-! ### What a booking leaves -/

theorem position_booked (p : Pool) (a : Address) (e : Booking) :
    (p.booked a e).position a = e.position.getD (p.position a) := by
  obtain ⟨position, _⟩ := e
  cases position with
  | none => rfl
  | some s => exact (Table.get_insert _ _ _ _).trans (if_pos rfl)

theorem isOpen_booked (p : Pool) (a : Address) (e : Booking) : (p.booked a e).isOpen a = e.opens.getD (p.isOpen a) := by
  obtain ⟨_, opens, _⟩ := e
  cases opens with
  | none => rfl
  | some o => exact (Table.get_insert _ _ _ _).trans (if_pos rfl)

theorem standing_booked (p : Pool) (a : Address) (e : Booking) :
    (p.booked a e).standing a =
      { p.standing a with
        position := e.position.or (p.standing a).position
        isOpen := e.opens.getD (p.standing a).isOpen } := by
  have hposition : (p.booked a e).positions.find? a = e.position.or (p.positions.find? a) := by
    obtain ⟨position, _⟩ := e
    cases position with
    | none => rfl
    | some s => exact (Table.find?_insert _ _ _ _).trans (if_pos rfl)
  rw [standing, hposition, isOpen_booked]
  rfl

/-- A position that has just been settled has no rewards but those it can claim. -/
theorem due_of_position {s c : Nat} (h : p.position a = ⟨s, p.index, c⟩) : p.due a = c := by
  rw [due, h, Nat.sub_self, Nat.mul_zero, Nat.zero_div, Nat.add_zero]

/-! ### Bookings of several accounts -/

/-- A booking of one account leaves every other as it is. -/
theorem standing_booked_of_ne (h : b ≠ a) : (p.booked a e).standing b = p.standing b := by
  have hposition : (p.booked a e).positions.find? b = p.positions.find? b := by
    obtain ⟨position, _⟩ := e
    cases position with
    | none => rfl
    | some s => exact (Table.find?_insert _ _ _ _).trans (if_neg h)
  have hopen : (p.booked a e).isOpen b = p.isOpen b := by
    obtain ⟨_, opens, _⟩ := e
    cases opens with
    | none => rfl
    | some o => exact (Table.get_insert _ _ _ _).trans (if_neg h)
  rw [standing, hposition, hopen, standing]
  rfl

/-- Writes of two accounts to one table commute. -/
private theorem elim_insert_comm {ν : Type} (t : Table Address ν) (h : a ≠ b) (o o' : Option ν) :
    o'.elim (o.elim t (t.insert a)) ((o.elim t (t.insert a)).insert b) =
      o.elim (o'.elim t (t.insert b)) ((o'.elim t (t.insert b)).insert a) := by
  cases o with
  | none => rfl
  | some v =>
    cases o' with
    | none => rfl
    | some v' => exact Table.insert_comm t h v v'

/-- Payments saturate in any order. -/
private theorem claimed_comm (c k k' : Nat) :
    (if k' = 0 then if k = 0 then c else clampWord (c + k) else clampWord ((if k = 0 then c else clampWord (c + k)) + k')) =
      if k = 0 then if k' = 0 then c else clampWord (c + k')
      else clampWord ((if k' = 0 then c else clampWord (c + k')) + k) := by
  by_cases hk : k = 0
  · rw [if_pos hk, if_pos hk]
  · by_cases hk' : k' = 0
    · rw [if_pos hk', if_pos hk', if_neg hk]
    · rw [if_neg hk', if_neg hk, if_neg hk, if_neg hk', clampWord_clampWord_add, clampWord_clampWord_add, Nat.add_right_comm]

/-- Bookings of two accounts commute when there are shares for both; `depositors` stands for the one counter that need not be
the same. -/
theorem booked_comm (h : a ≠ b) (htaken : e.taken + e'.taken ≤ p.shares) (depositors : Nat) :
    { (p.booked a e).booked b e' with depositors } = { (p.booked b e').booked a e with depositors } := by
  have hshares : p.shares + e.issued - e.taken + e'.issued - e'.taken = p.shares + e'.issued - e'.taken + e.issued - e.taken := by
    omega
  simp only [booked, elim_insert_comm p.positions h, elim_insert_comm p.opened h, claimed_comm p.claimed, hshares,
    Nat.sub_right_comm p.owed]

/-- Opening and closing commute while the counter is neither full nor empty. -/
theorem recount_comm {o o' : Option Bool} (hopen : o = some true ∨ o' = some true → n < maxWord)
    (hclose : o = some false ∨ o' = some false → 0 < n) : recount o (recount o' n) = recount o' (recount o n) := by
  have hup : n < maxWord → clampWord (n + 1) - 1 = n ∧ clampWord (n - 1 + 1) = max 1 n := by
    intro hn
    unfold clampWord
    unfold maxWord wordLimit at *
    omega
  rcases o with _ | _ | _ <;> rcases o' with _ | _ | _ <;> try rfl
  · obtain ⟨h₁, h₂⟩ := hup (hopen (Or.inr rfl))
    have := hclose (Or.inl rfl)
    change clampWord (n + 1) - 1 = clampWord (n - 1 + 1)
    omega
  · obtain ⟨h₁, h₂⟩ := hup (hopen (Or.inl rfl))
    have := hclose (Or.inr rfl)
    change clampWord (n - 1 + 1) = clampWord (n + 1) - 1
    omega

end Pool

end SplitReserve
