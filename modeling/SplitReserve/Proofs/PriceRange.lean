import Mathlib.Data.Nat.SuccPred
import Mathlib.Order.SuccPred.Relation
import SplitReserve.Proofs.PriceFeed

/-!
# The prices that a feed can reach

A step of a feed is relative and a reported price is an integer, so a low price is stuck: when `maxStep` basis points of it are at
most one unit, no other price is near enough to be accepted.  From any other price the feed can go up and down by one unit at a
time, and it reaches everything from `10000 / maxStep` on (`reachable_iff`).  It cannot get below, as no step leads there from
above (`InStep.floor_le`).  A run of accepted reports is a walk of such steps (`exists_submitAll_iff`), whatever times it is
stamped with.  Main statement: `ranged_of_validate`.
-/

namespace SplitReserve

open Relation

variable {s r t : Nat}

/-! ### Steps -/

/-- The reported price `t` is less than `s` basis points away from `r`. -/
def InStep (s r t : Nat) : Prop := distance t r * bpsScale < s * r

theorem distance_mul_right (a b k : Nat) : distance (a * k) (b * k) = distance a b * k := by
  zify
  rw [cast_distance, cast_distance]
  push_cast
  rw [← sub_mul, abs_mul, Nat.abs_cast]

/-- The factor from reported prices to prices does not matter. -/
theorem checkStep_eq_ok_iff_inStep (hr : r ≠ 0) :
    checkStep (t * feedFactor) (r * feedFactor) s = .ok ↔ InStep s r t := by
  have hfactor : 0 < feedFactor := by decide
  have hold : r * feedFactor ≠ 0 := Nat.mul_ne_zero hr hfactor.ne'
  unfold checkStep InStep
  rw [if_neg hold, distance_mul_right, ← Nat.mul_assoc, Nat.mul_right_comm (distance t r)]
  simp only [Nat.mul_le_mul_right_iff hfactor, ite_eq_right_iff, reduceCtorEq, imp_false, not_le]

theorem inStep_self (hs : s ≠ 0) (hr : r ≠ 0) : InStep s r r := by
  rw [InStep, distance, if_pos le_rfl, Nat.sub_self, Nat.zero_mul]
  exact Nat.pos_of_ne_zero (Nat.mul_ne_zero hs hr)

theorem InStep.ne_zero (h : InStep s r t) (hs : s ≤ bpsScale) : t ≠ 0 := by
  rintro rfl
  rw [InStep, distance, if_pos (Nat.zero_le _), Nat.sub_zero, Nat.mul_comm] at h
  exact absurd h (Nat.not_lt.2 (Nat.mul_le_mul_right _ hs))

/-- A price of which a step is at most one unit has no other one near. -/
theorem InStep.eq_of_le (h : InStep s r t) (hr : r * s ≤ bpsScale) : t = r := by
  have hlt : distance t r * bpsScale < 1 * bpsScale := by
    rw [Nat.one_mul]
    exact h.trans_le (Nat.mul_comm r s ▸ hr)
  have hzero : distance t r = 0 := Nat.lt_one_iff.1 (Nat.lt_of_mul_lt_mul_right hlt)
  unfold distance at hzero
  split at hzero <;> omega

theorem distance_succ_left (n : Nat) : distance (n + 1) n = 1 := by
  unfold distance
  split <;> omega

theorem distance_succ_right (n : Nat) : distance n (n + 1) = 1 := by
  unfold distance
  split <;> omega

/-- A price of which a step is more than one unit is in step with its neighbours. -/
theorem inStep_of_distance_eq_one (h : distance t r = 1) (hr : bpsScale < r * s) : InStep s r t := by
  rw [InStep, h, Nat.one_mul, Nat.mul_comm]
  exact hr

/-- No step leads below the price of which a step is one unit. -/
theorem InStep.floor_le (h : InStep s r t) (hs : s ≤ bpsScale) (hr : bpsScale / s ≤ r) : bpsScale / s ≤ t := by
  by_contra hlt
  -- From `k` above the floor a step below it is longer than `k` units, and `s` basis points of the start are no more than that.
  obtain ⟨k, rfl⟩ := Nat.exists_eq_add_of_le hr
  have hdist : k + 1 ≤ distance t (bpsScale / s + k) := by
    unfold distance
    split <;> omega
  refine absurd h (Nat.not_lt.2 ?_)
  calc s * (bpsScale / s + k)
      = s * (bpsScale / s) + s * k := Nat.mul_add _ _ _
    _ ≤ bpsScale + bpsScale * k := Nat.add_le_add (Nat.mul_div_le _ _) (Nat.mul_le_mul_right _ hs)
    _ = (k + 1) * bpsScale := by rw [Nat.add_mul, Nat.one_mul, Nat.add_comm, Nat.mul_comm]
    _ ≤ distance t (bpsScale / s + k) * bpsScale := Nat.mul_le_mul_right _ hdist

/-- What can be reported next: a price in step, as far as prices are words. -/
def Follows (s r t : Nat) : Prop := InStep s r t ∧ t * feedFactor < wordLimit

theorem floor_le_of_follows (h : ReflTransGen (Follows s) r t) (hs : s ≤ bpsScale) (hr : bpsScale / s ≤ r) :
    bpsScale / s ≤ t := by
  induction h with
  | refl => exact hr
  | tail _ hstep ih => exact hstep.1.floor_le hs ih

theorem word_of_follows (h : ReflTransGen (Follows s) r t) (hr : r * feedFactor < wordLimit) : t * feedFactor < wordLimit := by
  cases h with
  | refl => exact hr
  | tail _ hstep => exact hstep.2

/-- Where a step is more than one unit, the feed goes up and down by units. -/
theorem reachable_iff (hs : s ≤ bpsScale) (hpos : s ≠ 0) (hr : bpsScale < r * s) (hword : r * feedFactor < wordLimit) :
    ReflTransGen (Follows s) r t ↔ bpsScale / s ≤ t ∧ t * feedFactor < wordLimit := by
  have hlow : ∀ {i}, bpsScale / s < i ↔ bpsScale < i * s := Nat.div_lt_iff_lt_mul (Nat.pos_of_ne_zero hpos)
  have hmono : ∀ {i j}, i ≤ j → j * feedFactor < wordLimit → i * feedFactor < wordLimit :=
    fun hle => (Nat.mul_le_mul_right _ hle).trans_lt
  constructor
  · intro h
    exact ⟨floor_le_of_follows h hs (hlow.2 hr).le, word_of_follows h hword⟩
  · rintro ⟨hfloor, ht⟩
    have hup : ∀ i ∈ Set.Ico r t, Follows s i (Order.succ i) := fun i hi =>
      ⟨inStep_of_distance_eq_one (distance_succ_left i) (hr.trans_le (Nat.mul_le_mul_right _ hi.1)), hmono hi.2 ht⟩
    have hdown : ∀ i ∈ Set.Ico t r, Follows s (Order.succ i) i := fun i hi =>
      ⟨inStep_of_distance_eq_one (distance_succ_right i) (hlow.1 (Nat.lt_succ_of_le (hfloor.trans hi.1))),
        hmono hi.2.le hword⟩
    exact reflTransGen_of_succ _ hup hdown

/-! ### Reports -/

/-- When a price is seen, and when it is reported. -/
structure Stamp where
  seen : Nat
  now : Nat

namespace PriceFeed

variable {f g : PriceFeed} {stamps : Nat → Stamp} {report : Report} {raw seen now : Nat} {raws : List Nat}

/-- The stamps are fresh and never go back. -/
structure Timetable (f : PriceFeed) (stamps : Nat → Stamp) : Prop where
  fresh : ∀ k, checkAge (stamps k).now (stamps k).seen f.config.maxAge = .ok
  later : f.seen ≤ (stamps 0).seen
  mono : Monotone fun k => (stamps k).seen

/-- Report these prices one after another, with these stamps.  All of them have to be accepted. -/
def submitAll (f : PriceFeed) (stamps : Nat → Stamp) : List Nat → Outcome PriceFeed
  | [] => .ok f
  | raw :: raws => do
    let g ← f.submit raw (stamps 0).seen (stamps 0).now
    g.submitAll (fun k => stamps (k + 1)) raws

theorem Accepts.inStep (h : f.Accepts report) (hp : f.price = r * feedFactor) (hr : r ≠ 0) :
    InStep f.config.maxStep r report.raw := by
  have hnear := h.near
  rw [h.config, hp] at hnear
  exact (checkStep_eq_ok_iff_inStep hr).1 (checkStep_eq_ok.2 hnear)

/-- A fresh report is accepted just when its price can follow. -/
theorem submit_eq_ok_iff_follows (hc : f.config.Valid) (hp : f.price = r * feedFactor) (hr : r ≠ 0)
    (hfresh : checkAge now seen f.config.maxAge = .ok) (hlater : f.seen ≤ seen) :
    f.submit raw seen now = .ok g ↔
      Follows f.config.maxStep r raw ∧ g = { f with price := raw * feedFactor, seen } := by
  obtain ⟨hseen, hage⟩ := checkAge_eq_ok.1 hfresh
  rw [submit_eq_ok]
  refine and_congr_left fun _ => ⟨fun h => ⟨h.inStep hp hr, h.word⟩, fun ⟨hstep, hword⟩ => ?_⟩
  have hnear := checkStep_eq_ok.1 ((checkStep_eq_ok_iff_inStep hr).2 hstep)
  exact ⟨rfl, hstep.ne_zero hc.maxStep_le, hword, hseen, hage, hlater, hp ▸ hnear⟩

/-! ### Runs -/

theorem Timetable.next (h : f.Timetable stamps) {price : Nat} :
    { f with price, seen := (stamps 0).seen }.Timetable fun k => stamps (k + 1) where
  fresh k := h.fresh (k + 1)
  later := h.mono (Nat.zero_le 1)
  mono _ _ hle := h.mono (Nat.add_le_add_right hle 1)

/-- A run of accepted reports is a walk of steps. -/
theorem follows_of_submitAll (h : f.submitAll stamps raws = .ok g) (hst : f.Timetable stamps) (hc : f.config.Valid)
    (hs : f.config.maxStep = s) (hp : f.price = r * feedFactor) (hr : r ≠ 0) :
    ∃ t, ReflTransGen (Follows s) r t ∧ g.price = t * feedFactor := by
  induction raws generalizing f r stamps with
  | nil =>
    cases h
    exact ⟨r, .refl, hp⟩
  | cons raw raws ih =>
    obtain ⟨f', hsubmit, hrun⟩ := Outcome.bind_eq_ok.1 h
    obtain ⟨hfollows, rfl⟩ := (submit_eq_ok_iff_follows hc hp hr (hst.fresh 0) hst.later).1 hsubmit
    rw [hs] at hfollows
    obtain ⟨t, hwalk, hg⟩ := ih hrun hst.next hc hs rfl (hfollows.1.ne_zero (hs ▸ hc.maxStep_le))
    exact ⟨t, .head hfollows hwalk, hg⟩

/-- Every walk can be reported, whatever the times are. -/
theorem exists_submitAll (h : ReflTransGen (Follows s) r t) (hst : f.Timetable stamps) (hc : f.config.Valid)
    (hs : f.config.maxStep = s) (hp : f.price = r * feedFactor) (hr : r ≠ 0) :
    ∃ raws g, f.submitAll stamps raws = .ok g ∧ g.price = t * feedFactor := by
  -- The walk is read from its first step, since that is what the first report has to be.
  induction h using ReflTransGen.head_induction_on generalizing f stamps with
  | refl => exact ⟨[], f, rfl, hp⟩
  | @head r raw hfollows _ ih =>
    have hsubmit := (submit_eq_ok_iff_follows hc hp hr (hst.fresh 0) hst.later).2 ⟨hs ▸ hfollows, rfl⟩
    obtain ⟨raws, g, hrun, hg⟩ := ih hst.next hc hs rfl (hfollows.1.ne_zero (hs ▸ hc.maxStep_le))
    exact ⟨raw :: raws, g, Outcome.bind_eq_ok.2 ⟨_, hsubmit, hrun⟩, hg⟩

theorem exists_submitAll_iff (hst : f.Timetable stamps) (hc : f.config.Valid) (hp : f.price = r * feedFactor)
    (hr : r ≠ 0) : (∃ raws g, f.submitAll stamps raws = .ok g ∧ g.price = t * feedFactor) ↔
      ReflTransGen (Follows f.config.maxStep) r t := by
  constructor
  · rintro ⟨raws, g, hrun, hg⟩
    obtain ⟨t', hwalk, hg'⟩ := follows_of_submitAll hrun hst hc rfl hp hr
    rwa [Nat.eq_of_mul_eq_mul_right (by decide) (hg.symm.trans hg')]
  · intro h
    exact exists_submitAll h hst hc rfl hp hr

/-! ### Stuck prices -/

/-- What can be asked of a feed. -/
inductive Request
  | submit (raw seen now : Nat)
  | configure (config : FeedConfig)

def Request.apply (f : PriceFeed) : Request → Outcome PriceFeed
  | submit raw seen now => f.submit raw seen now
  | configure config => f.configure config

/-- What the request leaves. -/
def next (f : PriceFeed) (x : Request) : PriceFeed :=
  match x.apply f with
  | .ok g => g
  | .error _ => f

def after (f : PriceFeed) : List Request → PriceFeed
  | [] => f
  | x :: later => (f.next x).after later

variable {requests : List Request}

/-- A report that is accepted at a stuck price repeats it. -/
theorem submit_stuck (h : f.submit raw seen now = .ok g) (hp : f.price = r * feedFactor) (hr : r ≠ 0)
    (hstuck : r * f.config.maxStep ≤ bpsScale) : raw = r ∧ g = { f with price := r * feedFactor, seen } := by
  obtain ⟨hacc, rfl⟩ := submit_eq_ok.1 h
  obtain rfl : raw = r := (hacc.inStep hp hr).eq_of_le hstuck
  exact ⟨rfl, rfl⟩

theorem next_submit_stuck (hp : f.price = r * feedFactor) (hr : r ≠ 0) (hstuck : r * f.config.maxStep ≤ bpsScale)
    (raw seen now : Nat) :
    (f.next (.submit raw seen now)).price = r * feedFactor ∧ (f.next (.submit raw seen now)).config = f.config := by
  unfold next Request.apply
  split
  next g hg =>
    obtain ⟨-, rfl⟩ := submit_stuck hg hp hr hstuck
    exact ⟨rfl, rfl⟩
  next => exact ⟨hp, rfl⟩

/-- Under the same limits a stuck price stays. -/
theorem after_stuck (hp : f.price = r * feedFactor) (hr : r ≠ 0) (hstuck : r * f.config.maxStep ≤ bpsScale)
    (hx : ∀ config, Request.configure config ∉ requests) : (f.after requests).price = r * feedFactor := by
  induction requests generalizing f with
  | nil => exact hp
  | cons x later ih =>
    obtain ⟨hfirst, hlater⟩ := forall_and.1 fun config => not_or.1 (mt List.mem_cons.2 (hx config))
    cases x with
    | submit raw seen now =>
      obtain ⟨hprice, hconfig⟩ := next_submit_stuck hp hr hstuck raw seen now
      exact ih hprice (hconfig ▸ hstuck) hlater
    | configure config => exact absurd rfl (hfirst config)

/-- A price of one unit is stuck under all limits. -/
theorem next_one (hc : f.config.Valid) (hp : f.price = 1 * feedFactor) (x : Request) :
    (f.next x).config.Valid ∧ (f.next x).price = 1 * feedFactor := by
  cases x with
  | submit raw seen now =>
    have hstuck : 1 * f.config.maxStep ≤ bpsScale := (Nat.one_mul _).trans_le hc.maxStep_le
    obtain ⟨hprice, hconfig⟩ := next_submit_stuck hp one_ne_zero hstuck raw seen now
    exact ⟨hconfig ▸ hc, hprice⟩
  | configure config =>
    unfold next Request.apply
    split
    next g hg =>
      obtain ⟨hv, rfl⟩ := configure_eq_ok.1 hg
      exact ⟨hv, hp⟩
    next => exact ⟨hc, hp⟩

theorem after_one (hc : f.config.Valid) (hp : f.price = 1 * feedFactor) (requests : List Request) :
    (f.after requests).price = 1 * feedFactor := by
  induction requests generalizing f with
  | nil => exact hp
  | cons x later ih =>
    obtain ⟨hvalid, hprice⟩ := next_one hc hp x
    exact ih hvalid hprice

/-! ### All together -/

/-- Where a feed can get to from the reported price `r`. -/
structure Ranged (f : PriceFeed) (r : Nat) : Prop where
  stuck : r * f.config.maxStep ≤ 10000 → ∀ raw seen now, checkAge now seen f.config.maxAge = .ok → f.seen ≤ seen →
    ((∃ g, f.submit raw seen now = .ok g) ↔ raw = r)
  /-- Whatever is reported, in time or not, while the limits are the same. -/
  unchanged : r * f.config.maxStep ≤ 10000 → ∀ requests, (∀ config, Request.configure config ∉ requests) →
    (f.after requests).price = f.price
  free : 10000 < r * f.config.maxStep → ∀ stamps, f.Timetable stamps → ∀ t,
    (∃ raws g, f.submitAll stamps raws = .ok g ∧ g.price = 1000 * t) ↔ 10000 / f.config.maxStep ≤ t ∧ 1000 * t ≤ maxWord
  /-- A price of one unit is the last, even if the limits change. -/
  last : r = 1 → ∀ requests, (f.after requests).price = f.price

theorem ranged_of_validate (hc : f.config.validate = .ok ()) (hr : 1 ≤ r) (hp : f.price = 1000 * r)
    (hw : f.price ≤ maxWord) : f.Ranged r := by
  have hvalid : f.config.Valid := require_eq_ok.1 hc
  have hr0 : r ≠ 0 := Nat.one_le_iff_ne_zero.1 hr
  have hprice : f.price = r * feedFactor := hp.trans (Nat.mul_comm _ _)
  have hword : ∀ {n}, 1000 * n ≤ maxWord ↔ n * feedFactor < wordLimit := by
    intro n
    rw [Nat.mul_comm]
    exact Nat.le_sub_one_iff_lt (by decide)
  refine ⟨?_, ?_, ?_, ?_⟩
  · intro hstuck raw seen now hfresh hlater
    constructor
    · rintro ⟨g, hg⟩
      exact (submit_stuck hg hprice hr0 hstuck).1
    · rintro rfl
      have hfollows : Follows f.config.maxStep raw raw := ⟨inStep_self hvalid.maxStep_ne_zero hr0, hword.1 (hp ▸ hw)⟩
      exact ⟨_, (submit_eq_ok_iff_follows hvalid hprice hr0 hfresh hlater).2 ⟨hfollows, rfl⟩⟩
  · intro hstuck requests hx
    rw [hprice]
    exact after_stuck hprice hr0 hstuck hx
  · intro hfree stamps hst t
    have hwalk : _ ↔ ReflTransGen (Follows f.config.maxStep) r t := exists_submitAll_iff hst hvalid hprice hr0
    rw [hword]
    simp only [Nat.mul_comm 1000 t]
    exact hwalk.trans (reachable_iff hvalid.maxStep_le hvalid.maxStep_ne_zero hfree (hword.1 (hp ▸ hw)))
  · rintro rfl requests
    rw [hprice]
    exact after_one hvalid hprice requests

theorem ranged_at_twoDollars :
    let f : PriceFeed := ⟨2000000000, 0, FeedConfig.standard⟩
    f.config.validate = .ok () ∧ f.price = 1000 * 2000000 ∧ f.price ≤ maxWord ∧ f.Timetable (fun _ => ⟨0, 0⟩) ∧
      f.Ranged 2000000 := by
  intro f
  have hvalid : f.config.validate = .ok () := rfl
  have hprice : f.price = 1000 * 2000000 := rfl
  have hword : f.price ≤ maxWord := by decide
  have htimes : f.Timetable fun _ => ⟨0, 0⟩ := ⟨fun _ => by decide, Nat.le_refl 0, monotone_const⟩
  exact ⟨hvalid, hprice, hword, htimes, ranged_of_validate hvalid (by decide) hprice hword⟩

/-- With a step of a fifth, the price of five units can be reached, but not left. -/
example : (PriceFeed.mk 6000 0 FeedConfig.standard).submitAll (fun _ => ⟨0, 0⟩) [5] = .ok ⟨5000, 0, FeedConfig.standard⟩ ∧
    (PriceFeed.mk 5000 0 FeedConfig.standard).submit 6 0 0 = .error (.fault .oracleStep) := by decide

end PriceFeed

end SplitReserve
