import Mathlib.Data.Finset.Card
import SplitReserve.Proofs.Table
import SplitReserve.Roles

/-!
# The members of a role

The count kept beside the holders of a role is that of its members: it is so from the first admin on (`Roles.first_counted`), and
nothing that gives or takes a role changes it.  So the only admin is known as such, and cannot lose the role
(`Roles.Counted.revoke_eq_error_iff`).  Whoever has no role at all can do nothing that needs one, and has none to give up.
-/

namespace SplitReserve

theorem Role.number_injective : Function.Injective Role.number := by
  intro r r' h
  cases r <;> cases r' <;> first
    | rfl
    | cases h

namespace Office

variable {o o' : Office} {a b : Address}

theorem holds_seat (h : o.seat a = .ok o') : o'.holds b = true ↔ b = a ∨ o.holds b = true := by
  unfold seat at h
  split at h
  next ha =>
    cases h
    exact ⟨.inr, fun hb => hb.elim (fun e => e ▸ ha) id⟩
  next =>
    split at h
    next =>
      cases h
      rw [holds, Table.get_insert]
      split <;> simp [holds, *]
    next => cases h

theorem holds_unseat : (o.unseat a).holds b = true ↔ b ≠ a ∧ o.holds b = true := by
  unfold unseat
  split
  next =>
    rw [holds, Table.get_insert]
    split <;> simp [holds, *]
  next ha =>
    refine (and_iff_right_of_imp ?_).symm
    rintro hb rfl
    exact ha hb

/-- Those who hold the role. -/
def members (o : Office) : Finset Address := o.holders.keys.filter fun a => o.holds a

theorem mem_members : a ∈ o.members ↔ o.holds a = true := Table.mem_filter_keys

theorem members_seat (h : o.seat a = .ok o') : o'.members = insert a o.members := by
  ext b
  rw [mem_members, Finset.mem_insert, mem_members, holds_seat h]

theorem members_unseat : (o.unseat a).members = o.members.erase a := by
  ext b
  rw [mem_members, Finset.mem_erase, mem_members, holds_unseat]

def Counted (o : Office) : Prop := o.size = o.members.card

instance (o : Office) : Decidable o.Counted := inferInstanceAs (Decidable (_ = _))

theorem Counted.seat (ho : o.Counted) (h : o.seat a = .ok o') : o'.Counted := by
  rw [Counted, members_seat h]
  unfold Office.seat at h
  split at h
  next ha =>
    cases h
    rw [Finset.insert_eq_of_mem (mem_members.2 ha)]
    exact ho
  next hn =>
    split at h
    next =>
      cases h
      rw [Finset.card_insert_of_notMem (mem_members.not.2 hn)]
      exact congrArg (· + 1) ho
    next => cases h

theorem Counted.unseat (ho : o.Counted) (a : Address) : (o.unseat a).Counted := by
  rw [Counted, members_unseat]
  unfold Office.unseat
  split
  next ha =>
    rw [Finset.card_erase_of_mem (mem_members.2 ha)]
    exact congrArg (· - 1) ho
  next hn =>
    rw [Finset.erase_eq_of_notMem (mem_members.not.2 hn)]
    exact ho

/-- Whoever holds a role alone is the only one who is counted. -/
theorem Counted.size_le_one_iff (ho : o.Counted) (ha : o.holds a = true) :
    o.size ≤ 1 ↔ ∀ b, o.holds b = true ↔ b = a := by
  rw [ho, Finset.card_le_one]
  simp only [mem_members]
  constructor
  · exact fun h b => ⟨fun hb => h b hb a ha, fun e => e ▸ ha⟩
  · intro h b hb d hd
    rw [(h b).1 hb, (h d).1 hd]

end Office

namespace Roles

variable {t t' : Roles} {r : Role} {o : Office} {n m : Nat} {a b : Address} {changed : Bool}

/-! ### Who holds what -/

theorem hasRole_number (t : Roles) (r : Role) (a : Address) : t.hasRole r.number a = t.holds r a := by
  cases r <;> rfl

theorem memberCount_number (t : Roles) (r : Role) : t.memberCount r.number = (t.office r).size := by
  cases r <;> rfl

theorem hasRole_of_count_le (h : Role.count ≤ n) (a : Address) : t.hasRole n a = false := by
  unfold hasRole
  split
  next r hr =>
    rw [Role.ofNumber?_eq_some_iff] at hr
    have : r.number < Role.count := by cases r <;> decide
    omega
  next => rfl

theorem hasRole_setOffice (t : Roles) (r : Role) (o : Office) (m : Nat) (b : Address) :
    (t.setOffice r o).hasRole m b = if m = r.number then o.holds b else t.hasRole m b := by
  split
  next e => rw [e, hasRole_number, holds, office_setOffice_self]
  next hne =>
    unfold hasRole
    split
    next r' hr =>
      have : r' ≠ r := by
        rintro rfl
        exact hne (Role.ofNumber?_eq_some_iff.1 hr)
      rw [holds, office_setOffice_of_ne t this, holds]
    next => rfl

/-- A role that is given is held then, and nothing else changes. -/
theorem grant_ok (h : t.grant n a = .ok (t', changed)) :
    (∀ m b, t'.hasRole m b = true ↔ (m = n ∧ b = a) ∨ t.hasRole m b = true) ∧
      (changed = true ↔ t.hasRole n a = false) := by
  unfold Roles.grant at h
  split at h
  next => cases h
  next r hr =>
    rw [Role.ofNumber?_eq_some_iff] at hr
    subst hr
    rw [hasRole_number]
    split at h
    next ha =>
      cases h
      refine ⟨fun m b => (or_iff_right_of_imp ?_).symm, by simp [ha]⟩
      rintro ⟨rfl, rfl⟩
      rwa [hasRole_number]
    next hn =>
      obtain ⟨o, ho, e⟩ := Outcome.bind_eq_ok.1 h
      cases e
      refine ⟨fun m b => ?_, by simp [hn]⟩
      rw [hasRole_setOffice]
      split
      next e =>
        rw [Office.holds_seat ho, e, hasRole_number]
        simp [holds]
      next hne => simp [hne]

/-- A role that is taken away is not held then, and nothing else changes. -/
theorem revoke_ok (h : t.revoke n a = .ok (t', changed)) :
    (∀ m b, t'.hasRole m b = true ↔ ¬ (m = n ∧ b = a) ∧ t.hasRole m b = true) ∧
      (changed = true ↔ t.hasRole n a = true) := by
  unfold Roles.revoke at h
  split at h
  next hr =>
    cases h
    have hnone : t.hasRole n a = false := by rw [hasRole, hr]
    refine ⟨fun m b => (and_iff_right_of_imp ?_).symm, by simp [hnone]⟩
    rintro hb ⟨rfl, rfl⟩
    rw [hnone] at hb
    cases hb
  next r hr =>
    rw [Role.ofNumber?_eq_some_iff] at hr
    subst hr
    rw [hasRole_number]
    split at h
    next ha =>
      obtain ⟨-, -, e⟩ := Outcome.bind_eq_ok.1 h
      cases e
      refine ⟨fun m b => ?_, by simp [ha]⟩
      rw [hasRole_setOffice]
      split
      next e =>
        rw [Office.holds_unseat, e, hasRole_number]
        simp [holds]
      next hne => simp [hne]
    next hn =>
      cases h
      refine ⟨fun m b => (and_iff_right_of_imp ?_).symm, by simp [hn]⟩
      rintro hb ⟨rfl, rfl⟩
      rw [hasRole_number] at hb
      exact hn hb

/-! ### The count -/

/-- Every role has the count of its members. -/
def Counted (t : Roles) : Prop := ∀ r, (t.office r).Counted

theorem first_counted (a : Address) : (first a).Counted := by
  have hempty : (default : Office).Counted := rfl
  intro r
  cases r with
  | admin => exact hempty.seat (a := a) rfl
  | keeper | oracle => exact hempty

theorem Counted.setOffice (ht : t.Counted) (ho : o.Counted) : (t.setOffice r o).Counted := by
  intro r'
  by_cases h : r' = r
  · rw [h, office_setOffice_self]
    exact ho
  · rw [office_setOffice_of_ne t h]
    exact ht r'

theorem Counted.grant (ht : t.Counted) (h : t.grant n a = .ok (t', changed)) : t'.Counted := by
  unfold Roles.grant at h
  split at h
  next => cases h
  next r _ =>
    split at h
    next =>
      cases h
      exact ht
    next =>
      obtain ⟨o, ho, e⟩ := Outcome.bind_eq_ok.1 h
      cases e
      exact ht.setOffice ((ht r).seat ho)

theorem Counted.revoke (ht : t.Counted) (h : t.revoke n a = .ok (t', changed)) : t'.Counted := by
  unfold Roles.revoke at h
  split at h
  next =>
    cases h
    exact ht
  next r _ =>
    split at h
    next =>
      obtain ⟨-, -, e⟩ := Outcome.bind_eq_ok.1 h
      cases e
      exact ht.setOffice ((ht r).unseat a)
    next =>
      cases h
      exact ht

/-! ### The last admin -/

/-- Taking a role away only fails for the last admin. -/
theorem Counted.revoke_eq_error_iff (ht : t.Counted) {e : Failure} : t.revoke n a = .error e ↔
    e = .fault .lastAdmin ∧ n = Role.admin.number ∧ ∀ b, t.holds .admin b = true ↔ b = a := by
  unfold Roles.revoke
  split
  next hr =>
    refine iff_of_false (fun h => (nomatch h)) ?_
    rintro ⟨-, rfl, -⟩
    cases hr
  next r hr =>
    rw [Role.ofNumber?_eq_some_iff] at hr
    subst hr
    split
    next ha =>
      by_cases hlast : r = .admin → 1 < t.admin.size
      · rw [require, if_pos hlast]
        refine iff_of_false (fun h => (nomatch h)) ?_
        rintro ⟨-, hn, honly⟩
        obtain rfl := Role.number_injective hn
        exact absurd (((ht .admin).size_le_one_iff ha).2 honly) (Nat.not_le.2 (hlast rfl))
      · rw [require, if_neg hlast]
        rw [Classical.not_imp, Nat.not_lt] at hlast
        obtain ⟨rfl, hsize⟩ := hlast
        have honly := ((ht .admin).size_le_one_iff ha).1 hsize
        exact ⟨fun h => ⟨(Except.error.inj h).symm, rfl, honly⟩, fun h => h.1 ▸ rfl⟩
    next ha =>
      refine iff_of_false (fun h => (nomatch h)) ?_
      rintro ⟨-, hn, honly⟩
      obtain rfl := Role.number_injective hn
      exact ha ((honly a).2 rfl)

/-- Somebody is an admin still when a role has been taken away. -/
theorem Counted.exists_admin_of_revoke (ht : t.Counted) (h : t.revoke n a = .ok (t', changed))
    (hadmin : ∃ b, t.holds .admin b = true) : ∃ b, t'.holds .admin b = true := by
  have hheld := (revoke_ok h).1 Role.admin.number
  simp only [hasRole_number] at hheld
  by_contra hnone
  obtain ⟨b, hb⟩ := hadmin
  -- Then the role was taken from the only admin, which fails.
  have hlost : ∀ d, t.holds .admin d = true → Role.admin.number = n ∧ d = a := fun d hd => by
    by_contra hne
    exact hnone ⟨d, (hheld d).2 ⟨hne, hd⟩⟩
  obtain ⟨rfl, rfl⟩ := hlost b hb
  have herror := ht.revoke_eq_error_iff.2 ⟨rfl, rfl, fun d => ⟨fun hd => (hlost d hd).2, fun e => e ▸ hb⟩⟩
  rw [h] at herror
  cases herror

/-! ### Without a role -/

/-- `a` holds none of the roles. -/
def Lacks (t : Roles) (a : Address) : Prop := ∀ r, t.holds r a = false

namespace Lacks

theorem requireAdmin_ne_ok (h : t.Lacks a) (u : Unit) : t.requireAdmin a ≠ .ok u := by
  rw [requireAdmin, ne_eq, require_eq_ok, h .admin]
  exact Bool.false_ne_true

theorem requireKeeper_ne_ok (h : t.Lacks a) (u : Unit) : t.requireKeeper a ≠ .ok u := by
  rw [requireKeeper, ne_eq, require_eq_ok, h .keeper, h .admin]
  exact or_self_iff.not.2 Bool.false_ne_true

theorem revoke_eq (h : t.Lacks a) (n : Nat) : t.revoke n a = .ok (t, false) := by
  unfold Roles.revoke
  split
  next => rfl
  next r _ => rw [if_neg (by rw [h r]; exact Bool.false_ne_true)]

end Lacks

end Roles

end SplitReserve
