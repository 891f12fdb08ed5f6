import Mathlib.Algebra.BigOperators.Ring.Finset
import Mathlib.Algebra.Order.BigOperators.Group.Finset
import SplitReserve.Table

/-!
# Sums over tables

The sum of a table is that over its keys (`sum_eq_sum_keys`), so when absent keys count for nothing it is the sum over any
set that contains them (`sum_eq_sum_get`), and no set of keys has a larger one (`sum_get_le`).  The rest follows from what is
known of finite sums.
-/

namespace SplitReserve.Table

variable {κ ν : Type} [Ord κ] [DecidableEq κ]

/-- The keys of a table. -/
def keys (t : Table κ ν) : Finset κ := (t.entries.map Prod.fst).toFinset

omit [Ord κ] in
private theorem lookup_absent {k : κ} {l : List (κ × ν)} (h : k ∉ l.map Prod.fst) : lookup k l = none := by
  induction l with
  | nil => rfl
  | cons e l ih =>
    rw [List.map_cons, List.mem_cons, not_or] at h
    rw [lookup, if_neg h.1]
    exact ih h.2

theorem find?_of_notMem_keys {t : Table κ ν} {k : κ} (h : k ∉ t.keys) : t.find? k = none :=
  lookup_absent (by simpa [keys] using h)

theorem get_of_notMem_keys [Inhabited ν] {t : Table κ ν} {k : κ} (h : k ∉ t.keys) : t.get k = default := by
  rw [get, find?_of_notMem_keys h, Option.getD_none]

theorem mem_filter_keys {t : Table κ Bool} {k : κ} : (k ∈ t.keys.filter fun j => t.get j) ↔ t.get k = true := by
  rw [Finset.mem_filter, and_iff_right_iff_imp]
  intro h
  by_contra hn
  rw [get_of_notMem_keys hn] at h
  cases h

variable [Std.TransOrd κ]

/-- The last write to a key counts. -/
theorem insert_insert [Std.LawfulEqOrd κ] (t : Table κ ν) (k : κ) (v v' : ν) :
    (t.insert k v).insert k v' = t.insert k v' := by
  apply ext_find?
  intro j
  simp only [find?_insert]
  split <;> rfl

omit [DecidableEq κ] in
private theorem key_notMem_of_lt {k : κ} {l : List (κ × ν)} (h : ∀ e ∈ l, compare k e.1 = .lt) :
    k ∉ l.map Prod.fst := by
  intro hk
  obtain ⟨e, he, rfl⟩ := List.mem_map.1 hk
  have := h e he
  rw [Std.ReflOrd.compare_self] at this
  exact absurd this (by decide)

private theorem sumEntries_eq (f : κ → ν → Nat) {l : List (κ × ν)}
    (h : l.Pairwise fun a b => compare a.1 b.1 = .lt) :
    sumEntries f l = ∑ k ∈ (l.map Prod.fst).toFinset, (lookup k l).elim 0 (f k) := by
  induction l with
  | nil => rfl
  | cons e l ih =>
    obtain ⟨he, hl⟩ := List.pairwise_cons.1 h
    have hn := key_notMem_of_lt he
    rw [List.map_cons, List.toFinset_cons, Finset.sum_insert (by simpa using hn), sumEntries, ih hl]
    congr 1
    · simp [lookup]
    · refine Finset.sum_congr rfl fun k hk => ?_
      have hne : k ≠ e.1 := by
        rintro rfl
        exact hn (List.mem_toFinset.1 hk)
      rw [lookup, if_neg hne]

theorem sum_eq_sum_keys (t : Table κ ν) (f : κ → ν → Nat) :
    t.sum f = ∑ k ∈ t.keys, (t.find? k).elim 0 (f k) :=
  sumEntries_eq f t.sorted

section Default

variable [Inhabited ν] {f : κ → ν → Nat}

omit [Std.TransOrd κ] in
private theorem elim_find? (hf : ∀ k, f k default = 0) (t : Table κ ν) (k : κ) :
    (t.find? k).elim 0 (f k) = f k (t.get k) := by
  rw [get]
  cases t.find? k with
  | none => simp [hf]
  | some v => rfl

/-- When absent keys count for nothing, the sum can be taken over any set outside of which the table has only defaults. -/
theorem sum_eq_sum_get (hf : ∀ k, f k default = 0) {t : Table κ ν} {s : Finset κ} (hs : ∀ k ∉ s, t.get k = default) :
    t.sum f = ∑ k ∈ s, f k (t.get k) := by
  rw [sum_eq_sum_keys]
  simp only [elim_find? hf]
  rw [Finset.sum_subset (@Finset.subset_union_left _ _ t.keys s) fun k _ hk => ?_,
    Finset.sum_subset (@Finset.subset_union_right _ _ t.keys s) fun k _ hk => ?_]
  · rw [hs k hk, hf]
  · rw [get_of_notMem_keys hk, hf]

theorem sum_eq_sum_keys_get (hf : ∀ k, f k default = 0) (t : Table κ ν) : t.sum f = ∑ k ∈ t.keys, f k (t.get k) :=
  sum_eq_sum_get hf fun _ hk => get_of_notMem_keys hk

/-- No set of keys has a larger sum than the table. -/
theorem sum_get_le (hf : ∀ k, f k default = 0) (t : Table κ ν) (s : Finset κ) :
    ∑ k ∈ s, f k (t.get k) ≤ t.sum f := by
  rw [sum_eq_sum_get hf (s := t.keys ∪ s) fun k hk => get_of_notMem_keys fun h => hk (Finset.mem_union_left _ h)]
  exact Finset.sum_le_sum_of_subset Finset.subset_union_right

theorem le_sum (hf : ∀ k, f k default = 0) (t : Table κ ν) (k : κ) : f k (t.get k) ≤ t.sum f := by
  simpa using sum_get_le hf t {k}

theorem add_le_sum (hf : ∀ k, f k default = 0) (t : Table κ ν) {k k' : κ} (h : k ≠ k') :
    f k (t.get k) + f k' (t.get k') ≤ t.sum f := by
  simpa [h] using sum_get_le hf t {k, k'}

variable {g : κ → ν → Nat}

theorem sum_le_sum (hf : ∀ k, f k default = 0) (hg : ∀ k, g k default = 0) (t : Table κ ν)
    (h : ∀ k, f k (t.get k) ≤ g k (t.get k)) : t.sum f ≤ t.sum g := by
  rw [sum_eq_sum_keys_get hf, sum_eq_sum_keys_get hg]
  exact Finset.sum_le_sum fun k _ => h k

theorem sum_add (hf : ∀ k, f k default = 0) (hg : ∀ k, g k default = 0) (t : Table κ ν) :
    (t.sum fun k v => f k v + g k v) = t.sum f + t.sum g := by
  rw [sum_eq_sum_keys_get (fun k => by simp [hf, hg]), sum_eq_sum_keys_get hf, sum_eq_sum_keys_get hg,
    Finset.sum_add_distrib]

theorem sum_mul (hf : ∀ k, f k default = 0) (t : Table κ ν) (c : Nat) :
    (t.sum fun k v => f k v * c) = t.sum f * c := by
  rw [sum_eq_sum_keys_get (fun k => by simp [hf]), sum_eq_sum_keys_get hf, Finset.sum_mul]

theorem sum_congr (hf : ∀ k, f k default = 0) (hg : ∀ k, g k default = 0) (t : Table κ ν)
    (h : ∀ k, f k (t.get k) = g k (t.get k)) : t.sum f = t.sum g :=
  Nat.le_antisymm (sum_le_sum hf hg t fun k => (h k).le) (sum_le_sum hg hf t fun k => (h k).ge)

/-- The sum of a table that differs from another at one key. -/
theorem sum_of_get_eq (hf : ∀ k, f k default = 0) {t u : Table κ ν} {k : κ} {v : ν}
    (h : ∀ k', u.get k' = if k' = k then v else t.get k') : u.sum f + f k (t.get k) = t.sum f + f k v := by
  -- Both sums can be taken over the keys of both tables, and `k` can be split off.
  let s := t.keys ∪ u.keys ∪ {k}
  have hk : k ∈ s := by simp [s]
  rw [sum_eq_sum_get hf (s := s) fun j hj => get_of_notMem_keys fun h => hj (by simp [s, h]),
    sum_eq_sum_get hf (s := s) fun j hj => get_of_notMem_keys fun h => hj (by simp [s, h]),
    ← Finset.add_sum_erase s _ hk, ← Finset.add_sum_erase s _ hk,
    Finset.sum_congr rfl (g := fun j => f j (t.get j)) fun j hj => ?_]
  · rw [h, if_pos rfl]
    omega
  · rw [h, if_neg (Finset.ne_of_mem_erase hj)]

end Default

end SplitReserve.Table
