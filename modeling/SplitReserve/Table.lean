/-!
# Finite tables

A table keeps finitely many entries in strictly ascending order of their keys, so two tables with the same entries are
equal, however they were filled.  `find?` tells an absent key from a present one; `get` reads an absent key as the default
value.  Main statements: `find?_insert` says what writing an entry changes, `sum_insert` what it does to a sum over the
entries, and `ext_find?` that a table is what its `find?` shows.
-/

namespace SplitReserve

/-- A finite map, its entries sorted by key. -/
structure Table (κ ν : Type) [Ord κ] where
  entries : List (κ × ν)
  sorted : entries.Pairwise fun a b => compare a.1 b.1 = .lt

namespace Table

section Entries

variable {κ ν : Type} [Ord κ]

private theorem ne_of_compare_lt [Std.TransOrd κ] {a b : κ} (h : compare a b = .lt) : a ≠ b := by
  rintro rfl
  exact absurd (h.symm.trans (Std.ReflOrd.compare_self)) (by decide)

private theorem ne_of_compare_gt [Std.TransOrd κ] {a b : κ} (h : compare a b = .gt) : a ≠ b := by
  rintro rfl
  exact absurd (h.symm.trans (Std.ReflOrd.compare_self)) (by decide)

/-- Write one entry into a sorted list. -/
def insertEntry (k : κ) (v : ν) : List (κ × ν) → List (κ × ν)
  | [] => [(k, v)]
  | e :: rest =>
    match compare k e.1 with
    | .lt => (k, v) :: e :: rest
    | .eq => (k, v) :: rest
    | .gt => e :: insertEntry k v rest

def lookup [DecidableEq κ] (k : κ) : List (κ × ν) → Option ν
  | [] => none
  | e :: rest => if k = e.1 then some e.2 else lookup k rest

private theorem mem_insertEntry {k : κ} {v : ν} {e : κ × ν} {l : List (κ × ν)} (h : e ∈ insertEntry k v l) :
    e = (k, v) ∨ e ∈ l := by
  induction l with
  | nil => exact Or.inl (List.mem_singleton.1 h)
  | cons a l ih =>
    unfold insertEntry at h
    split at h
    · exact List.mem_cons.1 h
    · exact (List.mem_cons.1 h).imp_right (List.mem_cons_of_mem _)
    · rcases List.mem_cons.1 h with rfl | h
      · exact Or.inr List.mem_cons_self
      · exact (ih h).imp_right (List.mem_cons_of_mem _)

private theorem pairwise_insertEntry [Std.TransOrd κ] [Std.LawfulEqOrd κ] (k : κ) (v : ν) {l : List (κ × ν)}
    (h : l.Pairwise fun a b => compare a.1 b.1 = .lt) :
    (insertEntry k v l).Pairwise fun a b => compare a.1 b.1 = .lt := by
  induction l with
  | nil => exact List.pairwise_singleton _ _
  | cons a l ih =>
    obtain ⟨ha, hl⟩ := List.pairwise_cons.1 h
    unfold insertEntry
    split
    next hk =>
      refine List.pairwise_cons.2 ⟨fun b hb => ?_, h⟩
      rcases List.mem_cons.1 hb with rfl | hb
      · exact hk
      · exact Std.TransCmp.lt_trans hk (ha b hb)
    next hk =>
      have e : k = a.1 := Std.LawfulEqCmp.eq_of_compare hk
      exact List.pairwise_cons.2 ⟨fun b hb => e ▸ ha b hb, hl⟩
    next hk =>
      refine List.pairwise_cons.2 ⟨fun b hb => ?_, ih hl⟩
      rcases mem_insertEntry hb with rfl | hb
      · exact Std.OrientedCmp.gt_iff_lt.1 hk
      · exact ha b hb

omit [Ord κ] in
private theorem lookup_eq_none [DecidableEq κ] {k : κ} {l : List (κ × ν)} (h : ∀ e ∈ l, k ≠ e.1) : lookup k l = none := by
  induction l with
  | nil => rfl
  | cons a l ih =>
    rw [lookup, if_neg (h a List.mem_cons_self)]
    exact ih fun e he => h e (List.mem_cons_of_mem _ he)

private theorem lookup_of_lt [DecidableEq κ] [Std.TransOrd κ] {k : κ} {l : List (κ × ν)}
    (h : ∀ e ∈ l, compare k e.1 = .lt) : lookup k l = none :=
  lookup_eq_none fun e he => ne_of_compare_lt (h e he)

omit [Ord κ] in
private theorem mem_of_lookup [DecidableEq κ] {k : κ} {v : ν} {l : List (κ × ν)} (h : lookup k l = some v) :
    (k, v) ∈ l := by
  induction l with
  | nil => cases h
  | cons a l ih =>
    unfold lookup at h
    split at h
    next e => cases h; exact e ▸ List.mem_cons_self
    · exact List.mem_cons_of_mem _ (ih h)

private theorem lookup_insertEntry [DecidableEq κ] [Std.TransOrd κ] [Std.LawfulEqOrd κ] (k k' : κ) (v : ν)
    (l : List (κ × ν)) : lookup k' (insertEntry k v l) = if k' = k then some v else lookup k' l := by
  induction l with
  | nil => rfl
  | cons a l ih =>
    unfold insertEntry
    split
    · rfl
    next hk =>
      have e : k = a.1 := Std.LawfulEqCmp.eq_of_compare hk
      simp only [lookup, ← e]
      split <;> rfl
    next hk =>
      have e := ne_of_compare_gt hk
      simp only [lookup, ih]
      split <;> split <;> simp_all

private theorem ext_lookup [DecidableEq κ] [Std.TransOrd κ] {l m : List (κ × ν)}
    (hl : l.Pairwise fun a b => compare a.1 b.1 = .lt) (hm : m.Pairwise fun a b => compare a.1 b.1 = .lt)
    (h : ∀ k, lookup k l = lookup k m) : l = m := by
  induction l generalizing m with
  | nil =>
    cases m with
    | nil => rfl
    | cons b m => have := h b.1; simp [lookup] at this
  | cons a l ih =>
    cases m with
    | nil => have := h a.1; simp [lookup] at this
    | cons b m =>
      obtain ⟨ha, hl'⟩ := List.pairwise_cons.1 hl
      obtain ⟨hb, hm'⟩ := List.pairwise_cons.1 hm
      have hk : a.1 = b.1 := by
        refine Classical.byContradiction fun hne => ?_
        have h1 := h a.1
        have h2 := h b.1
        simp only [lookup, if_true, if_neg hne, if_neg (Ne.symm hne)] at h1 h2
        have l1 := hb _ (mem_of_lookup h1.symm)
        have l2 := ha _ (mem_of_lookup h2)
        exact ne_of_compare_lt (Std.TransCmp.lt_trans l1 l2) rfl
      have hv : a = b := by
        have h1 := h a.1
        simp only [lookup, hk, if_true, Option.some.injEq] at h1
        exact Prod.ext hk h1
      subst hv
      refine congrArg _ (ih hl' hm' fun k => ?_)
      have h1 := h k
      by_cases e : k = a.1
      · rw [e, lookup_of_lt ha, lookup_of_lt hb]
      · simpa only [lookup, if_neg e] using h1

/-- The sum of `f` over entries. -/
def sumEntries (f : κ → ν → Nat) : List (κ × ν) → Nat
  | [] => 0
  | e :: l => f e.1 e.2 + sumEntries f l

private theorem sum_insertEntry [DecidableEq κ] [Std.TransOrd κ] [Std.LawfulEqOrd κ] (k : κ) (v : ν) (f : κ → ν → Nat)
    {l : List (κ × ν)} (h : l.Pairwise fun a b => compare a.1 b.1 = .lt) :
    sumEntries f (insertEntry k v l) + (lookup k l).elim 0 (f k) = sumEntries f l + f k v := by
  induction l with
  | nil => simp [insertEntry, lookup, sumEntries]
  | cons a l ih =>
    obtain ⟨ha, hl⟩ := List.pairwise_cons.1 h
    have ih := ih hl
    unfold insertEntry
    split
    next hk =>
      have : lookup k (a :: l) = none := lookup_of_lt fun e he => by
        rcases List.mem_cons.1 he with rfl | he
        · exact hk
        · exact Std.TransCmp.lt_trans hk (ha e he)
      simp only [this, Option.elim, sumEntries]
      omega
    next hk =>
      have e : k = a.1 := Std.LawfulEqCmp.eq_of_compare hk
      simp only [lookup, e, if_true, Option.elim, sumEntries]
      omega
    next hk =>
      have e := ne_of_compare_gt hk
      simp only [lookup, if_neg e, sumEntries]
      omega

end Entries

variable {κ ν : Type} [Ord κ]

def empty : Table κ ν := ⟨[], .nil⟩

instance : EmptyCollection (Table κ ν) := ⟨empty⟩

instance : Inhabited (Table κ ν) := ⟨∅⟩

def find? [DecidableEq κ] (t : Table κ ν) (k : κ) : Option ν := lookup k t.entries

/-- The value at a key, or the default value. -/
def get [DecidableEq κ] [Inhabited ν] (t : Table κ ν) (k : κ) : ν := (t.find? k).getD default

/-- Write an entry, in place of the one with the same key if there is one. -/
def insert [Std.TransOrd κ] [Std.LawfulEqOrd κ] (t : Table κ ν) (k : κ) (v : ν) : Table κ ν :=
  ⟨insertEntry k v t.entries, pairwise_insertEntry k v t.sorted⟩

/-- The sum of `f` over the entries. -/
def sum (t : Table κ ν) (f : κ → ν → Nat) : Nat := sumEntries f t.entries

@[simp] theorem find?_empty [DecidableEq κ] (k : κ) : (∅ : Table κ ν).find? k = none := rfl

@[simp] theorem get_empty [DecidableEq κ] [Inhabited ν] (k : κ) : (∅ : Table κ ν).get k = default := rfl

@[simp] theorem sum_empty (f : κ → ν → Nat) : (∅ : Table κ ν).sum f = 0 := rfl

theorem ext_find? [DecidableEq κ] [Std.TransOrd κ] {t u : Table κ ν} (h : ∀ k, t.find? k = u.find? k) : t = u := by
  have := ext_lookup t.sorted u.sorted h
  cases t; cases u; subst this; rfl

section Insert

variable [DecidableEq κ] [Std.TransOrd κ] [Std.LawfulEqOrd κ]

theorem find?_insert (t : Table κ ν) (k k' : κ) (v : ν) :
    (t.insert k v).find? k' = if k' = k then some v else t.find? k' :=
  lookup_insertEntry k k' v t.entries

theorem get_insert [Inhabited ν] (t : Table κ ν) (k k' : κ) (v : ν) :
    (t.insert k v).get k' = if k' = k then v else t.get k' := by
  unfold get
  rw [find?_insert]
  split <;> rfl

/-- Writes to different keys commute. -/
theorem insert_comm (t : Table κ ν) {k k' : κ} (h : k ≠ k') (v v' : ν) :
    (t.insert k v).insert k' v' = (t.insert k' v').insert k v := by
  apply ext_find?
  intro j
  simp only [find?_insert]
  split <;> split <;> simp_all

/-- The sum gains the new term and loses the one that was there. -/
theorem sum_insert (t : Table κ ν) (k : κ) (v : ν) (f : κ → ν → Nat) :
    (t.insert k v).sum f + (t.find? k).elim 0 (f k) = t.sum f + f k v :=
  sum_insertEntry k v f t.sorted

end Insert

end Table

end SplitReserve
