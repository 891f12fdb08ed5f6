import Mathlib.Logic.Function.Basic
import SplitReserve.Address.Text
import SplitReserve.Amount

/-!
# Item keys

Different addresses, and different lists of them, have different item keys (`Address.itemKey_injective`): base 64 loses no byte
(`Base64.encode_injective`), the bytes of a hash give it back (`Hash.bytes_injective`), and every address has as many of them.
The last section is about a row of accounts, as many as there are hashes.
-/

namespace SplitReserve

namespace Text.Base64

private theorem digit_inj : ∀ m < 64, ∀ n < 64, digit m = digit n → m = n := by decide +kernel

private theorem digit_ne_pad : ∀ n < 64, digit n ≠ '=' := by decide +kernel

theorem encode_injective : Function.Injective encode := by
  intro l
  induction l using encode.induct with
  | case1 =>
    intro m h
    rcases m with _ | ⟨a', _ | ⟨b', _ | ⟨c', rest'⟩⟩⟩
    · rfl
    all_goals cases h
  | case2 a =>
    intro m h
    have ha := a.toNat_lt
    rcases m with _ | ⟨a', _ | ⟨b', _ | ⟨c', rest'⟩⟩⟩
    · cases h
    · have ha' := a'.toNat_lt
      simp only [encode, List.cons.injEq, and_true] at h
      have h₁ := digit_inj _ (by omega) _ (by omega) h.1
      have h₂ := digit_inj _ (by omega) _ (by omega) h.2
      rw [UInt8.toNat_inj.1 (show a.toNat = a'.toNat by omega)]
    · -- A group of one byte has a pad where a longer one has a digit.
      have hb' := b'.toNat_lt
      simp only [encode, List.cons.injEq] at h
      exact absurd h.2.2.1.symm (digit_ne_pad _ (by omega))
    · have hb' := b'.toNat_lt
      have hc' := c'.toNat_lt
      simp only [encode, List.cons.injEq] at h
      exact absurd h.2.2.1.symm (digit_ne_pad _ (by omega))
  | case3 a b =>
    intro m h
    have ha := a.toNat_lt
    have hb := b.toNat_lt
    rcases m with _ | ⟨a', _ | ⟨b', _ | ⟨c', rest'⟩⟩⟩
    · cases h
    · simp only [encode, List.cons.injEq] at h
      exact absurd h.2.2.1 (digit_ne_pad _ (by omega))
    · have ha' := a'.toNat_lt
      have hb' := b'.toNat_lt
      simp only [encode, List.cons.injEq, and_true] at h
      have h₁ := digit_inj _ (by omega) _ (by omega) h.1
      have h₂ := digit_inj _ (by omega) _ (by omega) h.2.1
      have h₃ := digit_inj _ (by omega) _ (by omega) h.2.2
      rw [UInt8.toNat_inj.1 (show a.toNat = a'.toNat by omega), UInt8.toNat_inj.1 (show b.toNat = b'.toNat by omega)]
    · have hc' := c'.toNat_lt
      simp only [encode, List.cons.injEq] at h
      exact absurd h.2.2.2.1.symm (digit_ne_pad _ (by omega))
  | case4 a b c rest ih =>
    intro m h
    have ha := a.toNat_lt
    have hb := b.toNat_lt
    have hc := c.toNat_lt
    rcases m with _ | ⟨a', _ | ⟨b', _ | ⟨c', rest'⟩⟩⟩
    · cases h
    · simp only [encode, List.cons.injEq] at h
      exact absurd h.2.2.1 (digit_ne_pad _ (by omega))
    · simp only [encode, List.cons.injEq] at h
      exact absurd h.2.2.2.1 (digit_ne_pad _ (by omega))
    · have ha' := a'.toNat_lt
      have hb' := b'.toNat_lt
      have hc' := c'.toNat_lt
      simp only [encode, List.cons.injEq] at h
      obtain ⟨h₁, h₂, h₃, h₄, hrest⟩ := h
      have h₁ := digit_inj _ (by omega) _ (by omega) h₁
      have h₂ := digit_inj _ (by omega) _ (by omega) h₂
      have h₃ := digit_inj _ (by omega) _ (by omega) h₃
      have h₄ := digit_inj _ (by omega) _ (by omega) h₄
      rw [UInt8.toNat_inj.1 (show a.toNat = a'.toNat by omega), UInt8.toNat_inj.1 (show b.toNat = b'.toNat by omega),
        UInt8.toNat_inj.1 (show c.toNat = c'.toNat by omega), ih hrest]

end Text.Base64

namespace Hash

/-- Every bit of a hash is in one of its bytes. -/
theorem bytes_injective : Function.Injective bytes := by
  intro h h' e
  have hbyte : ∀ i < 32, h.extractLsb' (8 * (31 - i)) 8 = h'.extractLsb' (8 * (31 - i)) 8 := by
    intro i hi
    have := List.map_inj_left.1 e i (List.mem_range.2 hi)
    exact congrArg UInt8.toBitVec this
  refine BitVec.eq_of_getLsbD_eq fun j hj => ?_
  have hj' := congrArg (fun b => b.getLsbD (j % 8)) (hbyte (31 - j / 8) (by omega))
  have hm : j % 8 < 8 := Nat.mod_lt _ (by decide)
  have hindex : 8 * (31 - (31 - j / 8)) + j % 8 = j := by omega
  simpa only [BitVec.getLsbD_extractLsb', hm, decide_true, Bool.true_and, hindex] using hj'

theorem length_bytes (h : Hash) : h.bytes.length = 32 := by
  rw [bytes, List.length_map, List.length_range]

end Hash

namespace Address

theorem length_keyBytes (a : Address) : a.keyBytes.length = 33 := by
  cases a <;> exact congrArg Nat.succ (Hash.length_bytes _)

theorem keyBytes_injective : Function.Injective keyBytes := by
  intro a b h
  cases a with
  | account x =>
    cases b with
    | account y => rw [Hash.bytes_injective (List.cons.inj h).2]
    | contract y => exact absurd (List.cons.inj h).1 (by decide)
  | contract x =>
    cases b with
    | account y => exact absurd (List.cons.inj h).1 (by decide)
    | contract y => rw [Hash.bytes_injective (List.cons.inj h).2]

/-- The bytes of several addresses can be told apart, since each has as many. -/
private theorem flatMap_keyBytes_injective : Function.Injective (List.flatMap keyBytes) := by
  intro as
  induction as with
  | nil =>
    intro bs h
    cases bs with
    | nil => rfl
    | cons b bs =>
      have := congrArg List.length h
      simp [length_keyBytes] at this
      omega
  | cons a as ih =>
    intro bs h
    cases bs with
    | nil =>
      have := congrArg List.length h
      simp [length_keyBytes] at this
    | cons b bs =>
      rw [List.flatMap_cons, List.flatMap_cons] at h
      obtain ⟨hhead, htail⟩ := List.append_inj h (by rw [length_keyBytes, length_keyBytes])
      rw [keyBytes_injective hhead, ih htail]

/-- No two lists of addresses share an item key. -/
theorem itemKey_injective : Function.Injective itemKey := by
  intro as bs h
  have hlist : Text.Base64.encode (as.flatMap keyBytes) = Text.Base64.encode (bs.flatMap keyBytes) :=
    String.ofList_injective h
  exact flatMap_keyBytes_injective (Text.Base64.encode_injective hlist)

/-! ### Many accounts -/

/-- The account whose hash is `k`. -/
def guest (k : Nat) : Address := account (BitVec.ofNat 256 k)

theorem guest_inj {j k : Nat} (hj : j < wideLimit) (hk : k < wideLimit) : guest j = guest k ↔ j = k := by
  refine ⟨fun h => ?_, congrArg guest⟩
  have hlimit : wideLimit = 2 ^ 256 := by decide
  rw [hlimit] at hj hk
  have hhash := congrArg BitVec.toNat (Address.account.inj h)
  rwa [BitVec.toNat_ofNat, BitVec.toNat_ofNat, Nat.mod_eq_of_lt hj, Nat.mod_eq_of_lt hk] at hhash

end Address

end SplitReserve
