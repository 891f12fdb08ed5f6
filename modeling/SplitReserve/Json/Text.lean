/-!
# Text in JSON

A JSON text is a list of units: code points, and, where it was written with escapes, halves of surrogate pairs.  `decode`
joins the halves and refuses one that stands alone; `quote` writes units between quotation marks.
-/

namespace SplitReserve.Json.Text

def isHighHalf (n : Nat) : Bool := 0xD800 ≤ n && n ≤ 0xDBFF

def isLowHalf (n : Nat) : Bool := 0xDC00 ≤ n && n ≤ 0xDFFF

def decode : List Nat → Option (List Char)
  | [] => some []
  | n :: rest =>
    if isHighHalf n then
      match rest with
      | [] => none
      | l :: rest =>
        if isLowHalf l then
          (decode rest).map (Char.ofNat (0x10000 + (n - 0xD800) * 0x400 + (l - 0xDC00)) :: ·)
        else none
    else if isLowHalf n then none
    else (decode rest).map (Char.ofNat n :: ·)

def ofString (s : String) : List Nat := s.toList.map Char.toNat

def toString? (units : List Nat) : Option String := (decode units).map String.ofList

/-- Four hexadecimal digits. -/
def hex4 (n : Nat) : List Char :=
  [n / 4096, n / 256, n / 16, n].map fun d => Nat.digitChar (d % 16)

/-- A unit as it is written; control characters and halves need an escape. -/
def escape (n : Nat) : List Char :=
  if n = 34 then ['\\', '"']
  else if n = 92 then ['\\', '\\']
  else if n = 8 then ['\\', 'b']
  else if n = 9 then ['\\', 't']
  else if n = 10 then ['\\', 'n']
  else if n = 12 then ['\\', 'f']
  else if n = 13 then ['\\', 'r']
  else if n < 32 || isHighHalf n || isLowHalf n then '\\' :: 'u' :: hex4 n
  else [Char.ofNat n]

def quote (units : List Nat) : String := String.ofList ('"' :: units.flatMap escape ++ ['"'])

private theorem not_half (c : Char) : isHighHalf c.toNat = false ∧ isLowHalf c.toNat = false := by
  have h := c.valid
  simp only [UInt32.isValidChar, Nat.isValidChar] at h
  change c.toNat < 0xD800 ∨ 0xDFFF < c.toNat ∧ c.toNat < 0x110000 at h
  unfold isHighHalf isLowHalf
  simp only [Bool.and_eq_false_iff, decide_eq_false_iff_not]
  omega

/-- Plain text has no halves and is read as it is. -/
theorem decode_ofString (s : String) : toString? (ofString s) = some s := by
  unfold toString? ofString
  suffices h : ∀ cs : List Char, decode (cs.map Char.toNat) = some cs by rw [h]; simp
  intro cs
  induction cs with
  | nil => rfl
  | cons c cs ih =>
    obtain ⟨high, low⟩ := not_half c
    rw [List.map_cons]
    unfold decode
    simp only [high, low, ih, Option.map_some, Char.ofNat_toNat, Bool.false_eq_true, if_false]

end SplitReserve.Json.Text
