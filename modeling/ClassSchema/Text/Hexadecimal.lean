/-!
# Hexadecimal numbers

A code point is written in lower-case digits without zeros in front. Digits are read in both cases.
-/

namespace ClassSchema

/-- The code point of a character, in lower-case hexadecimal. -/
def hexCode (c : Char) : List Char := Nat.toDigits 16 c.toNat

/-- The value of a hexadecimal digit. -/
def hexValue? (c : Char) : Option Nat :=
  if c.isDigit then some (c.toNat - '0'.toNat)
  else if 'a' ≤ c ∧ c ≤ 'f' then some (c.toNat - 'a'.toNat + 10)
  else if 'A' ≤ c ∧ c ≤ 'F' then some (c.toNat - 'A'.toNat + 10)
  else none

/-- The value of hexadecimal digits. -/
def hexNumber? (cs : List Char) : Option Nat :=
  cs.foldlM (fun n c => (hexValue? c).map (16 * n + ·)) 0

/-- A digit is worth less than sixteen. -/
theorem lt_of_hexValue? {c : Char} {n : Nat} (h : hexValue? c = some n) : n < 16 := by
  simp only [hexValue?, Char.isDigit, Bool.and_eq_true, decide_eq_true_eq, Char.le_def, UInt32.le_iff_toNat_le] at h
  have h0 : '0'.toNat = 48 := rfl
  have h9 : '9'.val.toNat = 57 := rfl
  have ha : 'a'.toNat = 97 := rfl
  have hf : 'f'.val.toNat = 102 := rfl
  have hA : 'A'.toNat = 65 := rfl
  have hF : 'F'.val.toNat = 70 := rfl
  have hc : c.toNat = c.val.toNat := rfl
  split at h
  · next hd =>
    have := hd.2
    have h57 : (57 : UInt32).toNat = 57 := rfl
    cases h
    omega
  · split at h
    · next hd => cases h; omega
    · split at h
      · next hd => cases h; omega
      · exact absurd h (by simp)

end ClassSchema
