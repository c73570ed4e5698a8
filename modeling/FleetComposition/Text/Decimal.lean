/-!
# Decimal numerals

Numerals are runs of the digits 0 to 9, leading zeros included, and stand for a
32-bit word. A written numeral has no leading zeros, and it is read back as the
same word.
-/
namespace FleetComposition.Text

/-- The value of a run of digits, whatever its size. -/
def numeralValue (digits : List Char) : Nat :=
  Nat.ofDigitChars 10 digits 0

/-- The word that a run of digits stands for, if it is small enough. -/
def word? (digits : List Char) : Option UInt32 :=
  if numeralValue digits < UInt32.size then some (UInt32.ofNat (numeralValue digits)) else none

def numeral (n : UInt32) : String :=
  Nat.repr n.toNat

theorem toList_numeral (n : UInt32) : (numeral n).toList = Nat.toDigits 10 n.toNat :=
  Nat.toList_repr

theorem isDigit_of_mem_numeral {n : UInt32} {c : Char} (h : c ∈ (numeral n).toList) :
    c.isDigit := by
  rw [toList_numeral] at h
  exact Nat.isDigit_of_mem_toDigits (by decide) (by decide) h

theorem word?_numeral (n : UInt32) : word? (numeral n).toList = some n := by
  have hv : numeralValue (numeral n).toList = n.toNat := by
    rw [toList_numeral, numeralValue, Nat.ofDigitChars_ten_toDigits]
  simp [word?, hv, n.toNat_lt_size]

end FleetComposition.Text
