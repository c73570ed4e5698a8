import FleetComposition.Text.Blank
import FleetComposition.Text.WordTable

/-!
# Word characters

A ship type code is a run of word characters. No mark of the notation and no
blank is one, so a code ends where the next mark begins and trimming never
shortens it.
-/
namespace FleetComposition.Text

/-- Membership in ascending closed ranges. The search ends at the first range
that starts above `n`, because all later ones start higher still. -/
def inRanges (n : Nat) : List (Nat × Nat) → Bool
  | [] => false
  | (first, last) :: rest =>
    if n < first then false else if n ≤ last then true else inRanges n rest

def isWordPoint (n : Nat) : Bool :=
  if n < 0x1000 then inRanges n lowWordRanges
  else if n < 0x10000 then inRanges n basicWordRanges
  else inRanges n supplementaryWordRanges

def isWordChar (c : Char) : Bool :=
  isWordPoint c.toNat

theorem isWordChar_of_isDigit {c : Char} (h : c.isDigit) : isWordChar c := by
  obtain ⟨hlow, hhigh⟩ := Char.isDigit_iff_toNat.mp h
  have key : ∀ n, n ≤ '9'.toNat → '0'.toNat ≤ n → isWordPoint n := by decide
  exact key c.toNat hhigh hlow

/-- No blank is a word character. -/
theorem isWordChar_of_isBlank {c : Char} (h : isBlank c) : isWordChar c = false := by
  have key : ∀ n ∈ blanks, isWordPoint n = false := by decide +kernel
  exact key c.toNat (by simpa [isBlank] using h)

end FleetComposition.Text
