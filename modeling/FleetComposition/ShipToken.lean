import FleetComposition.Text.Decimal
import FleetComposition.Text.WordChar

/-!
# Ship tokens

A token names the ships that a requirement is about: all ships of a type code,
of a ship class, one particular ship, or any ship at all.
-/
namespace FleetComposition

inductive ShipToken where
  | code (text : String)
  | shipClass (id : UInt32)
  | ship (id : UInt32)
  | wildcard
  deriving DecidableEq, Repr, Inhabited

namespace ShipToken

/-- The word that stands for any ship. -/
def anyKeyword : String := "ANY"

/-- A word of an expression is a type code unless it is the keyword. -/
def ofWord (word : String) : ShipToken :=
  if word = anyKeyword then .wildcard else .code word

def isWildcard : ShipToken → Bool
  | .wildcard => true
  | _ => false

/-- The token as an expression spells it. -/
def text : ShipToken → String
  | .code word => word
  | .shipClass id => "@" ++ Text.numeral id
  | .ship id => "#" ++ Text.numeral id
  | .wildcard => anyKeyword

/-- A text that an expression reads as a type code: a word other than the keyword. -/
def IsCode (word : String) : Prop :=
  word.toList ≠ [] ∧ (∀ c ∈ word.toList, Text.isWordChar c = true) ∧ word ≠ anyKeyword

instance (word : String) : Decidable (IsCode word) :=
  decidable_of_iff
    (word.toList ≠ [] ∧ word.toList.all Text.isWordChar = true ∧ word ≠ anyKeyword) <| by
      rw [List.all_eq_true, IsCode]

/-- A token that an expression can spell. -/
def WellFormed : ShipToken → Prop
  | .code word => IsCode word
  | _ => True

instance : (token : ShipToken) → Decidable token.WellFormed
  | .code word => inferInstanceAs (Decidable (IsCode word))
  | .shipClass _ => .isTrue trivial
  | .ship _ => .isTrue trivial
  | .wildcard => .isTrue trivial

@[simp] theorem isWildcard_iff {token : ShipToken} :
    token.isWildcard = true ↔ token = .wildcard := by
  cases token <;> simp [isWildcard]

/-- Reading the word of a code or of the wildcard gives the token back. -/
@[simp] theorem ofWord_anyKeyword : ofWord anyKeyword = .wildcard := by
  simp [ofWord]

end ShipToken

end FleetComposition
