import FleetComposition.Quantity
import FleetComposition.ShipToken
import FleetComposition.SlotSet

/-!
# Requirements

A requirement is what one segment of an expression demands of a fleet, or
forbids: ships of the listed tokens, how many, in which slots, and above which
level.
-/
namespace FleetComposition

/-- Level zero asks for no level at all, and an empty slot set for no slot. -/
structure Requirement where
  tokens : List ShipToken
  quantity : Quantity
  slots : SlotSet
  level : UInt32
  negated : Bool
  deriving DecidableEq, Repr, Inhabited

namespace Requirement

/-- One ship of the listed tokens, or of any kind if none is listed. -/
def ofTokens (tokens : List ShipToken) : Requirement where
  tokens := if tokens.isEmpty then [.wildcard] else tokens
  quantity := .one
  slots := .empty
  level := 0
  negated := false

def withQuantity (r : Requirement) (quantity : Quantity) : Requirement :=
  { r with quantity }

def withSlots (r : Requirement) (slots : List UInt32) : Requirement :=
  { r with slots := .ofList slots }

def withLevel (r : Requirement) (level : UInt32) : Requirement :=
  { r with level }

/-- The requirement as a prohibition. -/
def forbidden (r : Requirement) : Requirement :=
  { r with negated := true }

def hasWildcard (r : Requirement) : Bool :=
  r.tokens.any ShipToken.isWildcard

theorem hasWildcard_iff {r : Requirement} : r.hasWildcard = true ↔ .wildcard ∈ r.tokens := by
  simp [hasWildcard]

def isFlagship (r : Requirement) : Bool :=
  decide (SlotSet.flagship ∈ r.slots)

/-- A placeholder says only that further ships are welcome. -/
def isPlaceholder (r : Requirement) : Bool :=
  decide (r.tokens = [.wildcard]) && r.slots.isEmpty && decide (r.level = 0) && !r.negated
    && (decide (r.quantity = .one) || decide (r.quantity = .unbounded))

theorem isPlaceholder_iff {r : Requirement} :
    r.isPlaceholder = true ↔
      r = ⟨[.wildcard], .one, .empty, 0, false⟩ ∨
        r = ⟨[.wildcard], .unbounded, .empty, 0, false⟩ := by
  obtain ⟨tokens, quantity, slots, level, negated⟩ := r
  simp only [isPlaceholder, Bool.and_eq_true, Bool.or_eq_true, decide_eq_true_eq,
    SlotSet.isEmpty_iff, Bool.not_eq_true', mk.injEq]
  constructor
  · rintro ⟨⟨⟨⟨rfl, rfl⟩, rfl⟩, rfl⟩, rfl | rfl⟩
    · exact .inl ⟨rfl, rfl, rfl, rfl, rfl⟩
    · exact .inr ⟨rfl, rfl, rfl, rfl, rfl⟩
  · rintro (⟨rfl, rfl, rfl, rfl, rfl⟩ | ⟨rfl, rfl, rfl, rfl, rfl⟩)
    · exact ⟨⟨⟨⟨rfl, rfl⟩, rfl⟩, rfl⟩, .inl rfl⟩
    · exact ⟨⟨⟨⟨rfl, rfl⟩, rfl⟩, rfl⟩, .inr rfl⟩

/-- The slots and the level, in the order in which they are written. -/
def bracketItems (r : Requirement) : List String :=
  r.slots.toList.map Text.numeral
    ++ if r.level = 0 then [] else ["level>" ++ Text.numeral r.level]

/-- The requirement in its canonical spelling. -/
def text (r : Requirement) : String :=
  (if r.negated then "!" else "") ++ "|".intercalate (r.tokens.map ShipToken.text)
    ++ r.quantity.text
    ++ if r.bracketItems.isEmpty then "" else "[" ++ ",".intercalate r.bracketItems ++ "]"

/-- A requirement that a segment can state. -/
structure WellFormed (r : Requirement) : Prop where
  nonempty : r.tokens ≠ []
  distinct : r.tokens.Nodup
  tokens : ∀ token ∈ r.tokens, token.WellFormed
  quantity : r.quantity.Valid

instance (r : Requirement) : Decidable r.WellFormed :=
  decidable_of_iff
    (r.tokens ≠ [] ∧ r.tokens.Nodup ∧ (∀ token ∈ r.tokens, token.WellFormed) ∧ r.quantity.Valid)
    ⟨fun ⟨nonempty, distinct, tokens, quantity⟩ => ⟨nonempty, distinct, tokens, quantity⟩,
      fun h => ⟨h.nonempty, h.distinct, h.tokens, h.quantity⟩⟩

end Requirement

end FleetComposition
