import FleetComposition.Text.Decimal

/-!
# Quantities

How many ships a requirement asks for: a least number, and a greatest one
unless there is no upper bound.
-/
namespace FleetComposition

structure Quantity where
  min : UInt32
  max : Option UInt32
  deriving DecidableEq, Repr

namespace Quantity

def exactly (n : UInt32) : Quantity := ⟨n, some n⟩

def atLeast (n : UInt32) : Quantity := ⟨n, none⟩

def between (min max : UInt32) : Quantity := ⟨min, some max⟩

/-- The quantity of a segment that states none. -/
def one : Quantity := exactly 1

/-- The quantity of a segment that is only a star. -/
def unbounded : Quantity := atLeast 0

instance : Inhabited Quantity := ⟨one⟩

/-- The bounds leave room for at least one number. -/
def Valid (q : Quantity) : Prop :=
  ∀ m, q.max = some m → q.min ≤ m

instance : (q : Quantity) → Decidable q.Valid
  | ⟨_, none⟩ => .isTrue fun _ h => nomatch h
  | ⟨min, some max⟩ => decidable_of_iff (min ≤ max) (by simp [Valid])

/-- The ways in which a quantity is worded. -/
inductive Shape where
  | exact (n : UInt32)
  | atMost (m : UInt32)
  | atLeast (n : UInt32)
  | range (n : UInt32) (m : Option UInt32)
  deriving DecidableEq, Repr

/-- Equal bounds come before a least number of zero, and a range without an
upper bound starts at zero. -/
def shape (q : Quantity) : Shape :=
  match q.max with
  | some m => if m = q.min then .exact m else if q.min = 0 then .atMost m else .range q.min (some m)
  | none => if q.min = 0 then .range 0 none else .atLeast q.min

/-- The quantity in braces, as an expression spells it. -/
def text (q : Quantity) : String :=
  match q.max with
  | some m =>
    if m = q.min then "\x7b" ++ Text.numeral q.min ++ "\x7d"
    else "\x7b" ++ Text.numeral q.min ++ "," ++ Text.numeral m ++ "\x7d"
  | none => "\x7b" ++ Text.numeral q.min ++ ",\x7d"

/-- The quantity that is worded in a given shape. -/
def ofShape : Shape → Quantity
  | .exact n => exactly n
  | .atMost m => between 0 m
  | .atLeast n => atLeast n
  | .range n m => ⟨n, m⟩

/-- No two quantities are worded alike. -/
theorem ofShape_shape (q : Quantity) : ofShape q.shape = q := by
  obtain ⟨n, m⟩ := q
  cases m with
  | none => by_cases h : n = 0 <;> simp [shape, ofShape, atLeast, h]
  | some m =>
    by_cases h : m = n
    · simp [shape, ofShape, exactly, h]
    · by_cases h0 : n = 0
      · subst h0; simp [shape, ofShape, between, h]
      · simp [shape, ofShape, h, h0]

end Quantity

end FleetComposition
