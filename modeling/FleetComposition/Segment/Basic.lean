import FleetComposition.Error
import FleetComposition.Requirement

/-!
# Segments

A segment as it is written: a mark of negation, alternative tokens, and fields
in any order and number. Of the fields that say the same kind of thing the first
one counts, and what no field says has a default.
-/
namespace FleetComposition

/-- An item of a bracketed list. -/
inductive SlotItem where
  | slot (index : UInt32)
  | level (bound : UInt32)
  deriving DecidableEq, Repr

inductive Field where
  | quantity (quantity : Quantity)
  | slots (items : List SlotItem)
  | level (bound : UInt32)
  | star
  deriving DecidableEq, Repr

structure Segment where
  negated : Bool
  tokens : List ShipToken
  fields : List Field
  deriving DecidableEq, Repr

def SlotItem.slot? : SlotItem → Option UInt32
  | slot index => some index
  | level _ => none

def SlotItem.level? : SlotItem → Option UInt32
  | slot _ => none
  | level bound => some bound

namespace Field

def quantity? : Field → Option Quantity
  | quantity q => some q
  | _ => none

/-- The slots of a bracketed list, which may be none. -/
def slots? : Field → Option (List UInt32)
  | slots items => some (items.filterMap SlotItem.slot?)
  | _ => none

/-- The levels that a field states, in brackets or on its own. -/
def levels : Field → List UInt32
  | slots items => items.filterMap SlotItem.level?
  | level bound => [bound]
  | _ => []

end Field

namespace Segment

def starred (s : Segment) : Bool :=
  s.fields.contains .star

/-- The written tokens without repetitions. A star, or the lack of any token,
adds the wildcard at the end. -/
def allTokens (s : Segment) : List ShipToken :=
  let distinct := s.tokens.eraseDups
  if (s.tokens.isEmpty || s.starred) && !distinct.contains .wildcard then distinct ++ [.wildcard]
  else distinct

/-- The first quantity that is written. A lone star asks for any number, and
anything else for one. -/
def quantity (s : Segment) : Quantity :=
  match s.fields.findSome? Field.quantity? with
  | some q => q
  | none => if s.tokens.isEmpty && s.starred then .unbounded else .one

/-- The slots of the first bracketed list. -/
def slots (s : Segment) : SlotSet :=
  .ofList ((s.fields.findSome? Field.slots?).getD [])

/-- The first level that is written anywhere. -/
def level (s : Segment) : UInt32 :=
  (s.fields.flatMap Field.levels).head?.getD 0

/-- What the segment demands, unless its quantity leaves no room for a number. -/
def requirement (s : Segment) : Except Error Requirement :=
  let r : Requirement := ⟨s.allTokens, s.quantity, s.slots, s.level, s.negated⟩
  match r.quantity.max with
  | some max => if max < r.quantity.min then .error (.invalidQuantity r.quantity.min max) else .ok r
  | none => .ok r

end Segment

end FleetComposition
