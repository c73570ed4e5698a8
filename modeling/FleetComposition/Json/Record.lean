import FleetComposition.Json.Value

/-!
# Reading data from JSON values

A record is read from an object whose fields stand in any order among others, or
from an array with all fields in their order. The name of a variant is read from
a string, or from an object with that name as its only key.
-/
namespace FleetComposition.Json.Value

def text? : Value → Option String
  | .string points => CodePoint.text? points
  | _ => none

def bool? : Value → Option Bool
  | .bool b => some b
  | _ => none

def nat? : Value → Option Nat
  | .number spelling => natural? spelling
  | _ => none

def uint32? (v : Value) : Option UInt32 := do
  let n ← v.nat?
  if n < UInt32.size then some (UInt32.ofNat n) else none

def uint64? (v : Value) : Option UInt64 := do
  let n ← v.nat?
  if n < UInt64.size then some (UInt64.ofNat n) else none

def listOf? {α : Type} (read? : Value → Option α) : Value → Option (List α)
  | .array items => items.mapM read?
  | _ => none

/-- A value that may be missing or null. -/
def optional? {α : Type} (read? : Value → Option α) : Option Value → Option (Option α)
  | none | some .null => some none
  | some v => (read? v).map some

/-- The members of an object under their keys as texts. -/
def members? (members : List (List CodePoint × Value)) : Option (List (String × Value)) :=
  members.mapM fun (key, v) => (CodePoint.text? key).map fun name => (name, v)

/-- The named fields of a record, in the order of the names. A field may be
missing from an object, but must not occur twice. -/
def fields? (names : List String) : Value → Option (List (Option Value))
  | .array items => if items.length = names.length then some (items.map some) else none
  | .object members => do
    let named ← members? members
    if names.all fun name => named.countP (·.1 = name) ≤ 1 then
      some (names.map fun name => named.lookup name)
    else none
  | _ => none

def variant? : Value → Option String
  | .string points => CodePoint.text? points
  | .object [(key, .null)] => CodePoint.text? key
  | _ => none

end FleetComposition.Json.Value
