import FleetComposition.Expression
import FleetComposition.Json.Record
import FleetComposition.Settings

/-!
# The JSON form of the data model

Each type of the data model has a value that is written for it and a reader that
takes this value back.
-/
namespace FleetComposition

open Json

namespace ShipToken

/-- The name of a kind of token, and its code or number if it has one. -/
def toJson : ShipToken → Value
  | code text => .record [("kind", .ofText "type"), ("value", .ofText text)]
  | shipClass id => .record [("kind", .ofText "class"), ("value", .ofNat id.toNat)]
  | ship id => .record [("kind", .ofText "ship"), ("value", .ofNat id.toNat)]
  | wildcard => .record [("kind", .ofText "any")]

/-- The token of a kind and what is written as its value. -/
def ofKind? (kind : String) (value : Option Value) : Option ShipToken :=
  match kind with
  | "type" => value.bind fun v => v.text?.map code
  | "class" => value.bind fun v => v.uint32?.map shipClass
  | "ship" => value.bind fun v => v.uint32?.map ship
  | "any" =>
    match value with
    | none | some .null => some wildcard
    | _ => none
  | _ => none

/-- The kind is the name of a variant in an object, and a plain string in an
array. -/
def ofJson? : Value → Option ShipToken
  | .array [kind, value] => kind.text?.bind fun name => ofKind? name (some value)
  | .object members =>
    match Value.fields? ["kind", "value"] (.object members) with
    | some [some kind, value] => kind.variant?.bind fun name => ofKind? name value
    | _ => none
  | _ => none

end ShipToken

namespace Quantity

/-- The upper bound is null if there is none. -/
def toJson (q : Quantity) : Value :=
  .record [("min", .ofNat q.min.toNat),
    ("max", (q.max.map fun m => Value.ofNat m.toNat).getD .null)]

def ofJson? (v : Value) : Option Quantity :=
  match v.fields? ["min", "max"] with
  | some [some min, max] => do
    return ⟨← min.uint32?, ← Value.optional? Value.uint32? max⟩
  | _ => none

end Quantity

namespace Language

def toJson (language : Language) : Value := .ofText language.tag

/-- A tag is read only as it is written. -/
def ofJson? (v : Value) : Option Language :=
  v.variant?.bind fun name => all.find? fun language => language.tag = name

end Language

namespace Requirement

def toJson (r : Requirement) : Value :=
  .record [("ship_types", .array (r.tokens.map ShipToken.toJson)),
    ("quantity", r.quantity.toJson),
    ("positions", .array (r.slots.toList.map fun slot => Value.ofNat slot.toNat)),
    ("level_condition", .ofNat r.level.toNat),
    ("negated", .bool r.negated)]

/-- Whether the requirement is well formed is not checked. -/
def ofJson? (v : Value) : Option Requirement :=
  match v.fields? ["ship_types", "quantity", "positions", "level_condition", "negated"] with
  | some [some tokens, some quantity, some slots, some level, some negated] => do
    return {
      tokens := ← tokens.listOf? ShipToken.ofJson?
      quantity := ← Quantity.ofJson? quantity
      slots := .ofList (← slots.listOf? Value.uint32?)
      level := ← level.uint32?
      negated := ← negated.bool? }
  | _ => none

end Requirement

namespace Expression

def toJson (e : Expression) : Value :=
  .record [("source", .ofText e.source), ("language", e.language.toJson),
    ("components", .array (e.requirements.map Requirement.toJson))]

def ofJson? (v : Value) : Option Expression :=
  match v.fields? ["source", "language", "components"] with
  | some [some source, some language, some requirements] => do
    return {
      source := ← source.text?
      language := ← Language.ofJson? language
      requirements := ← requirements.listOf? Requirement.ofJson? }
  | _ => none

end Expression

namespace CacheSettings

def toJson (s : CacheSettings) : Value :=
  .record [("max_entries", .ofNat s.limit.toNat)]

def ofJson? (v : Value) : Option CacheSettings :=
  match v.fields? ["max_entries"] with
  | some [some limit] => limit.uint64?.map CacheSettings.mk
  | _ => none

end CacheSettings

namespace Settings

/-- The cache is null if there is none. -/
def toJson (s : Settings) : Value :=
  .record [("default_language", s.language.toJson),
    ("cache", (s.cache.map CacheSettings.toJson).getD .null)]

def ofJson? (v : Value) : Option Settings :=
  match v.fields? ["default_language", "cache"] with
  | some [some language, cache] => do
    return ⟨← Language.ofJson? language, ← Value.optional? CacheSettings.ofJson? cache⟩
  | _ => none

end Settings

end FleetComposition
