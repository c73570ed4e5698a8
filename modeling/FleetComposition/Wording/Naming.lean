import FleetComposition.Language
import FleetComposition.Latest
import FleetComposition.ShipToken

/-!
# Names of ship tokens

A naming says how a sentence calls the ships of a token. A name table gives
names for some tokens, in one language or in all of them.
-/
namespace FleetComposition

abbrev Naming := ShipToken → Language → String

/-- Calls every token as an expression spells it. -/
def Naming.verbatim : Naming := fun token _ => token.text

/-- Names by token and language; a name without a language holds in all of
them. -/
structure NameTable where
  entries : List ((ShipToken × Option Language) × String)
  deriving DecidableEq, Repr

namespace NameTable

def empty : NameTable := ⟨[]⟩

/-- Names a token in one language, or in all languages that have no name of
their own for it. -/
def insert (table : NameTable) (token : ShipToken) (language : Option Language) (name : String) :
    NameTable :=
  ⟨Latest.record (token, language) name table.entries⟩

def size (table : NameTable) : Nat :=
  table.entries.length

def isEmpty (table : NameTable) : Bool :=
  table.entries.isEmpty

/-- The name in the language, else the name for all languages, else the token as
it is spelt. -/
def naming (table : NameTable) : Naming := fun token language =>
  match table.entries.lookup (token, some language) with
  | some name => name
  | none => (table.entries.lookup (token, none)).getD token.text

end NameTable

end FleetComposition
