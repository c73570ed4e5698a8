import FleetComposition.Language
import FleetComposition.Segment.Grammar
import FleetComposition.Text.Bytes

/-!
# Fleet expressions

An expression is a list of segments with hyphens between them. Blanks around the
expression and around its segments do not count. The first segment that cannot
be read decides the error, and positions refer to the expression as given.
-/
namespace FleetComposition

open Text

/-- The mark between segments. -/
def separator : Char := '-'

/-- The start of a text that could not be read, cut to a readable length. -/
def excerpt (cs : List Char) : String :=
  String.ofList (cs.take 20)

def Segment.Fault.malformation : Segment.Fault → Malformation
  | .numberOutOfRange rest => .numberOutOfRange (excerpt rest)
  | .missingShipId rest => .missingShipId (excerpt rest)

/-- The requirement of the segment that starts at byte `offset`. -/
def requirementAt (offset : Nat) (raw : List Char) : Except Error Requirement :=
  let start := offset + byteLength (raw.takeWhile isBlank)
  let segment := trim raw
  if segment.isEmpty then .error (.malformed start .emptySegment)
  else
    match Segment.read segment with
    | .ok written => written.requirement
    | .error e =>
      .error (.malformed (start + (byteLength segment - byteLength e.rest)) e.malformation)

/-- The requirements of successive segments, the first of which starts at byte
`offset`. -/
def requirementsFrom (offset : Nat) : List (List Char) → Except Error (List Requirement)
  | [] => .ok []
  | raw :: raws => do
    let r ← requirementAt offset raw
    let rs ← requirementsFrom (offset + byteLength raw + separator.utf8Size) raws
    return r :: rs

/-- The requirements of an expression in the order of its segments. -/
def requirements (text : String) : Except Error (List Requirement) :=
  let cs := text.toList
  let body := trim cs
  if body.isEmpty then .error (.malformed 0 .emptyExpression)
  else requirementsFrom (byteLength (cs.takeWhile isBlank)) (body.splitOn separator)

/-- The spelling of a list of requirements in which nothing is left out. -/
def canonical (rs : List Requirement) : String :=
  separator.toString.intercalate (rs.map Requirement.text)

/-- An expression that has been read, with the language of its sentence. -/
structure Expression where
  source : String
  language : Language
  requirements : List Requirement
  deriving DecidableEq, Repr

namespace Expression

def parse (source : String) (language : Language) : Except Error Expression :=
  (FleetComposition.requirements source).map fun rs => ⟨source, language, rs⟩

/-- The requirements that a sentence mentions. -/
def visible (e : Expression) : List Requirement :=
  e.requirements.filter fun r => !r.isPlaceholder

/-- Whether ships outside the listed types are welcome. -/
def hasWildcard (e : Expression) : Bool :=
  e.requirements.any Requirement.hasWildcard

def canonical (e : Expression) : String :=
  FleetComposition.canonical e.requirements

end Expression

end FleetComposition
