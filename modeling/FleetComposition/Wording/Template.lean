import FleetComposition.Text.Decimal

/-!
# Templates

A template is a text with marks for the bounds of a quantity, the letter n in
braces for the lower one and the letter m for the upper one. Filling replaces
all marks of the lower bound and then all marks of the upper bound.
-/
namespace FleetComposition.Template

/-- Puts `value` in place of every mark of the given letter. -/
def replaceMark (letter : Char) (value : List Char) : List Char → List Char
  | '{' :: c :: '}' :: rest =>
    if c = letter then value ++ replaceMark letter value rest
    else '{' :: replaceMark letter value (c :: '}' :: rest)
  | c :: rest => c :: replaceMark letter value rest
  | [] => []

/-- Fills in the lower bound and, if it is given, the upper one. Without it the
marks of the upper bound stay. -/
def fill (template : String) (lower : String) (upper : Option String) : String :=
  let filled := replaceMark 'n' lower.toList template.toList
  match upper with
  | some upper => String.ofList (replaceMark 'm' upper.toList filled)
  | none => String.ofList filled

end FleetComposition.Template
