import FleetComposition.Text.Decimal

/-!
# Errors

What can be wrong with an expression or a language tag, and the text that says
so.
-/
namespace FleetComposition

/-- Why an expression cannot be read. An excerpt is the start of what could not
be read. -/
inductive Malformation where
  | emptyExpression
  | emptySegment
  | numberOutOfRange (excerpt : String)
  | missingShipId (excerpt : String)
  deriving DecidableEq, Repr

/-- A position counts bytes from the start of the expression. -/
inductive Error where
  | malformed (position : Nat) (reason : Malformation)
  | invalidQuantity (min max : UInt32)
  | unsupportedLanguage (tag : String)
  deriving DecidableEq, Repr

def Malformation.message : Malformation → String
  | emptyExpression => "empty expression"
  | emptySegment => "empty segment"
  | numberOutOfRange excerpt => "number out of range at: '" ++ excerpt ++ "'"
  | missingShipId excerpt => "expected ship id at: '" ++ excerpt ++ "'"

def Error.message : Error → String
  | malformed position reason =>
    "malformed fleet expression at position " ++ Nat.repr position ++ ": " ++ reason.message
  | invalidQuantity min max =>
    "invalid quantity \x7b" ++ Text.numeral min ++ "," ++ Text.numeral max
      ++ "\x7d: minimum exceeds maximum"
  | unsupportedLanguage tag => "unsupported language: " ++ tag

end FleetComposition
