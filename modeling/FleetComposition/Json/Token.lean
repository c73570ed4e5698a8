import FleetComposition.Json.CodePoint
import FleetComposition.Json.Number

/-!
# Tokens of JSON texts

A JSON text is a sequence of tokens with blanks of four kinds between them.
Reading takes each token as far as it goes.
-/
namespace FleetComposition.Json

inductive Token where
  | openArray
  | closeArray
  | openObject
  | closeObject
  | comma
  | colon
  | null
  | bool (value : Bool)
  | number (spelling : List Char)
  | string (points : List CodePoint)
  deriving DecidableEq, Repr

namespace Token

def isBlank (c : Char) : Bool :=
  c = ' ' || c = '\t' || c = '\n' || c = '\r'

def write : Token → List Char
  | openArray => ['[']
  | closeArray => [']']
  | openObject => ['{']
  | closeObject => ['}']
  | comma => [',']
  | colon => [':']
  | null => "null".toList
  | bool true => "true".toList
  | bool false => "false".toList
  | number spelling => spelling
  | string points => '"' :: points.flatMap CodePoint.write ++ ['"']

/-- The token of a mark, a number or a word that starts with `c`. -/
def readPlain (c : Char) (rest : List Char) : Option (Token × List Char) :=
  match c with
  | '[' => some (openArray, rest)
  | ']' => some (closeArray, rest)
  | '{' => some (openObject, rest)
  | '}' => some (closeObject, rest)
  | ',' => some (comma, rest)
  | ':' => some (colon, rest)
  | c =>
    if c.isDigit || c = '-' then
      let spelling := c :: rest.takeWhile isNumberChar
      if isNumber spelling then some (number spelling, rest.dropWhile isNumberChar) else none
    else
      let left := rest.dropWhile Char.isAlpha
      match String.ofList (c :: rest.takeWhile Char.isAlpha) with
      | "null" => some (null, left)
      | "true" => some (bool true, left)
      | "false" => some (bool false, left)
      | _ => none

/-- The token at the start of a text, and the text behind it. -/
def readOne (c : Char) (rest : List Char) : Option (Token × List Char) :=
  if c = '"' then (CodePoint.readString rest).map fun (points, left) => (string points, left)
  else readPlain c rest

theorem length_readPlain_le {c : Char} {rest left : List Char} {t : Token}
    (h : readPlain c rest = some (t, left)) : left.length ≤ rest.length := by
  have hdrop : ∀ p : Char → Bool, (rest.dropWhile p).length ≤ rest.length := fun p =>
    (List.dropWhile_sublist p).length_le
  unfold readPlain at h
  split at h
  iterate 6
    cases h
    exact Nat.le_refl _
  · dsimp only at h
    split at h
    · split at h
      · cases h
        exact hdrop _
      · nomatch h
    · split at h
      iterate 3
        cases h
        exact hdrop _
      nomatch h

theorem length_readOne_le {c : Char} {rest left : List Char} {t : Token}
    (h : readOne c rest = some (t, left)) : left.length ≤ rest.length := by
  unfold readOne at h
  split at h
  · obtain ⟨⟨points, left'⟩, hread, h⟩ := Option.map_eq_some_iff.mp h
    cases h
    exact Nat.le_of_lt (CodePoint.length_readString_lt hread)
  · exact length_readPlain_le h

/-- All tokens of a text. -/
def readAll (cs : List Char) : Option (List Token) :=
  match cs with
  | [] => some []
  | c :: rest =>
    if isBlank c then readAll rest
    else
      match _found : readOne c rest with
      | some (t, left) => (readAll left).map (t :: ·)
      | none => none
termination_by cs.length
decreasing_by
  · simp
  · have := length_readOne_le _found
    simp only [List.length_cons]
    omega

end Token

end FleetComposition.Json
