import FleetComposition.Expression
import FleetComposition.Wording.Lexicon
import FleetComposition.Wording.Naming

/-!
# Sentences

A sentence has a clause for every requirement that is not a placeholder. If no
requirement has the wildcard, a closing clause rules all other ships out, and if
nothing at all is left to say, the sentence says so.
-/
namespace FleetComposition

namespace Requirement

/-- The names of the listed ships. The wildcard is named only if it stands
alone. -/
def shipsPhrase (r : Requirement) (naming : Naming) (language : Language) : String :=
  let lexicon := Lexicon.ofLanguage language
  let named := r.tokens.filter fun token => !token.isWildcard
  if named.isEmpty then lexicon.anyShip
  else lexicon.tokenSeparator.intercalate (named.map fun token => naming token language)

/-- What a clause says about the flagship and the level, if anything. -/
def suffix (r : Requirement) (language : Language) : String :=
  let lexicon := Lexicon.ofLanguage language
  (if r.isFlagship then lexicon.flagship else "")
    ++ if r.level = 0 then "" else lexicon.levelPhrase r.level

def clause (r : Requirement) (naming : Naming) (language : Language) : String :=
  let lexicon := Lexicon.ofLanguage language
  let ships := r.shipsPhrase naming language
  let quantity := lexicon.quantityPhrase r.quantity
  let verb := lexicon.verb r.negated
  match lexicon.order with
  | .verbFirst =>
    verb ++ lexicon.wordSeparator ++ quantity ++ lexicon.wordSeparator ++ ships
      ++ r.suffix language
  | .verbLast => ships ++ quantity ++ r.suffix language ++ verb

end Requirement

/-- The clauses of a sentence, with the closing one. -/
def clauses (naming : Naming) (language : Language) (rs : List Requirement) : List String :=
  let lexicon := Lexicon.ofLanguage language
  let stated := (rs.filter fun r => !r.isPlaceholder).map fun r => r.clause naming language
  if rs.any Requirement.hasWildcard then
    if stated.isEmpty then [lexicon.unrestricted] else stated
  else stated ++ [lexicon.noOtherTypes]

def sentence (naming : Naming) (language : Language) (rs : List Requirement) : String :=
  (Lexicon.ofLanguage language).clauseSeparator.intercalate (clauses naming language rs)

namespace Expression

def sentence (e : Expression) (naming : Naming) : String :=
  FleetComposition.sentence naming e.language e.requirements

end Expression

end FleetComposition
