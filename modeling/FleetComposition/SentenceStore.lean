import FleetComposition.Expression
import FleetComposition.Recency

/-!
# The sentence cache

Sentences that have been written are kept under their language and the text of
their expression. The text is stripped of the blanks that do not count, so that
spellings of one expression that differ only in these share a sentence.
-/
namespace FleetComposition

open Text

/-- The text of an expression without the blanks around it and its segments. -/
def keyText (text : String) : String :=
  String.ofList ([separator].intercalate (((trim text.toList).splitOn separator).map trim))

abbrev SentenceStore := Recency (String × Language) String

namespace SentenceStore

/-- A cache has room for one sentence at least. -/
def ofLimit (limit : UInt64) : SentenceStore :=
  .empty (max 1 limit.toNat)

def get (cache : SentenceStore) (text : String) (language : Language) :
    Option String × SentenceStore :=
  Recency.get cache (keyText text, language)

def set (cache : SentenceStore) (text : String) (language : Language) (sentence : String) :
    SentenceStore :=
  Recency.put cache (keyText text, language) sentence

/-- The state of the cache in a line of a log. -/
def summary (cache : SentenceStore) : String :=
  "SentenceCache \x7b entries: " ++ Nat.repr cache.size ++ ", capacity: "
    ++ Nat.repr cache.capacity ++ " \x7d"

end SentenceStore

end FleetComposition
