import FleetComposition.SentenceStore
import FleetComposition.Settings
import FleetComposition.Wording.Sentence

/-!
# Describers

A describer turns texts of expressions into sentences. It may keep sentences it
has written; then each answer comes with the describer that remembers it. Texts
that cannot be read leave no trace.
-/
namespace FleetComposition

structure Describer where
  settings : Settings
  naming : Naming
  cache : Option SentenceStore

namespace Describer

def ofSettings (settings : Settings) (naming : Naming) : Describer where
  settings := settings
  naming := naming
  cache := settings.cache.map fun s => .ofLimit s.limit

/-- The sentence of a text, written anew. -/
def describeAfresh (naming : Naming) (text : String) (language : Language) :
    Except Error String :=
  (Expression.parse text language).map fun e => e.sentence naming

/-- The sentence of an expression that has been read already. The cache is not
asked. -/
def describeExpression (d : Describer) (e : Expression) : String :=
  e.sentence d.naming

/-- The sentence of a text, from the cache if it is there. -/
def describe (d : Describer) (text : String) (language : Language) :
    Except Error String × Describer :=
  match d.cache with
  | none => (describeAfresh d.naming text language, d)
  | some cache =>
    match cache.get text language with
    | (some sentence, used) => (.ok sentence, { d with cache := some used })
    | (none, missed) =>
      match describeAfresh d.naming text language with
      | .ok sentence =>
        (.ok sentence, { d with cache := some (missed.set text language sentence) })
      | .error e => (.error e, { d with cache := some missed })

def describeInDefault (d : Describer) (text : String) : Except Error String × Describer :=
  d.describe text d.settings.language

/-- An unknown tag is an error whatever the text is. -/
def describeInTag (d : Describer) (text tag : String) : Except Error String × Describer :=
  match Language.ofTag tag with
  | .ok language => d.describe text language
  | .error e => (.error e, d)

/-- The sentences of several texts, one after the other. An error in one of them
does not touch the others. -/
def describeAll (d : Describer) (texts : List String) (language : Language) :
    List (Except Error String) × Describer :=
  match texts with
  | [] => ([], d)
  | text :: texts =>
    let (answer, d') := d.describe text language
    let (answers, d'') := describeAll d' texts language
    (answer :: answers, d'')

/-- Asks the cache for a sentence. Without a cache there is none. -/
def remembered (d : Describer) (text : String) (language : Language) : Option String × Describer :=
  match d.cache with
  | none => (none, d)
  | some cache =>
    let (answer, used) := cache.get text language
    (answer, { d with cache := some used })

def clearCache (d : Describer) : Describer :=
  { d with cache := d.cache.map Recency.clear }

/-- The state of the describer in a line of a log. -/
def summary (d : Describer) : String :=
  "FleetResolver \x7b config: " ++ d.settings.summary ++ ", cache: "
    ++ optionalSummary SentenceStore.summary d.cache ++ ", .. \x7d"

/-- The part of a describer that writes sentences, in a line of a log. -/
def writerSummary : String := "Renderer \x7b .. \x7d"

end Describer

end FleetComposition
