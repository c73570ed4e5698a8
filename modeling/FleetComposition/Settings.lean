import FleetComposition.Language

/-!
# Settings

The settings of a describer: the language of sentences for which none is asked,
and how many sentences are kept, if any are.
-/
namespace FleetComposition

structure CacheSettings where
  limit : UInt64
  deriving DecidableEq, Repr

/-- Room for 1024 sentences. -/
def CacheSettings.standard : CacheSettings := ⟨1024⟩

instance : Inhabited CacheSettings := ⟨.standard⟩

structure Settings where
  language : Language
  cache : Option CacheSettings
  deriving DecidableEq, Repr

namespace Settings

/-- The standard language and no cache. -/
def standard : Settings := ⟨default, none⟩

instance : Inhabited Settings := ⟨.standard⟩

end Settings

/-- The name of a language in a line of a log. -/
def Language.logName : Language → String
  | simplifiedChinese => "SimplifiedChinese"
  | traditionalChinese => "TraditionalChinese"
  | japanese => "Japanese"
  | english => "English"

/-- An optional part in a line of a log. -/
def optionalSummary {α : Type} (summary : α → String) : Option α → String
  | some a => "Some(" ++ summary a ++ ")"
  | none => "None"

def CacheSettings.summary (s : CacheSettings) : String :=
  "CacheConfig \x7b max_entries: " ++ Nat.repr s.limit.toNat ++ " \x7d"

def Settings.summary (s : Settings) : String :=
  "ResolverConfig \x7b default_language: " ++ s.language.logName ++ ", cache: "
    ++ optionalSummary CacheSettings.summary s.cache ++ " \x7d"

end FleetComposition
