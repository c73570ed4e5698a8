import FleetComposition.Error
import FleetComposition.Text.Blank

/-!
# Languages

The languages of a sentence and the tags that name them.
-/
namespace FleetComposition

inductive Language where
  | simplifiedChinese
  | traditionalChinese
  | japanese
  | english
  deriving DecidableEq, Repr

namespace Language

instance : Inhabited Language := ⟨simplifiedChinese⟩

def all : List Language :=
  [simplifiedChinese, traditionalChinese, japanese, english]

/-- The tag under which a language is written. -/
def tag : Language → String
  | simplifiedChinese => "zh_Hans"
  | traditionalChinese => "zh_Hant"
  | japanese => "ja"
  | english => "en"

/-- The language of a tag spelt with low lines and in lower case. -/
def ofPlainTag : String → Option Language
  | "zh_hans" | "zh_cn" | "zh_sg" => some simplifiedChinese
  | "zh_hant" | "zh_tw" | "zh_hk" => some traditionalChinese
  | "ja" | "ja_jp" => some japanese
  | "en" | "en_us" | "en_gb" => some english
  | _ => none

/-- Blanks around a tag, the case of its ASCII letters, and the choice of hyphen
or low line do not matter. -/
def plainTag (tag : String) : String :=
  String.ofList ((Text.trim tag.toList).map fun c => if c = '-' then '_' else c.toLower)

def ofTag (tag : String) : Except Error Language :=
  match ofPlainTag (plainTag tag) with
  | some language => .ok language
  | none => .error (.unsupportedLanguage tag)

end Language

end FleetComposition
