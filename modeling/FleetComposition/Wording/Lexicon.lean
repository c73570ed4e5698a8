import FleetComposition.Language
import FleetComposition.Quantity
import FleetComposition.Wording.Template

/-!
# Lexicons

The phrases of each language. Clauses of all languages are put together in one
way, and only the phrases and the place of the verb differ.
-/
namespace FleetComposition

/-- Where the verb of a clause stands. -/
inductive WordOrder where
  | verbFirst
  | verbLast
  deriving DecidableEq, Repr

/-- The phrases of a language. The quantities and the level are templates. -/
structure Lexicon where
  clauseSeparator : String
  tokenSeparator : String
  wordSeparator : String
  require : String
  forbid : String
  counter : String
  exact : String
  atMost : String
  atLeast : String
  range : String
  anyShip : String
  flagship : String
  level : String
  noOtherTypes : String
  unrestricted : String
  order : WordOrder
  deriving DecidableEq, Repr

namespace Lexicon

def simplifiedChinese : Lexicon where
  clauseSeparator := "，"
  tokenSeparator := "/"
  wordSeparator := ""
  require := "需要"
  forbid := "不能带"
  counter := "个"
  exact := "\x7bn\x7d"
  atMost := "至多\x7bm\x7d"
  atLeast := "至少\x7bn\x7d"
  range := "\x7bn\x7d~\x7bm\x7d"
  anyShip := "任意舰"
  flagship := "旗舰"
  level := "等级大于\x7bn\x7d"
  noOtherTypes := "不能带其它舰种"
  unrestricted := "无舰种限制"
  order := .verbFirst

def traditionalChinese : Lexicon where
  clauseSeparator := "，"
  tokenSeparator := "/"
  wordSeparator := ""
  require := "需要"
  forbid := "不能帶"
  counter := "個"
  exact := "\x7bn\x7d"
  atMost := "至多\x7bm\x7d"
  atLeast := "至少\x7bn\x7d"
  range := "\x7bn\x7d~\x7bm\x7d"
  anyShip := "任意艦"
  flagship := "旗艦"
  level := "等級大於\x7bn\x7d"
  noOtherTypes := "不能帶其它艦種"
  unrestricted := "無艦種限制"
  order := .verbFirst

def japanese : Lexicon where
  clauseSeparator := "、"
  tokenSeparator := "/"
  wordSeparator := ""
  require := "必要"
  forbid := "不可"
  counter := "隻"
  exact := "\x7bn\x7d"
  atMost := "最大\x7bm\x7d"
  atLeast := "少なくとも\x7bn\x7d"
  range := "\x7bn\x7d~\x7bm\x7d"
  anyShip := "任意の艦"
  flagship := "旗艦"
  level := "レベル\x7bn\x7d超"
  noOtherTypes := "他の艦種は不可"
  unrestricted := "艦種制限なし"
  order := .verbLast

def english : Lexicon where
  clauseSeparator := ", "
  tokenSeparator := " or "
  wordSeparator := " "
  require := "Require"
  forbid := "Must not have"
  counter := ""
  exact := "exactly \x7bn\x7d"
  atMost := "up to \x7bm\x7d"
  atLeast := "at least \x7bn\x7d"
  range := "\x7bn\x7d to \x7bm\x7d"
  anyShip := "any ship"
  flagship := " as flagship"
  level := " with level > \x7bn\x7d"
  noOtherTypes := "No other ship types allowed"
  unrestricted := "No ship type restrictions"
  order := .verbFirst

def ofLanguage : Language → Lexicon
  | .simplifiedChinese => simplifiedChinese
  | .traditionalChinese => traditionalChinese
  | .japanese => japanese
  | .english => english

/-- Written for an upper bound that a range does not have. -/
def infinity : String := "∞"

/-- The wording of a quantity by its shape, with the counter word behind it. -/
def quantityPhrase (lexicon : Lexicon) (q : Quantity) : String :=
  (match q.shape with
    | .exact n => Template.fill lexicon.exact (Text.numeral n) none
    | .atMost m => Template.fill lexicon.atMost (Text.numeral 0) (some (Text.numeral m))
    | .atLeast n => Template.fill lexicon.atLeast (Text.numeral n) none
    | .range n m =>
      Template.fill lexicon.range (Text.numeral n) (some ((m.map Text.numeral).getD infinity)))
    ++ lexicon.counter

def levelPhrase (lexicon : Lexicon) (level : UInt32) : String :=
  Template.fill lexicon.level (Text.numeral level) none

def verb (lexicon : Lexicon) (negated : Bool) : String :=
  if negated then lexicon.forbid else lexicon.require

end Lexicon

end FleetComposition
