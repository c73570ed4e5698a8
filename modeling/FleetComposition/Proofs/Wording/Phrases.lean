import FleetComposition.Proofs.Text.Run
import FleetComposition.Wording.Sentence

/-!
# Phrases that state numbers

The phrases of a quantity and of a level are fixed texts around numerals. In every
language they are the stems of its templates with numerals in place of the marks.
-/
namespace FleetComposition

open Text

/-! ## Filled templates -/

namespace Template

/-- The place of a bound in a template. -/
def mark (letter : Char) : List Char := ['{', letter, '}']

variable {letter : Char} {value front back : List Char}

lemma replaceMark_cons_of_ne {c : Char} (hc : c ≠ '{') (rest : List Char) :
    replaceMark letter value (c :: rest) = c :: replaceMark letter value rest := by
  rw [replaceMark]
  intro _ _ h
  exact absurd h hc

/-- Text without marks stays as it is. -/
lemma replaceMark_append (hfront : '{' ∉ front) (rest : List Char) :
    replaceMark letter value (front ++ rest) = front ++ replaceMark letter value rest := by
  induction front with
  | nil => rfl
  | cons c front ih =>
    have hc : c ≠ '{' := fun heq => hfront (by simp [heq])
    rw [List.cons_append, replaceMark_cons_of_ne hc,
      ih fun hmem => hfront (List.mem_cons_of_mem _ hmem), List.cons_append]

lemma replaceMark_of_not_mem (hfront : '{' ∉ front) : replaceMark letter value front = front := by
  have h := @replaceMark_append letter value front hfront []
  rwa [replaceMark, List.append_nil] at h

lemma replaceMark_mark (rest : List Char) :
    replaceMark letter value (mark letter ++ rest) = value ++ replaceMark letter value rest := by
  simp [mark, replaceMark]

lemma replaceMark_only_mark : replaceMark letter value (mark letter) = value := by
  simp [mark, replaceMark]

/-- The mark of the upper bound stays until its turn comes. -/
lemma replaceMark_lower_mark : replaceMark 'n' value (mark 'm') = mark 'm' := by
  simp [mark, replaceMark]

variable {template lower upper : String}

lemma toList_fill_lower (htemplate : template.toList = front ++ mark 'n' ++ back)
    (hfront : '{' ∉ front) (hback : '{' ∉ back) :
    (fill template lower none).toList = front ++ lower.toList ++ back := by
  rw [fill, String.toList_ofList, htemplate, List.append_assoc, replaceMark_append hfront,
    replaceMark_mark, replaceMark_of_not_mem hback, List.append_assoc]

lemma toList_fill_last (htemplate : template.toList = front ++ mark 'n') (hfront : '{' ∉ front) :
    (fill template lower none).toList = front ++ lower.toList := by
  rw [← List.append_nil (front ++ lower.toList)]
  exact toList_fill_lower (htemplate.trans (List.append_nil _).symm) hfront List.not_mem_nil

lemma toList_fill_upper (htemplate : template.toList = front ++ mark 'm')
    (hfront : '{' ∉ front) :
    (fill template lower (some upper)).toList = front ++ upper.toList := by
  simp only [fill]
  rw [String.toList_ofList, htemplate, replaceMark_append hfront,
    replaceMark_lower_mark, replaceMark_append hfront, replaceMark_only_mark]

lemma toList_fill_both (htemplate : template.toList = mark 'n' ++ (back ++ mark 'm'))
    (hlower : '{' ∉ lower.toList) (hback : '{' ∉ back) :
    (fill template lower (some upper)).toList = lower.toList ++ back ++ upper.toList := by
  simp only [fill]
  rw [String.toList_ofList, htemplate, replaceMark_mark, replaceMark_append hback,
    replaceMark_lower_mark, replaceMark_append hlower, replaceMark_append hback,
    replaceMark_only_mark, List.append_assoc]

end Template

/-! ## Stems -/

/-- The fixed texts around the numerals of the phrases of a language. -/
structure Stems where
  exact : List Char
  atMost : List Char
  atLeast : List Char
  range : List Char
  level : List Char
  levelEnd : List Char

namespace Stems

def ofLanguage : Language → Stems
  | .simplifiedChinese => ⟨[], ['至', '多'], ['至', '少'], ['~'], ['等', '级', '大', '于'], []⟩
  | .traditionalChinese => ⟨[], ['至', '多'], ['至', '少'], ['~'], ['等', '級', '大', '於'], []⟩
  | .japanese =>
    ⟨[], ['最', '大'], ['少', 'な', 'く', 'と', 'も'], ['~'], ['レ', 'ベ', 'ル'], ['超']⟩
  | .english =>
    ⟨"exactly ".toList, "up to ".toList, "at least ".toList, " to ".toList,
      " with level > ".toList, []⟩

/-- The upper bound of a range. -/
def bound (m : Option UInt32) : List Char :=
  ((m.map numeral).getD Lexicon.infinity).toList

/-- A quantity without its counter word. -/
def quantity (stems : Stems) : Quantity.Shape → List Char
  | .exact n => stems.exact ++ (numeral n).toList
  | .atMost m => stems.atMost ++ (numeral m).toList
  | .atLeast n => stems.atLeast ++ (numeral n).toList
  | .range n m => (numeral n).toList ++ stems.range ++ bound m

def levelPhrase (stems : Stems) (level : UInt32) : List Char :=
  stems.level ++ (numeral level).toList ++ stems.levelEnd

/-- The stems and the marks between them make up the templates of the lexicon. -/
structure Fit (stems : Stems) (lexicon : Lexicon) : Prop where
  exact : lexicon.exact.toList = stems.exact ++ Template.mark 'n'
  atMost : lexicon.atMost.toList = stems.atMost ++ Template.mark 'm'
  atLeast : lexicon.atLeast.toList = stems.atLeast ++ Template.mark 'n'
  range : lexicon.range.toList = Template.mark 'n' ++ (stems.range ++ Template.mark 'm')
  level : lexicon.level.toList = stems.level ++ Template.mark 'n' ++ stems.levelEnd
  unmarked : '{' ∉ stems.exact ++ stems.atMost ++ stems.atLeast ++ stems.range ++ stems.level ++
    stems.levelEnd

theorem fit_ofLanguage (language : Language) :
    (ofLanguage language).Fit (Lexicon.ofLanguage language) := by
  cases language <;> constructor <;> decide +kernel

lemma not_mem_numeral_of_not_isDigit {c : Char} (hc : c.isDigit = false) (n : UInt32) :
    c ∉ (numeral n).toList := by
  intro hmem
  rw [isDigit_of_mem_numeral hmem] at hc
  contradiction

variable {stems : Stems} {lexicon : Lexicon}

theorem Fit.toList_quantityPhrase (h : stems.Fit lexicon) (q : Quantity) :
    (lexicon.quantityPhrase q).toList = stems.quantity q.shape ++ lexicon.counter.toList := by
  have hunmarked := h.unmarked
  simp only [List.mem_append, not_or] at hunmarked
  obtain ⟨⟨⟨⟨⟨hexact, hatMost⟩, hatLeast⟩, hrange⟩, -⟩, -⟩ := hunmarked
  have hnumeral : ∀ n, '{' ∉ (numeral n).toList := not_mem_numeral_of_not_isDigit (by decide)
  rw [Lexicon.quantityPhrase, String.toList_append]
  congr 1
  cases q.shape with
  | exact n => exact Template.toList_fill_last h.exact hexact
  | atMost m => exact Template.toList_fill_upper h.atMost hatMost
  | atLeast n => exact Template.toList_fill_last h.atLeast hatLeast
  | range n m => exact Template.toList_fill_both h.range (hnumeral n) hrange

theorem Fit.toList_levelPhrase (h : stems.Fit lexicon) (level : UInt32) :
    (lexicon.levelPhrase level).toList = stems.levelPhrase level := by
  have hunmarked := h.unmarked
  simp only [List.mem_append, not_or] at hunmarked
  exact Template.toList_fill_lower h.level hunmarked.1.2 hunmarked.2

end Stems

end FleetComposition
