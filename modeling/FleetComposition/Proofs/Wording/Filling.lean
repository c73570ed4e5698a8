import FleetComposition.Proofs.Wording.Phrases
import Mathlib.Logic.Function.Basic

/-!
# Filling all marks at once

A template is filled one bound after the other. No character of a mark occurs in what is
put in, so no mark comes about where a bound was put in, and the text is the same as if
all marks were filled in a single pass over the template. Nor does it matter which bound
is put in first.
-/
namespace FleetComposition.Template

open Text

/-- A single pass over a template. The marks of letters that have a value make way for
it, and every other character is copied. -/
def fillAtOnce (values : Char → Option (List Char)) : List Char → List Char
  | '{' :: c :: '}' :: rest =>
    match values c with
    | some value => value ++ fillAtOnce values rest
    | none => '{' :: fillAtOnce values (c :: '}' :: rest)
  | c :: rest => c :: fillAtOnce values rest
  | [] => []

/-- The value has something in it, but nothing that belongs to the mark of the letter. -/
def Inert (letter : Char) (value : List Char) : Prop :=
  value ≠ [] ∧ ∀ c ∈ mark letter, c ∉ value

variable {letter : Char} {value : List Char} {values : Char → Option (List Char)}
  {cs : List Char}

/-- What opens no mark is copied. -/
lemma fillAtOnce_cons {c : Char} {rest : List Char}
    (h : ∀ d behind, c = '{' → rest = d :: '}' :: behind → False) :
    fillAtOnce values (c :: rest) = c :: fillAtOnce values rest := by
  rw [fillAtOnce]
  exact h

lemma fillAtOnce_cons_of_ne {c : Char} (hc : c ≠ '{') (rest : List Char) :
    fillAtOnce values (c :: rest) = c :: fillAtOnce values rest :=
  fillAtOnce_cons fun _ _ h _ => hc h

/-- A pass without values copies the template. -/
lemma fillAtOnce_none (cs : List Char) : fillAtOnce (fun _ => none) cs = cs := by
  fun_induction fillAtOnce (fun _ => none) cs with
  | case1 c rest value hvalue => cases hvalue
  | case2 c rest _ ih => rw [ih]
  | case3 c rest _ ih => rw [ih]
  | case4 => rfl

/-- A character that no value holds was there before the pass. -/
lemma exists_cons_of_fillAtOnce {c : Char} {out : List Char} (hc : c ≠ '{')
    (hvalues : ∀ d value, values d = some value → value ≠ [] ∧ c ∉ value)
    (h : fillAtOnce values cs = c :: out) :
    ∃ rest, cs = c :: rest ∧ fillAtOnce values rest = out := by
  revert h
  fun_cases fillAtOnce values cs with
  | case1 d rest value hvalue =>
    intro h
    obtain ⟨hne, hfree⟩ := hvalues d value hvalue
    obtain ⟨first, others, rfl⟩ := List.exists_cons_of_ne_nil hne
    obtain ⟨rfl, -⟩ := List.cons.inj h
    exact absurd List.mem_cons_self hfree
  | case2 d rest => exact fun h => absurd (List.cons.inj h).1.symm hc
  | case3 d rest =>
    intro h
    obtain ⟨rfl, hout⟩ := List.cons.inj h
    exact ⟨rest, rfl, hout⟩
  | case4 => exact fun h => nomatch h

/-- A brace that does not open a mark stays. -/
lemma replaceMark_brace (h : ∀ rest, cs ≠ letter :: '}' :: rest) :
    replaceMark letter value ('{' :: cs) = '{' :: replaceMark letter value cs := by
  by_cases hmark : ∃ c rest, cs = c :: '}' :: rest
  · obtain ⟨c, rest, rfl⟩ := hmark
    have hc : c ≠ letter := fun hletter => h rest (by rw [hletter])
    rw [replaceMark, if_neg hc]
  · rw [replaceMark]
    exact fun c rest _ heq => hmark ⟨c, rest, heq⟩

/-- A mark without a value is copied too. -/
lemma fillAtOnce_mark (hletter : letter ≠ '{') (hnone : values letter = none)
    (rest : List Char) :
    fillAtOnce values (mark letter ++ rest) = mark letter ++ fillAtOnce values rest := by
  have hopened : fillAtOnce values (mark letter ++ rest) =
      '{' :: fillAtOnce values (letter :: '}' :: rest) := by
    simp only [mark, List.cons_append, List.nil_append, fillAtOnce, hnone]
  rw [hopened, fillAtOnce_cons_of_ne hletter, fillAtOnce_cons_of_ne (by decide)]
  rfl

section Inert

variable (hletter : letter ≠ '{') (hinert : ∀ d value, values d = some value → Inert letter value)
include hletter hinert

/-- The end of a mark cannot come from a value, not even in part. -/
lemma exists_eq_of_fillAtOnce {out : List Char} (h : fillAtOnce values cs = letter :: '}' :: out) :
    ∃ rest, cs = letter :: '}' :: rest := by
  have hfree : ∀ c ∈ mark letter, ∀ d value, values d = some value → value ≠ [] ∧ c ∉ value :=
    fun c hc d value hd => ⟨(hinert d value hd).1, (hinert d value hd).2 c hc⟩
  obtain ⟨behind, rfl, hbehind⟩ :=
    exists_cons_of_fillAtOnce hletter (hfree letter (by simp [mark])) h
  obtain ⟨rest, rfl, -⟩ :=
    exists_cons_of_fillAtOnce (by decide) (hfree '}' (by simp [mark])) hbehind
  exact ⟨rest, rfl⟩

/-- Filling in a further mark after a pass is the pass that fills it in too. -/
theorem replaceMark_fillAtOnce (hnone : values letter = none) :
    replaceMark letter value (fillAtOnce values cs) =
      fillAtOnce (Function.update values letter (some value)) cs := by
  -- by cases on what the pass that fills in all of them finds first
  fun_induction fillAtOnce (Function.update values letter (some value)) cs with
  | case1 c rest put hput ih =>
    by_cases hc : c = letter
    · subst c
      rw [Function.update_self] at hput
      obtain rfl := Option.some.inj hput
      have hpass := fillAtOnce_mark hletter hnone rest
      rw [show '{' :: letter :: '}' :: rest = mark letter ++ rest from rfl, hpass, replaceMark_mark,
        ih]
    · rw [Function.update_of_ne hc] at hput
      have hbrace : '{' ∉ put := (hinert c put hput).2 '{' (by simp [mark])
      simp only [fillAtOnce, hput]
      rw [replaceMark_append hbrace, ih]
  | case2 c rest hput ih =>
    have hc : c ≠ letter := by
      rintro rfl
      rw [Function.update_self] at hput
      cases hput
    rw [Function.update_of_ne hc] at hput
    simp only [fillAtOnce, hput]
    rw [replaceMark_brace, ih]
    intro out hout
    obtain ⟨rest', heq⟩ := exists_eq_of_fillAtOnce hletter hinert hout
    exact hc (List.cons.inj heq).1
  | case3 c rest hshape ih =>
    rw [fillAtOnce_cons hshape]
    by_cases hc : c = '{'
    · subst c
      rw [replaceMark_brace, ih]
      intro out hout
      obtain ⟨rest', rfl⟩ := exists_eq_of_fillAtOnce hletter hinert hout
      exact hshape letter rest' rfl rfl
    · rw [replaceMark_cons_of_ne hc, ih]
  | case4 => rfl

end Inert

/-- Filling in a single mark is a pass with one value. -/
lemma replaceMark_eq_fillAtOnce (hletter : letter ≠ '{') :
    replaceMark letter value cs =
      fillAtOnce (Function.update (fun _ => none) letter (some value)) cs := by
  rw [← replaceMark_fillAtOnce hletter (by simp) rfl, fillAtOnce_none]

/-- Filling in one mark and then another is a pass with both values. -/
theorem replaceMark_replaceMark {first second : Char} {early late : List Char}
    (hfirst : first ≠ '{') (hsecond : second ≠ '{') (hne : second ≠ first)
    (hinert : Inert second early) :
    replaceMark second late (replaceMark first early cs) =
      fillAtOnce (Function.update (Function.update (fun _ => none) first (some early)) second
        (some late)) cs := by
  have hvalues : ∀ d value, Function.update (fun _ => none) first (some early) d = some value →
      Inert second value := by
    intro d value hd
    by_cases h : d = first
    · rw [h, Function.update_self] at hd
      exact Option.some.inj hd ▸ hinert
    · rw [Function.update_of_ne h] at hd
      cases hd
  rw [replaceMark_eq_fillAtOnce hfirst, replaceMark_fillAtOnce hsecond hvalues]
  exact Function.update_of_ne hne _ _

/-! ## Bounds -/

/-- The values of the marks: the lower bound and, if it is given, the upper one. -/
def bounds (lower : List Char) (upper : Option (List Char)) : Char → Option (List Char)
  | 'n' => some lower
  | 'm' => upper
  | _ => none

lemma bounds_eq_update (lower : List Char) (upper : Option (List Char)) :
    bounds lower upper =
      Function.update (Function.update (fun _ => none) 'n' (some lower)) 'm' upper := by
  funext c
  unfold bounds
  split
  next => rfl
  next => rfl
  next hn hm => rw [Function.update_of_ne hm, Function.update_of_ne hn]

variable {lower upper : List Char}

lemma replaceMark_lower : replaceMark 'n' lower cs = fillAtOnce (bounds lower none) cs := by
  have hbounds : bounds lower none = Function.update (fun _ => none) 'n' (some lower) := by
    rw [bounds_eq_update, Function.update_eq_self_iff, Function.update_of_ne (by decide)]
  rw [replaceMark_eq_fillAtOnce (by decide), hbounds]

lemma replaceMark_upper_lower (hlower : Inert 'm' lower) :
    replaceMark 'm' upper (replaceMark 'n' lower cs) =
      fillAtOnce (bounds lower (some upper)) cs := by
  rw [bounds_eq_update, replaceMark_replaceMark (by decide) (by decide) (by decide) hlower]

lemma replaceMark_lower_upper (hupper : Inert 'n' upper) :
    replaceMark 'n' lower (replaceMark 'm' upper cs) =
      fillAtOnce (bounds lower (some upper)) cs := by
  have hswap : ('n' : Char) ≠ 'm' := by decide
  rw [bounds_eq_update, Function.update_comm hswap,
    replaceMark_replaceMark (by decide) (by decide) hswap hupper]

lemma inert_numeral (hletter : letter.isDigit = false) (n : UInt32) :
    Inert letter (numeral n).toList := by
  have hmark : ∀ c ∈ mark letter, c.isDigit = false := by
    simp only [mark, List.forall_mem_cons]
    exact ⟨by decide, hletter, by decide, List.forall_mem_nil _⟩
  refine ⟨?_, fun c hc => Stems.not_mem_numeral_of_not_isDigit (hmark c hc) n⟩
  rw [toList_numeral]
  exact Nat.toDigits_ne_nil

lemma inert_bound (m : Option UInt32) : Inert 'n' (Stems.bound m) := by
  cases m with
  | none => exact ⟨by decide, forall_mem_of_all (by decide)⟩
  | some m => exact inert_numeral (by decide) m

/-- Filling a template, whatever is written in it, is a single pass that puts the bounds in
place of their marks. The other order gives the same text, and so does the way in which a
quantity without any bound is worded. -/
theorem fill_eq_fillAtOnce (template : String) (n : UInt32) (m : Option UInt32)
    (lexicon : Lexicon) :
    let lower := (numeral n).toList
    let upper := (m.map numeral).getD Lexicon.infinity
    let atOnce := fun values => String.ofList (fillAtOnce values template.toList)
    fill template (numeral n) none = atOnce (bounds lower none) ∧
      fill template (numeral n) (some upper) = atOnce (bounds lower (some upper.toList)) ∧
      String.ofList (replaceMark 'n' lower (replaceMark 'm' upper.toList template.toList)) =
        atOnce (bounds lower (some upper.toList)) ∧
      { lexicon with range := template }.quantityPhrase .unbounded =
        atOnce (bounds ['0'] (some ['∞'])) ++ lexicon.counter := by
  intro lower upper atOnce
  have hboth : ∀ n upper, fill template (numeral n) (some upper) =
      atOnce (bounds (numeral n).toList (some upper.toList)) := fun n upper =>
    congrArg String.ofList (replaceMark_upper_lower (inert_numeral (by decide) n))
  refine ⟨congrArg String.ofList replaceMark_lower, hboth n upper,
    congrArg String.ofList (replaceMark_lower_upper (inert_bound m)), ?_⟩
  exact congrArg (· ++ lexicon.counter) (hboth 0 Lexicon.infinity)

/-- A mark that comes to stand between braces is filled like any other, and what looks like a
mark afterwards is left alone. -/
example : fill "\x7b\x7bn\x7dm\x7d\x7bm\x7dn\x7d" "1" (some "2") = "\x7b1m\x7d2n\x7d" := by
  decide

end FleetComposition.Template
