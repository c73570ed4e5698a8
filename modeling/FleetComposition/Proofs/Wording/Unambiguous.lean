import FleetComposition.Proofs.Text.Unambiguous
import FleetComposition.Proofs.Wording.Clauses

/-!
# Clauses that differ in meaning

In a language with the verb in front, a clause can be read back part by part. The verb
and the stems of the quantity differ early, every numeral is followed by something
else, and names made of characters that open no further part end where one begins. So
clauses are alike only if they say the same of the same ships.
-/
namespace FleetComposition

open Text

/-! ## Quantities -/

namespace Stems

/-- What stands before the first numeral of a quantity. -/
def opening (stems : Stems) : Quantity.Shape → List Char
  | .exact _ => stems.exact
  | .atMost _ => stems.atMost
  | .atLeast _ => stems.atLeast
  | .range _ _ => []

/-- What stands behind the first numeral of a quantity. -/
def ending (stems : Stems) : Quantity.Shape → List Char
  | .range _ m => stems.range ++ bound m
  | _ => []

/-- The word of the first numeral of a quantity. -/
def leading : Quantity.Shape → UInt32
  | .exact n => n
  | .atMost m => m
  | .atLeast n => n
  | .range n _ => n

/-- The stems tell the quantities apart in front of a counter. -/
structure Distinct (stems : Stems) (counter : List Char) : Prop where
  digitless : (stems.exact ++ stems.atMost ++ stems.atLeast).all fun c => !c.isDigit
  atMost_ne_nil : stems.atMost ≠ []
  atLeast_ne_nil : stems.atLeast ≠ []
  exact_ne_atMost : stems.exact ≠ stems.atMost
  exact_ne_atLeast : stems.exact ≠ stems.atLeast
  atMost_ne_atLeast : stems.atMost ≠ stems.atLeast
  -- without a stem an exact number is only a range cut short
  range : stems.exact = [] → Apart counter stems.range
  stops : ∀ text ∈ [counter, stems.range], text ≠ [] ∧ Stops Char.isDigit text

variable {stems : Stems} {counter x y : List Char}

lemma quantity_eq (stems : Stems) (s : Quantity.Shape) :
    stems.quantity s = stems.opening s ++ ((numeral (leading s)).toList ++ stems.ending s) := by
  cases s with
  | range n m => exact List.append_assoc _ _ _
  | _ => exact congrArg _ (List.append_nil _).symm

/-- No numeral begins like the sign of a missing bound. -/
lemma bound_cancel {m m' : Option UInt32} (hx : Stops Char.isDigit x) (hy : Stops Char.isDigit y)
    (h : bound m ++ x = bound m' ++ y) : m = m' ∧ x = y := by
  have hinfinity : ∀ (n : UInt32) (x y : List Char),
      (numeral n).toList ++ x ≠ Lexicon.infinity.toList ++ y := by
    intro n x y heq
    obtain ⟨c, cs, hcs, hc⟩ := exists_numeral_cons n
    rw [hcs] at heq
    obtain ⟨rfl, -⟩ := List.cons.inj heq
    exact absurd hc (by decide)
  cases m with
  | none =>
    cases m' with
    | none => exact ⟨rfl, List.append_cancel_left h⟩
    | some n' => exact absurd h.symm (hinfinity n' y x)
  | some n =>
    cases m' with
    | none => exact absurd h (hinfinity n x y)
    | some n' =>
      obtain ⟨rfl, hrest⟩ := numeral_cancel hx hy h
      exact ⟨rfl, hrest⟩

namespace Distinct

variable (h : stems.Distinct counter)
include h

lemma digitless_opening (s : Quantity.Shape) : ∀ c ∈ stems.opening s, c.isDigit = false := by
  have hdigitless := h.digitless
  simp only [List.all_append, Bool.and_eq_true, List.all_eq_true, Bool.not_eq_true']
    at hdigitless
  obtain ⟨⟨hexact, hatMost⟩, hatLeast⟩ := hdigitless
  cases s with
  | exact n => exact hexact
  | atMost m => exact hatMost
  | atLeast n => exact hatLeast
  | range n m => exact List.forall_mem_nil _

lemma stops_counter (x : List Char) : Stops Char.isDigit (counter ++ x) :=
  stops_append (h.stops counter (by simp)).1 (h.stops counter (by simp)).2 x

lemma stops_ending (s : Quantity.Shape) (x : List Char) :
    Stops Char.isDigit (stems.ending s ++ (counter ++ x)) := by
  cases s with
  | range n m =>
    have hrange := h.stops stems.range (by simp)
    exact stops_append (by simp [hrange.1]) (stops_append hrange.1 hrange.2 _) _
  | _ => exact h.stops_counter x

/-- An exact number and a range may begin alike, but only the range goes on. -/
lemma exact_ne_range {n m : UInt32} {b : Option UInt32}
    (hopening : stems.opening (.exact n) = stems.opening (.range m b)) (x y : List Char) :
    counter ++ x ≠ stems.ending (.range m b) ++ (counter ++ y) := by
  rw [ending, List.append_assoc]
  exact (h.range hopening).append_ne _ _

/-- A quantity in front of a counter can be read back. -/
theorem quantity_cancel {s t : Quantity.Shape}
    (heq : stems.quantity s ++ (counter ++ x) = stems.quantity t ++ (counter ++ y)) :
    s = t ∧ x = y := by
  rw [quantity_eq, quantity_eq, List.append_assoc, List.append_assoc, List.append_assoc,
    List.append_assoc] at heq
  obtain ⟨hopening, hleading, hending⟩ := cancel_before_numeral (h.digitless_opening s)
    (h.digitless_opening t) (h.stops_ending s x) (h.stops_ending t y) heq
  cases s with
  | exact n =>
    cases t with
    | exact n' =>
      obtain rfl : n = n' := hleading
      exact ⟨rfl, List.append_cancel_left hending⟩
    | atMost m => exact absurd hopening h.exact_ne_atMost
    | atLeast n' => exact absurd hopening h.exact_ne_atLeast
    | range n' m => exact absurd hending (h.exact_ne_range hopening x y)
  | atMost m =>
    cases t with
    | exact n => exact absurd hopening.symm h.exact_ne_atMost
    | atMost m' =>
      obtain rfl : m = m' := hleading
      exact ⟨rfl, List.append_cancel_left hending⟩
    | atLeast n => exact absurd hopening h.atMost_ne_atLeast
    | range n m' => exact absurd hopening h.atMost_ne_nil
  | atLeast n =>
    cases t with
    | exact n' => exact absurd hopening.symm h.exact_ne_atLeast
    | atMost m => exact absurd hopening.symm h.atMost_ne_atLeast
    | atLeast n' =>
      obtain rfl : n = n' := hleading
      exact ⟨rfl, List.append_cancel_left hending⟩
    | range n' m => exact absurd hopening h.atLeast_ne_nil
  | range n m =>
    cases t with
    | exact n' => exact absurd hending.symm (h.exact_ne_range hopening.symm y x)
    | atMost m' => exact absurd hopening.symm h.atMost_ne_nil
    | atLeast n' => exact absurd hopening.symm h.atLeast_ne_nil
    | range n' m' =>
      obtain rfl : n = n' := hleading
      rw [ending, ending, List.append_assoc, List.append_assoc] at hending
      obtain ⟨rfl, hrest⟩ := bound_cancel (h.stops_counter x) (h.stops_counter y)
        (List.append_cancel_left hending)
      exact ⟨rfl, List.append_cancel_left hrest⟩

end Distinct

end Stems

/-! ## Legible languages -/

/-- The fixed texts of the language show where each part of a clause ends, if all names
are made of characters of the class. -/
structure Language.Legible (language : Language) (p : Char → Bool) : Prop where
  order : (Lexicon.ofLanguage language).order = .verbFirst
  verbs : Apart (Lexicon.ofLanguage language).require.toList
    (Lexicon.ofLanguage language).forbid.toList
  quantities : (Stems.ofLanguage language).Distinct
    ((Lexicon.ofLanguage language).counter.toList
      ++ (Lexicon.ofLanguage language).wordSeparator.toList)
  -- the phrase for any ship may begin like a name, but it goes on as no list does
  ships : Apart (Lexicon.ofLanguage language).tokenSeparator.toList
    ((Lexicon.ofLanguage language).anyShip.toList.dropWhile p)
  suffixes : Apart (Lexicon.ofLanguage language).flagship.toList (Stems.ofLanguage language).level
  marks : ∀ mark ∈ [(Lexicon.ofLanguage language).tokenSeparator.toList,
      (Lexicon.ofLanguage language).anyShip.toList.dropWhile p],
    Apart mark (Lexicon.ofLanguage language).flagship.toList ∧
      Apart mark (Stems.ofLanguage language).level
  stops : ∀ mark ∈ [(Lexicon.ofLanguage language).tokenSeparator.toList,
    (Lexicon.ofLanguage language).flagship.toList, (Stems.ofLanguage language).level], Stops p mark
  levelEnd : Stops Char.isDigit (Stems.ofLanguage language).levelEnd

/-- The characters of names of which no fixed text in Chinese is made. -/
def isAsciiNameChar (c : Char) : Bool := Written.Name.isStart c && decide (c.toNat < 128)

theorem legible_english : Language.english.Legible Written.Name.isStart where
  order := rfl
  verbs := by decide
  quantities := by constructor <;> decide +kernel
  ships := by decide +kernel
  suffixes := by decide
  marks := by decide +kernel
  stops := by decide +kernel
  levelEnd := stops_nil _

theorem legible_of_ne_japanese {language : Language} (h : language ≠ .japanese) :
    language.Legible isAsciiNameChar := by
  cases language with
  | japanese => exact absurd rfl h
  | _ =>
    exact
      { order := rfl
        verbs := by decide
        quantities := by constructor <;> decide +kernel
        ships := by decide +kernel
        suffixes := by decide
        marks := by decide +kernel
        stops := by decide +kernel
        levelEnd := stops_nil _ }

/-- Different tokens are spelt differently, because each is read back from its text. -/
theorem ShipToken.text_inj {s t : ShipToken} (hs : s.WellFormed) (ht : t.WellFormed)
    (h : s.text.toList = t.text.toList) : s = t := by
  have hread : ∀ {t : ShipToken}, t.WellFormed →
      Segment.Reader.bareToken t.text.toList = .found t [] := by
    intro t ht
    have hends : Segment.Reader.EndsName (Written.Name.ofToken t ht) [] :=
      Segment.Reader.endsName_of_stops _ (stops_nil _) fun _ h => by cases h
    have hfound := Segment.Reader.bareToken_text (Written.Name.fits_ofToken ht) hends
    rwa [List.append_nil, Written.Name.text_ofToken, Written.Name.token_ofToken] at hfound
  have hsame := hread hs
  rw [h, hread ht] at hsame
  exact (Segment.Reading.found.inj hsame).1.symm

lemma ShipToken.eq_of_map_text_eq {ss ts : List ShipToken} (hss : ∀ token ∈ ss, token.WellFormed)
    (hts : ∀ token ∈ ts, token.WellFormed)
    (h : (ss.map fun token => token.text.toList) = ts.map fun token => token.text.toList) :
    ss = ts := by
  have hids := map_eq_map_of_map_eq_map (g := id) (fun _ _ => text_inj) hss hts h
  rwa [List.map_id, List.map_id] at hids

/-! ## Clauses -/

/-- What a requirement says in a sentence, whatever the language. Of its slots it says only
whether the first one, that of the flagship, is among them. -/
structure Provision where
  negated : Bool
  quantity : Quantity
  ships : List ShipToken
  flagship : Bool
  level : UInt32
  deriving DecidableEq

namespace Requirement

variable {r s : Requirement} {language : Language} {p : Char → Bool}

def provision (r : Requirement) : Provision where
  negated := r.negated
  quantity := r.quantity
  ships := r.tokens.filter (· ≠ .wildcard)
  flagship := decide (0 ∈ r.slots)
  level := r.level

lemma ships_provision (r : Requirement) :
    r.provision.ships = r.tokens.filter fun token => !token.isWildcard :=
  List.filter_congr fun token _ => by cases token <;> rfl

/-- The tokens can be spelt, and all their characters are of the class. -/
def Spelt (r : Requirement) (p : Char → Bool) : Prop :=
  ∀ token ∈ r.tokens, token.WellFormed ∧ ∀ c ∈ token.text.toList, p c

/-- A clause says nothing but the provision of its requirement. -/
lemma clause_eq_of_provision_eq (h : r.provision = s.provision) (naming : Naming)
    (language : Language) : r.clause naming language = s.clause naming language := by
  obtain ⟨hnegated, hquantity, -, -, hlevel⟩ := Provision.mk.inj h
  have hships : (r.tokens.filter fun token => !token.isWildcard) =
      s.tokens.filter fun token => !token.isWildcard := by
    rw [← ships_provision, ← ships_provision, h]
  have hflagship : r.isFlagship = s.isFlagship := congrArg Provision.flagship h
  unfold clause shipsPhrase suffix
  rw [hnegated, hquantity, hships, hflagship, hlevel]

/-! ### Verbs and suffixes -/

lemma verb_cancel {lexicon : Lexicon} (h : Apart lexicon.require.toList lexicon.forbid.toList)
    {negated negated' : Bool} {x y : List Char}
    (heq : (lexicon.verb negated).toList ++ x = (lexicon.verb negated').toList ++ y) :
    negated = negated' ∧ x = y := by
  cases negated with
  | false =>
    cases negated' with
    | false => exact ⟨rfl, List.append_cancel_left heq⟩
    | true => exact absurd heq (h.append_ne x y)
  | true =>
    cases negated' with
    | false => exact absurd heq.symm (h.append_ne y x)
    | true => exact ⟨rfl, List.append_cancel_left heq⟩

/-- A text behind a suffix shows where the suffix ends. -/
structure EndsSuffix (language : Language) (x : List Char) : Prop where
  flagship : ¬(Lexicon.ofLanguage language).flagship.toList <+: x
  level : ¬(Stems.ofLanguage language).level <+: x
  stops : Stops Char.isDigit ((Stems.ofLanguage language).levelEnd ++ x)

section Suffix

variable (h : Apart (Lexicon.ofLanguage language).flagship.toList (Stems.ofLanguage language).level)
  {x y : List Char} (hx : EndsSuffix language x) (hy : EndsSuffix language y)
include h hx hy

omit h in
lemma levelPart_cancel {m n : UInt32}
    (heq : (if m = 0 then [] else (Stems.ofLanguage language).levelPhrase m) ++ x =
      (if n = 0 then [] else (Stems.ofLanguage language).levelPhrase n) ++ y) : m = n ∧ x = y := by
  have hstart : ∀ (n : UInt32) (z : List Char),
      (Stems.ofLanguage language).level <+: (Stems.ofLanguage language).levelPhrase n ++ z := by
    intro n z
    rw [Stems.levelPhrase, List.append_assoc, List.append_assoc]
    exact List.prefix_append _ _
  split at heq
  next hm =>
    split at heq
    next hn => exact ⟨hm.trans hn.symm, heq⟩
    next =>
      rw [List.nil_append] at heq
      exact absurd (heq ▸ hstart n y) hx.level
  next =>
    split at heq
    next =>
      rw [List.nil_append] at heq
      exact absurd (heq ▸ hstart m x) hy.level
    next =>
      simp only [Stems.levelPhrase, List.append_assoc] at heq
      obtain ⟨hlevel, hend⟩ := numeral_cancel hx.stops hy.stops (List.append_cancel_left heq)
      exact ⟨hlevel, List.append_cancel_left hend⟩

/-- A suffix can be read back: the phrases of the flagship and of a level differ early. -/
theorem suffix_cancel (heq : (r.suffix language).toList ++ x = (s.suffix language).toList ++ y) :
    r.isFlagship = s.isFlagship ∧ r.level = s.level ∧ x = y := by
  have hapart : ∀ {z : List Char}, EndsSuffix language z → ∀ (n : UInt32) (w : List Char),
      (Lexicon.ofLanguage language).flagship.toList ++ w ≠
        (if n = 0 then [] else (Stems.ofLanguage language).levelPhrase n) ++ z := by
    intro z hz n w hw
    split at hw
    next =>
      rw [List.nil_append] at hw
      exact hz.flagship (hw ▸ List.prefix_append _ w)
    next =>
      rw [Stems.levelPhrase, List.append_assoc, List.append_assoc] at hw
      exact h.append_ne _ _ hw
  rw [toList_suffix, toList_suffix, List.append_assoc, List.append_assoc] at heq
  cases hr : r.isFlagship with
  | false =>
    cases hs : s.isFlagship with
    | false =>
      rw [hr, hs] at heq
      exact ⟨rfl, levelPart_cancel hx hy heq⟩
    | true =>
      rw [hr, hs] at heq
      exact absurd heq.symm (hapart hx _ _)
  | true =>
    cases hs : s.isFlagship with
    | false =>
      rw [hr, hs] at heq
      exact absurd heq (hapart hy _ _)
    | true =>
      rw [hr, hs] at heq
      exact ⟨rfl, levelPart_cancel hx hy (List.append_cancel_left heq)⟩

end Suffix

end Requirement

namespace Language.Legible

variable {language : Language} {p : Char → Bool} (h : language.Legible p) {r s : Requirement}
include h

/-- The names end where a suffix begins. -/
lemma ends_suffix (r : Requirement) :
    Ends p [(Lexicon.ofLanguage language).tokenSeparator.toList,
      (Lexicon.ofLanguage language).anyShip.toList.dropWhile p] (r.suffix language).toList := by
  rw [Requirement.toList_suffix]
  split
  next =>
    exact Ends.of_start h.suffixes.ne_nil (h.stops _ (by simp))
      (fun mark hmark => (h.marks mark hmark).1) (List.prefix_append _ _)
  next =>
    rw [List.nil_append]
    split
    next => exact ends_nil fun mark hmark => (h.marks mark hmark).1.ne_nil
    next =>
      refine Ends.of_start h.suffixes.symm.ne_nil (h.stops _ (by simp))
        (fun mark hmark => (h.marks mark hmark).2) ?_
      rw [Stems.levelPhrase, List.append_assoc]
      exact List.prefix_append _ _

lemma endsSuffix_nil : Requirement.EndsSuffix language [] where
  flagship := fun hstart => h.suffixes.ne_nil (List.prefix_nil.mp hstart)
  level := fun hstart => h.suffixes.symm.ne_nil (List.prefix_nil.mp hstart)
  stops := by simpa using h.levelEnd

lemma ships_cancel {x y : List Char} (hr : r.Spelt p) (hs : s.Spelt p)
    (hx : Ends p [(Lexicon.ofLanguage language).tokenSeparator.toList,
      (Lexicon.ofLanguage language).anyShip.toList.dropWhile p] x)
    (hy : Ends p [(Lexicon.ofLanguage language).tokenSeparator.toList,
      (Lexicon.ofLanguage language).anyShip.toList.dropWhile p] y)
    (heq : (r.shipsPhrase .verbatim language).toList ++ x =
      (s.shipsPhrase .verbatim language).toList ++ y) :
    r.provision.ships = s.provision.ships ∧ x = y := by
  have hnamed : ∀ {r : Requirement}, r.Spelt p →
      ∀ token ∈ r.provision.ships, token.WellFormed ∧ ∀ c ∈ token.text.toList, p c :=
    fun hr token htoken => hr token (List.mem_filter.mp htoken).1
  have hnames : ∀ {r : Requirement}, r.Spelt p →
      ∀ name ∈ r.provision.ships.map fun token => token.text.toList, ∀ c ∈ name, p c := by
    intro r hr name hname
    obtain ⟨token, htoken, rfl⟩ := List.mem_map.mp hname
    exact (hnamed hr token htoken).2
  rw [Requirement.toList_shipsPhrase, Requirement.toList_shipsPhrase,
    ← Requirement.ships_provision, ← Requirement.ships_provision] at heq
  obtain ⟨htexts, hrest⟩ := listed_cancel (h.stops _ (by simp)) h.ships hx hy (hnames hr)
    (hnames hs) heq
  exact ⟨ShipToken.eq_of_map_text_eq (fun token htoken => (hnamed hr token htoken).1)
    (fun token htoken => (hnamed hs token htoken).1) htexts, hrest⟩

/-- Clauses are alike only if they say the same of the same ships. -/
theorem provision_eq_of_clause_eq (hr : r.Spelt p) (hs : s.Spelt p)
    (heq : r.clause .verbatim language = s.clause .verbatim language) :
    r.provision = s.provision := by
  have htext := congrArg String.toList heq
  rw [Requirement.toList_clause, Requirement.toList_clause] at htext
  simp only [h.order, List.append_assoc] at htext
  obtain ⟨hnegated, hbehind⟩ := Requirement.verb_cancel h.verbs htext
  have hquantities := List.append_cancel_left hbehind
  rw [← List.append_assoc (Lexicon.ofLanguage language).counter.toList,
    ← List.append_assoc (Lexicon.ofLanguage language).counter.toList] at hquantities
  obtain ⟨hshape, hwords⟩ := h.quantities.quantity_cancel hquantities
  obtain ⟨hships, hsuffix⟩ := h.ships_cancel hr hs (h.ends_suffix r) (h.ends_suffix s) hwords
  rw [← List.append_nil (r.suffix language).toList, ← List.append_nil (s.suffix language).toList]
    at hsuffix
  obtain ⟨hflagship, hlevel, -⟩ :=
    Requirement.suffix_cancel h.suffixes h.endsSuffix_nil h.endsSuffix_nil hsuffix
  have hquantity : r.quantity = s.quantity := by
    rw [← r.quantity.ofShape_shape, hshape, Quantity.ofShape_shape]
  exact (Provision.mk.injEq ..).mpr ⟨hnegated, hquantity, hships, hflagship, hlevel⟩

end Language.Legible

end FleetComposition
