import FleetComposition.Proofs.Segment.Canonical
import FleetComposition.Proofs.Text.Unambiguous
import FleetComposition.Proofs.Wording.Phrases

/-!
# The clauses of a sentence

No clause holds a comma of any kind unless a name does, so a sentence splits into the
clauses it was joined from. Every clause states a number, which neither the closing
clause nor the sentence without any clause does, so these are never mistaken for one.
-/
namespace FleetComposition

open Text

/-! ## Characters of a clause -/

/-- Everything that the clauses of a language may say besides names and numerals. -/
def fixedText (language : Language) : List Char :=
  let lexicon := Lexicon.ofLanguage language
  let stems := Stems.ofLanguage language
  lexicon.tokenSeparator.toList ++ lexicon.wordSeparator.toList ++ lexicon.require.toList
    ++ lexicon.forbid.toList ++ lexicon.counter.toList ++ lexicon.anyShip.toList
    ++ lexicon.flagship.toList ++ Lexicon.infinity.toList ++ stems.exact ++ stems.atMost
    ++ stems.atLeast ++ stems.range ++ stems.level ++ stems.levelEnd

namespace Stems

variable {P : Char → Prop} {stems : Stems}

lemma forall_mem_numeral (hdigit : ∀ c : Char, c.isDigit → P c) (n : UInt32) :
    ∀ c ∈ (numeral n).toList, P c :=
  fun _ hc => hdigit _ (isDigit_of_mem_numeral hc)

/-- Every quantity is worded with a numeral, that of its upper bound or of its lower
bound. -/
theorem exists_isDigit_quantity (stems : Stems) (s : Quantity.Shape) :
    ∃ c ∈ stems.quantity s, c.isDigit := by
  have hnumeral : ∃ n, ∀ c ∈ (numeral n).toList, c ∈ stems.quantity s := by
    cases s with
    | exact n => exact ⟨n, fun c hc => List.mem_append_right _ hc⟩
    | atMost m => exact ⟨m, fun c hc => List.mem_append_right _ hc⟩
    | atLeast n => exact ⟨n, fun c hc => List.mem_append_right _ hc⟩
    | range n m => exact ⟨n, fun c hc => List.mem_append_left _ (List.mem_append_left _ hc)⟩
  obtain ⟨n, hn⟩ := hnumeral
  obtain ⟨c, cs, hcs, hdigit⟩ := exists_numeral_cons n
  exact ⟨c, hn c (hcs ▸ List.mem_cons_self), hdigit⟩

lemma forall_mem_quantity (hdigit : ∀ c : Char, c.isDigit → P c)
    (hinfinity : ∀ c ∈ Lexicon.infinity.toList, P c) (hexact : ∀ c ∈ stems.exact, P c)
    (hatMost : ∀ c ∈ stems.atMost, P c) (hatLeast : ∀ c ∈ stems.atLeast, P c)
    (hrange : ∀ c ∈ stems.range, P c) (s : Quantity.Shape) : ∀ c ∈ stems.quantity s, P c := by
  have hnumeral := forall_mem_numeral hdigit
  cases s with
  | exact n => exact List.forall_mem_append.mpr ⟨hexact, hnumeral n⟩
  | atMost m => exact List.forall_mem_append.mpr ⟨hatMost, hnumeral m⟩
  | atLeast n => exact List.forall_mem_append.mpr ⟨hatLeast, hnumeral n⟩
  | range n m =>
    refine List.forall_mem_append.mpr ⟨List.forall_mem_append.mpr ⟨hnumeral n, hrange⟩, ?_⟩
    cases m with
    | none => exact hinfinity
    | some m => exact hnumeral m

end Stems

namespace Requirement

variable {P : Char → Prop} {naming : Naming} {language : Language}

/-- The words of a clause in the order of its language. -/
lemma toList_clause (r : Requirement) (naming : Naming) (language : Language) :
    (r.clause naming language).toList =
      let lexicon := Lexicon.ofLanguage language
      let quantity :=
        (Stems.ofLanguage language).quantity r.quantity.shape ++ lexicon.counter.toList
      match lexicon.order with
      | .verbFirst =>
        (lexicon.verb r.negated).toList ++ lexicon.wordSeparator.toList ++ quantity
          ++ lexicon.wordSeparator.toList ++ (r.shipsPhrase naming language).toList
          ++ (r.suffix language).toList
      | .verbLast =>
        (r.shipsPhrase naming language).toList ++ quantity ++ (r.suffix language).toList
          ++ (lexicon.verb r.negated).toList := by
  have hquantity := (Stems.fit_ofLanguage language).toList_quantityPhrase r.quantity
  unfold clause
  simp only
  cases (Lexicon.ofLanguage language).order with
  | verbFirst => simp only [String.toList_append, hquantity]
  | verbLast => simp only [String.toList_append, hquantity]

theorem exists_isDigit_clause (r : Requirement) (naming : Naming) (language : Language) :
    ∃ c ∈ (r.clause naming language).toList, c.isDigit := by
  obtain ⟨c, hc, hdigit⟩ := (Stems.ofLanguage language).exists_isDigit_quantity r.quantity.shape
  refine ⟨c, ?_, hdigit⟩
  rw [toList_clause]
  simp only
  split <;> simp [hc]

lemma toList_shipsPhrase (r : Requirement) (naming : Naming) (language : Language) :
    (r.shipsPhrase naming language).toList =
      listed (Lexicon.ofLanguage language).tokenSeparator.toList
        (Lexicon.ofLanguage language).anyShip.toList
        ((r.tokens.filter fun token => !token.isWildcard).map fun token =>
          (naming token language).toList) := by
  unfold shipsPhrase listed
  simp only [List.isEmpty_map]
  split
  next => rfl
  next =>
    rw [String.toList_intercalate, List.map_map]
    rfl

lemma toList_suffix (r : Requirement) (language : Language) :
    (r.suffix language).toList =
      (if r.isFlagship then (Lexicon.ofLanguage language).flagship.toList else []) ++
        if r.level = 0 then [] else (Stems.ofLanguage language).levelPhrase r.level := by
  unfold suffix
  simp only [String.toList_append]
  congr 1
  · split <;> rfl
  · split
    next => rfl
    next => exact (Stems.fit_ofLanguage language).toList_levelPhrase r.level

lemma forall_mem_shipsPhrase {r : Requirement}
    (hany : ∀ c ∈ (Lexicon.ofLanguage language).anyShip.toList, P c)
    (hseparator : ∀ c ∈ (Lexicon.ofLanguage language).tokenSeparator.toList, P c)
    (hnames : ∀ token ∈ r.tokens, token ≠ .wildcard → ∀ c ∈ (naming token language).toList, P c) :
    ∀ c ∈ (r.shipsPhrase naming language).toList, P c := by
  rw [toList_shipsPhrase]
  unfold listed
  split
  next => exact hany
  next =>
    refine forall_mem_intercalate hseparator fun name hname => ?_
    simp only [List.mem_map, List.mem_filter] at hname
    obtain ⟨token, ⟨htoken, hwildcard⟩, rfl⟩ := hname
    refine hnames token htoken fun heq => ?_
    rw [heq] at hwildcard
    cases hwildcard

lemma forall_mem_suffix {r : Requirement} (hdigit : ∀ c : Char, c.isDigit → P c)
    (hflagship : ∀ c ∈ (Lexicon.ofLanguage language).flagship.toList, P c)
    (hlevel : ∀ c ∈ (Stems.ofLanguage language).level, P c)
    (hlevelEnd : ∀ c ∈ (Stems.ofLanguage language).levelEnd, P c) :
    ∀ c ∈ (r.suffix language).toList, P c := by
  rw [toList_suffix]
  refine List.forall_mem_append.mpr ⟨?_, ?_⟩
  · split
    next => exact hflagship
    next => exact List.forall_mem_nil _
  · split
    next => exact List.forall_mem_nil _
    next =>
      exact List.forall_mem_append.mpr
        ⟨List.forall_mem_append.mpr ⟨hlevel, Stems.forall_mem_numeral hdigit _⟩, hlevelEnd⟩

/-- Fixed text, digits and names are all there is in a clause. -/
theorem forall_mem_clause {r : Requirement} (hfixed : ∀ c ∈ fixedText language, P c)
    (hdigit : ∀ c : Char, c.isDigit → P c)
    (hnames : ∀ token ∈ r.tokens, token ≠ .wildcard → ∀ c ∈ (naming token language).toList, P c) :
    ∀ c ∈ (r.clause naming language).toList, P c := by
  simp only [fixedText, List.forall_mem_append] at hfixed
  obtain ⟨⟨⟨⟨⟨⟨⟨⟨⟨⟨⟨⟨⟨hseparator, hword⟩, hrequire⟩, hforbid⟩, hcounter⟩, hany⟩, hflagship⟩,
    hinfinity⟩, hexact⟩, hatMost⟩, hatLeast⟩, hrange⟩, hlevel⟩, hlevelEnd⟩ := hfixed
  have hquantity := Stems.forall_mem_quantity hdigit hinfinity hexact hatMost hatLeast hrange
    r.quantity.shape
  have hships := forall_mem_shipsPhrase hany hseparator hnames
  have hsuffix : ∀ c ∈ (r.suffix language).toList, P c :=
    forall_mem_suffix hdigit hflagship hlevel hlevelEnd
  have hverb : ∀ c ∈ ((Lexicon.ofLanguage language).verb r.negated).toList, P c := by
    unfold Lexicon.verb
    split
    next => exact hforbid
    next => exact hrequire
  rw [toList_clause]
  simp only
  split
  next =>
    simp only [List.forall_mem_append]
    exact ⟨⟨⟨⟨⟨hverb, hword⟩, hquantity, hcounter⟩, hword⟩, hships⟩, hsuffix⟩
  next =>
    simp only [List.forall_mem_append]
    exact ⟨⟨⟨hships, hquantity, hcounter⟩, hsuffix⟩, hverb⟩

end Requirement

/-! ## Names without commas -/

/-- The characters that separate clauses, of which English text has one and Chinese and
Japanese text have others. -/
def commas : List Char := [',', '，', '、']

/-- The tokens of an expression have names without commas. -/
def Naming.CommaFree (naming : Naming) : Prop :=
  ∀ token : ShipToken, token.WellFormed → token ≠ .wildcard → ∀ language,
    ∀ c ∈ (naming token language).toList, c ∉ commas

lemma not_mem_commas_of_isDigit {c : Char} (hc : c.isDigit) : c ∉ commas := by
  have hcommas : ∀ d ∈ commas, d.isDigit = false := forall_mem_of_all (by decide)
  intro hmem
  rw [hcommas c hmem] at hc
  contradiction

lemma not_mem_commas_of_isStart {c : Char} (hc : Written.Name.isStart c) : c ∉ commas := by
  have hcommas : ∀ d ∈ commas, Written.Name.isStart d = false :=
    forall_mem_of_all (by decide +kernel)
  intro hmem
  rw [hcommas c hmem] at hc
  contradiction

namespace ShipToken

variable {token : ShipToken}

lemma isStart_of_mem_text (h : token.WellFormed) :
    ∀ c ∈ token.text.toList, Written.Name.isStart c := by
  rw [← Written.Name.text_ofToken h]
  exact Written.Name.isStart_of_mem_text _

lemma not_mem_commas_of_mem_text (h : token.WellFormed) : ∀ c ∈ token.text.toList, c ∉ commas :=
  fun c hc => not_mem_commas_of_isStart (isStart_of_mem_text h c hc)

end ShipToken

lemma Naming.commaFree_verbatim : Naming.verbatim.CommaFree :=
  fun _ h _ _ => ShipToken.not_mem_commas_of_mem_text h

lemma NameTable.commaFree_naming {table : NameTable}
    (h : ∀ e ∈ table.entries, ∀ c ∈ e.2.toList, c ∉ commas) : table.naming.CommaFree := by
  intro token htoken _ language
  have hentry : ∀ {key name}, table.entries.lookup key = some name →
      ∀ c ∈ name.toList, c ∉ commas := by
    intro key name hlookup
    obtain ⟨before, after, heq, -⟩ := List.lookup_eq_some_iff.mp hlookup
    exact h (key, name) (by simp [heq])
  unfold naming
  split
  next name hname => exact hentry hname
  next =>
    cases hname : table.entries.lookup (token, none) with
    | some name => exact hentry hname
    | none => exact ShipToken.not_mem_commas_of_mem_text htoken

end FleetComposition
