import FleetComposition.Proofs.Wording.Meaning

/-!
# Clauses with the verb at the end

In Japanese the quantity stands right behind the names, and so a name that ends in digits
can run into the number of ships. Clauses that read alike differ at most in where the last
name ends and that number begins; everything else can be read back.
-/
namespace FleetComposition

open Text

/-! ## What reads alike -/

/-- The two shapes start with the given numbers and are worded alike behind them: both are
exact numbers, or both are ranges up to the same bound. A greatest number alone and a least
number alone are worded with a word in front, so that no digits meet. -/
inductive Quantity.Shape.Counted : UInt32 → UInt32 → Shape → Shape → Prop
  | exact (m n : UInt32) : Counted m n (.exact m) (.exact n)
  | range (m n : UInt32) (bound : Option UInt32) : Counted m n (.range m bound) (.range n bound)

namespace Provision

/-- The last names of the two provisions are spelt alike once the number of ships stands
behind them, and the provisions name the same ships before and count alike behind. -/
def RunTogether (p q : Provision) : Prop :=
  ∃ ships s t m n, p.ships = ships ++ [s] ∧ q.ships = ships ++ [t] ∧
    s.text ++ numeral m = t.text ++ numeral n ∧
      Quantity.Shape.Counted m n p.quantity.shape q.quantity.shape

/-- The provisions are the same but for digits that may belong to the last name or to the
number behind it. -/
structure ReadsAlike (p q : Provision) : Prop where
  negated : p.negated = q.negated
  flagship : p.flagship = q.flagship
  level : p.level = q.level
  ships : p.ships = q.ships ∧ p.quantity = q.quantity ∨ p.RunTogether q

end Provision

/-! ## Names and quantities -/

namespace Stems

/-- The digits with which a quantity starts in a language without a stem for exact numbers. -/
def firstDigits : Quantity.Shape → List Char
  | .exact n => (numeral n).toList
  | .range n _ => (numeral n).toList
  | _ => []

/-- What stands behind the first digits of a quantity in Japanese, the counter included. -/
def behindDigits : Quantity.Shape → List Char
  | .exact _ => ['隻']
  | .atMost m => ['最', '大'] ++ (numeral m).toList ++ ['隻']
  | .atLeast n => ['少', 'な', 'く', 'と', 'も'] ++ (numeral n).toList ++ ['隻']
  | .range _ m => '~' :: bound m ++ ['隻']

lemma japanese_quantity (s : Quantity.Shape) :
    (ofLanguage .japanese).quantity s ++ (Lexicon.ofLanguage .japanese).counter.toList =
      firstDigits s ++ behindDigits s := by
  have hcounter : (Lexicon.ofLanguage .japanese).counter.toList = ['隻'] := by decide
  have hexact : (ofLanguage .japanese).exact = [] := rfl
  have hatMost : (ofLanguage .japanese).atMost = ['最', '大'] := rfl
  have hatLeast : (ofLanguage .japanese).atLeast = ['少', 'な', 'く', 'と', 'も'] := rfl
  have hrange : (ofLanguage .japanese).range = ['~'] := rfl
  rw [hcounter]
  cases s <;> simp only [quantity, hexact, hatMost, hatLeast, hrange, firstDigits, behindDigits,
    List.nil_append, List.append_assoc, List.cons_append]

variable {s t : Quantity.Shape} {m n : UInt32} {x y : List Char}

lemma firstDigits_of_counted (h : Quantity.Shape.Counted m n s t) :
    firstDigits s = (numeral m).toList ∧ firstDigits t = (numeral n).toList := by
  cases h <;> exact ⟨rfl, rfl⟩

lemma behindDigits_of_counted (h : Quantity.Shape.Counted m n s t) :
    behindDigits s = behindDigits t := by
  cases h <;> rfl

/-- Behind its first digits a quantity can be read back. -/
lemma behindDigits_cancel (h : behindDigits s ++ x = behindDigits t ++ y) :
    x = y ∧ (s = t ∧ firstDigits s = [] ∨ ∃ m n, Quantity.Shape.Counted m n s t) := by
  have hcounter : ∀ x, Stops Char.isDigit ('隻' :: x) := fun x => by simp
  cases s with
  | exact m =>
    cases t with
    | exact n => exact ⟨by simpa [behindDigits] using h, .inr ⟨m, n, .exact m n⟩⟩
    | _ => simp [behindDigits] at h
  | atMost m =>
    cases t with
    | atMost n =>
      simp only [behindDigits, List.append_assoc, List.append_cancel_left_eq] at h
      obtain ⟨rfl, hrest⟩ := numeral_cancel (hcounter x) (hcounter y) h
      exact ⟨(List.cons.inj hrest).2, .inl ⟨rfl, rfl⟩⟩
    | _ => simp [behindDigits] at h
  | atLeast m =>
    cases t with
    | atLeast n =>
      simp only [behindDigits, List.append_assoc, List.append_cancel_left_eq] at h
      obtain ⟨rfl, hrest⟩ := numeral_cancel (hcounter x) (hcounter y) h
      exact ⟨(List.cons.inj hrest).2, .inl ⟨rfl, rfl⟩⟩
    | _ => simp [behindDigits] at h
  | range m b =>
    cases t with
    | range n c =>
      simp only [behindDigits, List.append_assoc, List.cons_append, List.cons.injEq, true_and]
        at h
      obtain ⟨rfl, hrest⟩ := bound_cancel (hcounter x) (hcounter y) h
      exact ⟨(List.cons.inj hrest).2, .inr ⟨m, n, .range m n b⟩⟩
    | _ => simp [behindDigits] at h

end Stems

/-- The characters of a list of names in plain ASCII. -/
def isAsciiListChar (c : Char) : Bool := isAsciiNameChar c || c = '/'

lemma isAsciiNameChar_of_isDigit {c : Char} (h : c.isDigit) : isAsciiNameChar c := by
  have hsmall : c.toNat < 128 := Nat.lt_of_le_of_lt (Char.isDigit_iff_toNat.mp h).2 (by decide)
  simp [isAsciiNameChar, Written.Name.isStart, isWordChar_of_isDigit h, hsmall]

lemma isAsciiListChar_of_isAsciiNameChar {c : Char} (h : isAsciiNameChar c) :
    isAsciiListChar c := by
  simp [isAsciiListChar, h]

lemma stops_behindDigits (s : Quantity.Shape) (x : List Char) :
    Stops isAsciiListChar (Stems.behindDigits s ++ x) := by
  cases s <;> simp only [Stems.behindDigits, List.cons_append, stops_cons] <;> decide +kernel

lemma isAsciiListChar_of_mem_firstDigits {s : Quantity.Shape} :
    ∀ c ∈ Stems.firstDigits s, isAsciiListChar c := by
  have hnumeral := Stems.forall_mem_numeral (P := fun c => isAsciiListChar c)
    fun _ hc => isAsciiListChar_of_isAsciiNameChar (isAsciiNameChar_of_isDigit hc)
  cases s with
  | exact n => exact hnumeral n
  | range n m => exact hnumeral n
  | _ => exact List.forall_mem_nil _

/-- Names and the quantity behind them can be told apart but for the first digits of the
quantity. -/
theorem names_quantity_cancel {a b x y : List Char} {s t : Quantity.Shape}
    (ha : ∀ c ∈ a, isAsciiListChar c) (hb : ∀ c ∈ b, isAsciiListChar c)
    (h : a ++ (Stems.firstDigits s ++ (Stems.behindDigits s ++ x)) =
      b ++ (Stems.firstDigits t ++ (Stems.behindDigits t ++ y))) :
    x = y ∧ (a = b ∧ s = t ∨ ∃ m n, Quantity.Shape.Counted m n s t ∧
      a ++ (numeral m).toList = b ++ (numeral n).toList) := by
  have hrun : ∀ {a : List Char} {s}, (∀ c ∈ a, isAsciiListChar c) →
      ∀ c ∈ a ++ Stems.firstDigits s, isAsciiListChar c :=
    fun ha => List.forall_mem_append.mpr ⟨ha, isAsciiListChar_of_mem_firstDigits⟩
  rw [← List.append_assoc, ← List.append_assoc b] at h
  obtain ⟨hfront, hbehind⟩ := run_cancel (hrun ha) (hrun hb) (stops_behindDigits s x)
    (stops_behindDigits t y) h
  obtain ⟨hrest, ⟨rfl, hnone⟩ | ⟨m, n, hcounted⟩⟩ := Stems.behindDigits_cancel hbehind
  · rw [hnone, List.append_nil, List.append_nil] at hfront
    exact ⟨hrest, .inl ⟨hfront, rfl⟩⟩
  · obtain ⟨hs, ht⟩ := Stems.firstDigits_of_counted hcounted
    rw [hs, ht] at hfront
    exact ⟨hrest, .inr ⟨m, n, hcounted, hfront⟩⟩

/-! ## Clauses -/

/-- Names with slashes between them can be told apart. -/
lemma intercalate_slash_inj {xs ys : List (List Char)} (hne : xs ≠ []) (hne' : ys ≠ [])
    (hxs : ∀ x ∈ xs, ∀ c ∈ x, isAsciiNameChar c) (hys : ∀ y ∈ ys, ∀ c ∈ y, isAsciiNameChar c)
    (h : ['/'].intercalate xs = ['/'].intercalate ys) : xs = ys := by
  obtain ⟨x, xs, rfl⟩ := List.exists_cons_of_ne_nil hne
  obtain ⟨y, ys, rfl⟩ := List.exists_cons_of_ne_nil hne'
  have hslash : Stops isAsciiNameChar ['/'] := by decide
  refine (intercalate_cancel (x := []) (y := []) (by simp) hslash (stops_nil _) (by simp)
    (stops_nil _) (by simp) hxs hys ?_).1
  rw [h]

/-- The tokens can be spelt in plain ASCII. -/
def Nameable (tokens : List ShipToken) : Prop :=
  ∀ token ∈ tokens, token.WellFormed ∧ ∀ c ∈ token.text.toList, isAsciiNameChar c

/-- The names of tokens as they are listed. -/
def nameTexts (tokens : List ShipToken) : List (List Char) :=
  tokens.map fun token => token.text.toList

lemma listed_nameTexts {mark phrase : List Char} {ts : List ShipToken} (hne : ts ≠ []) :
    listed mark phrase (nameTexts ts) = mark.intercalate (nameTexts ts) :=
  if_neg (by simpa [nameTexts] using hne)

namespace Nameable

variable {ts us : List ShipToken}

lemma isAsciiNameChar_of_mem (h : Nameable ts) :
    ∀ name ∈ nameTexts ts, ∀ c ∈ name, isAsciiNameChar c := by
  intro name hname
  obtain ⟨token, htoken, rfl⟩ := List.mem_map.mp hname
  exact (h token htoken).2

lemma isAsciiListChar_of_mem (h : Nameable ts) :
    ∀ c ∈ ['/'].intercalate (nameTexts ts), isAsciiListChar c := by
  refine forall_mem_intercalate (forall_mem_of_all (by decide)) fun name hname c hc => ?_
  exact isAsciiListChar_of_isAsciiNameChar (h.isAsciiNameChar_of_mem name hname c hc)

/-- A list of names starts with a character of a name. -/
lemma exists_cons (h : Nameable ts) (hne : ts ≠ []) :
    ∃ c cs, ['/'].intercalate (nameTexts ts) = c :: cs ∧ isAsciiNameChar c := by
  obtain ⟨t, ts, rfl⟩ := List.exists_cons_of_ne_nil hne
  obtain ⟨hwellFormed, hascii⟩ := h t List.mem_cons_self
  obtain ⟨c, cs, hc, -⟩ := (Written.Name.ofToken t hwellFormed).exists_cons
  rw [Written.Name.text_ofToken] at hc
  rw [nameTexts, List.map_cons, Segment.Reader.intercalate_eq_flatMap, hc, List.cons_append]
  exact ⟨c, _, rfl, hascii c (by simp [hc])⟩

/-- Names with a numeral behind the last one can be told apart but for the place where the
numeral begins. -/
lemma exists_last_of_append_numeral (hts : Nameable ts) (hus : Nameable us) (hne : ts ≠ [])
    (hne' : us ≠ []) {m n : UInt32}
    (h : ['/'].intercalate (nameTexts ts) ++ (numeral m).toList =
      ['/'].intercalate (nameTexts us) ++ (numeral n).toList) :
    ∃ ships s t, ts = ships ++ [s] ∧ us = ships ++ [t] ∧
      s.text ++ numeral m = t.text ++ numeral n := by
  obtain ⟨front, s, rfl⟩ := (List.eq_nil_or_concat' ts).resolve_left hne
  obtain ⟨front', t, rfl⟩ := (List.eq_nil_or_concat' us).resolve_left hne'
  have hdigit : ∀ n, ∀ c ∈ (numeral n).toList, isAsciiNameChar c :=
    Stems.forall_mem_numeral fun c => isAsciiNameChar_of_isDigit
  have hnames : ∀ {ts : List ShipToken} {s n}, Nameable (ts ++ [s]) →
      ∀ name ∈ nameTexts ts ++ [s.text.toList ++ (numeral n).toList], ∀ c ∈ name,
        isAsciiNameChar c := by
    intro ts s n hts
    obtain ⟨hfront, hlast⟩ := List.forall_mem_append.mp hts
    refine List.forall_mem_append.mpr ⟨isAsciiNameChar_of_mem hfront, ?_⟩
    exact List.forall_mem_singleton.mpr
      (List.forall_mem_append.mpr ⟨(hlast s (by simp)).2, hdigit n⟩)
  rw [nameTexts, nameTexts, List.map_append, List.map_append, List.map_singleton,
    List.map_singleton, intercalate_concat_append, intercalate_concat_append] at h
  have hlists := intercalate_slash_inj (by simp) (by simp) (hnames hts) (hnames hus) h
  obtain ⟨hfront, hlast⟩ := List.append_inj' hlists rfl
  refine ⟨front, s, t, rfl, ?_, ?_⟩
  · rw [ShipToken.eq_of_map_text_eq (fun a ha => (hts a (by simp [ha])).1)
      (fun a ha => (hus a (by simp [ha])).1)
      hfront]
  · rw [← String.toList_inj, String.toList_append, String.toList_append]
    exact List.singleton_inj.mp hlast

end Nameable

lemma Quantity.Shape.Counted.eq_of_same {s t : Quantity.Shape} {n : UInt32}
    (h : Counted n n s t) : s = t := by
  cases h <;> rfl

/-- The names, or the phrase for any ship, and the quantity behind them can be told apart
but for the place where the number of ships begins. -/
theorem listed_quantity_cancel {ts us : List ShipToken} (hts : Nameable ts) (hus : Nameable us)
    {s t : Quantity.Shape} {x y : List Char}
    (h : listed ['/'] "任意の艦".toList (nameTexts ts) ++
        (Stems.firstDigits s ++ (Stems.behindDigits s ++ x)) =
      listed ['/'] "任意の艦".toList (nameTexts us) ++
        (Stems.firstDigits t ++ (Stems.behindDigits t ++ y))) :
    x = y ∧ (ts = us ∧ s = t ∨ ∃ ships a b m n, ts = ships ++ [a] ∧ us = ships ++ [b] ∧
      a.text ++ numeral m = b.text ++ numeral n ∧ Quantity.Shape.Counted m n s t) := by
  have hnil : listed ['/'] "任意の艦".toList (nameTexts []) = ['任', '意', 'の', '艦'] := by decide
  -- the phrase for any ship starts with a character that no name has
  have hapart : ∀ {ts}, Nameable ts → ts ≠ [] → ∀ x y : List Char,
      ['任', '意', 'の', '艦'] ++ x ≠ ['/'].intercalate (nameTexts ts) ++ y := by
    intro ts hts hne x y heq
    obtain ⟨c, cs, hcs, hc⟩ := hts.exists_cons hne
    rw [hcs] at heq
    obtain ⟨rfl, -⟩ := List.cons.inj heq
    exact absurd hc (by decide +kernel)
  by_cases hne : ts = []
  · by_cases hne' : us = []
    · subst hne hne'
      obtain ⟨hrest, ⟨-, hshape⟩ | ⟨m, n, hcounted, hsame⟩⟩ :=
        names_quantity_cancel (List.forall_mem_nil _) (List.forall_mem_nil _)
          (List.append_cancel_left h)
      · exact ⟨hrest, .inl ⟨rfl, hshape⟩⟩
      · obtain rfl := toList_numeral_inj.mp hsame
        exact ⟨hrest, .inl ⟨rfl, hcounted.eq_of_same⟩⟩
    · rw [hne, hnil, listed_nameTexts hne'] at h
      exact absurd h (hapart hus hne' _ _)
  · by_cases hne' : us = []
    · rw [hne', hnil, listed_nameTexts hne] at h
      exact absurd h.symm (hapart hts hne _ _)
    · rw [listed_nameTexts hne, listed_nameTexts hne'] at h
      obtain ⟨hrest, ⟨hsame, hshape⟩ | ⟨m, n, hcounted, hsame⟩⟩ :=
        names_quantity_cancel hts.isAsciiListChar_of_mem hus.isAsciiListChar_of_mem h
      · have htexts := intercalate_slash_inj (by simpa [nameTexts] using hne)
          (by simpa [nameTexts] using hne') hts.isAsciiNameChar_of_mem hus.isAsciiNameChar_of_mem
          hsame
        exact ⟨hrest, .inl ⟨ShipToken.eq_of_map_text_eq (fun a ha => (hts a ha).1)
          (fun a ha => (hus a ha).1) htexts, hshape⟩⟩
      · obtain ⟨ships, a, b, ha, hb, htext⟩ :=
          hts.exists_last_of_append_numeral hus hne hne' hsame
        exact ⟨hrest, .inr ⟨ships, a, b, m, n, ha, hb, htext, hcounted⟩⟩

namespace Requirement

variable {r s : Requirement}

lemma toList_clause_japanese (r : Requirement) :
    (r.clause .verbatim .japanese).toList =
      listed ['/'] "任意の艦".toList (nameTexts r.provision.ships) ++
        (Stems.firstDigits r.quantity.shape ++ (Stems.behindDigits r.quantity.shape ++
          ((r.suffix .japanese).toList ++
            ((Lexicon.ofLanguage .japanese).verb r.negated).toList))) := by
  have horder : (Lexicon.ofLanguage .japanese).order = .verbLast := rfl
  have htext := r.toList_clause .verbatim .japanese
  simp only [horder, Stems.japanese_quantity, toList_shipsPhrase, ← ships_provision,
    List.append_assoc] at htext
  exact htext

/-- The suffix of a clause ends where the verb begins. -/
lemma endsSuffix_verb (negated : Bool) :
    EndsSuffix .japanese ((Lexicon.ofLanguage .japanese).verb negated).toList := by
  cases negated <;> constructor <;> decide

lemma nameable (h : r.Spelt isAsciiNameChar) : Nameable r.provision.ships :=
  fun token htoken => h token (List.mem_filter.mp htoken).1

theorem readsAlike_of_clause_eq (hr : r.Spelt isAsciiNameChar) (hs : s.Spelt isAsciiNameChar)
    (h : r.clause .verbatim .japanese = s.clause .verbatim .japanese) :
    r.provision.ReadsAlike s.provision := by
  have htext := congrArg String.toList h
  rw [toList_clause_japanese, toList_clause_japanese] at htext
  obtain ⟨hbehind, hships⟩ := listed_quantity_cancel (nameable hr) (nameable hs) htext
  obtain ⟨hflagship, hlevel, hverbs⟩ :=
    suffix_cancel (by decide) (endsSuffix_verb r.negated) (endsSuffix_verb s.negated) hbehind
  have hverb := congrArg (· ++ []) hverbs
  refine ⟨(verb_cancel (by decide) hverb).1, hflagship, hlevel, ?_⟩
  rcases hships with ⟨hsame, hshape⟩ | ⟨ships, t, u, m, n, ht, hu, htext, hcounted⟩
  · refine .inl ⟨hsame, ?_⟩
    show r.quantity = s.quantity
    rw [← r.quantity.ofShape_shape, hshape, Quantity.ofShape_shape]
  · exact .inr ⟨ships, t, u, m, n, ht, hu, htext, hcounted⟩

theorem clause_eq_of_readsAlike (h : r.provision.ReadsAlike s.provision) :
    r.clause .verbatim .japanese = s.clause .verbatim .japanese := by
  obtain ⟨hnegated, hflagship, hlevel, ⟨hships, hquantity⟩ | ⟨ships, t, u, m, n, ht, hu, htext,
    hcounted⟩⟩ := h
  · exact clause_eq_of_provision_eq
      ((Provision.mk.injEq ..).mpr ⟨hnegated, hquantity, hships, hflagship, hlevel⟩) .verbatim _
  · have hsuffix : r.suffix .japanese = s.suffix .japanese := by
      unfold suffix
      rw [show r.isFlagship = s.isFlagship from hflagship, show r.level = s.level from hlevel]
    obtain ⟨hfirst, hfirst'⟩ := Stems.firstDigits_of_counted hcounted
    have hlast := congrArg String.toList htext
    rw [String.toList_append, String.toList_append] at hlast
    have hnames : ['/'].intercalate (nameTexts (ships ++ [t])) ++ (numeral m).toList =
        ['/'].intercalate (nameTexts (ships ++ [u])) ++ (numeral n).toList := by
      simp only [nameTexts, List.map_append, List.map_singleton, intercalate_concat_append, hlast]
    rw [← String.toList_inj, toList_clause_japanese, toList_clause_japanese, hsuffix,
      show r.negated = s.negated from hnegated,
      show Stems.firstDigits r.quantity.shape = _ from hfirst,
      show Stems.firstDigits s.quantity.shape = _ from hfirst',
      show Stems.behindDigits r.quantity.shape = Stems.behindDigits s.quantity.shape from
        Stems.behindDigits_of_counted hcounted,
      ← List.append_assoc, ← List.append_assoc (listed _ _ _), ht, hu,
      listed_nameTexts (by simp), listed_nameTexts (by simp), hnames]

/-- Clauses in Japanese are alike just if the requirements read alike. -/
theorem clause_japanese_eq_iff (hr : r.Spelt isAsciiNameChar) (hs : s.Spelt isAsciiNameChar) :
    r.clause .verbatim .japanese = s.clause .verbatim .japanese ↔
      r.provision.ReadsAlike s.provision :=
  ⟨readsAlike_of_clause_eq hr hs, clause_eq_of_readsAlike⟩

end Requirement

/-! ## Sentences -/

lemma forall₂_congr_of_mem {α β : Type} {R S : α → β → Prop} {xs : List α} {ys : List β}
    (h : ∀ x ∈ xs, ∀ y ∈ ys, R x y ↔ S x y) : List.Forall₂ R xs ys ↔ List.Forall₂ S xs ys := by
  rw [List.forall₂_iff_zip, List.forall₂_iff_zip]
  refine and_congr_right fun _ => ⟨fun hR x y hxy => ?_, fun hS x y hxy => ?_⟩
  · obtain ⟨hx, hy⟩ := List.of_mem_zip hxy
    exact (h x hx y hy).mp (hR hxy)
  · obtain ⟨hx, hy⟩ := List.of_mem_zip hxy
    exact (h x hx y hy).mpr (hS hxy)

/-- Sentences in Japanese are alike just if other ships are welcome in both or in neither
and the visible requirements read alike one by one. -/
theorem sentence_japanese_eq_iff {rs ss : List Requirement}
    (hrs : ∀ r ∈ rs, r.WellFormed ∧ r.Spelt isAsciiNameChar)
    (hss : ∀ s ∈ ss, s.WellFormed ∧ s.Spelt isAsciiNameChar) :
    sentence .verbatim .japanese rs = sentence .verbatim .japanese ss ↔
      (meaning rs).welcoming = (meaning ss).welcoming ∧
        List.Forall₂ Provision.ReadsAlike (meaning rs).provisions (meaning ss).provisions := by
  rw [sentence_eq_iff (fun r hr => (hrs r hr).1) (fun s hs => (hss s hs).1)
    Naming.commaFree_verbatim, ← welcoming_meaning, ← welcoming_meaning, provisions_meaning,
    provisions_meaning]
  refine and_congr_right fun _ => ?_
  rw [List.forall₂_map_left_iff, List.forall₂_map_right_iff, statedClauses, statedClauses,
    ← List.forall₂_eq_eq_eq, List.forall₂_map_left_iff, List.forall₂_map_right_iff]
  exact forall₂_congr_of_mem fun r hr s hs => Requirement.clause_japanese_eq_iff
    (hrs r (List.mem_filter.mp hr).1).2 (hss s (List.mem_filter.mp hs).1).2

namespace Describer

/-- In plain ASCII two texts get the same answer in Japanese just if other ships are
welcome in both or in neither and the visible requirements are the same one by one, but
for digits that may belong to the last name or to the number of ships behind it. -/
theorem describeInTag_japanese_agrees_iff (settings : Settings) {text other : String}
    {rs ss : List Requirement} (hrs : requirements text = .ok rs)
    (hss : requirements other = .ok ss)
    (hascii : ∀ r ∈ rs ++ ss, ∀ token ∈ r.tokens, token.HasAsciiCode) :
    let answer := fun text => ((ofSettings settings .verbatim).describeInTag text "ja").1
    ∃ said otherSaid, answer text = .ok said ∧ answer other = .ok otherSaid ∧
      (said = otherSaid ↔ (meaning rs).welcoming = (meaning ss).welcoming ∧
        List.Forall₂ Provision.ReadsAlike (meaning rs).provisions (meaning ss).provisions) := by
  intro answer
  have hwellFormed : ∀ r ∈ rs ++ ss, r.WellFormed :=
    List.forall_mem_append.mpr ⟨wellFormed_of_states (requirements_eq_ok_iff.mp hrs),
      wellFormed_of_states (requirements_eq_ok_iff.mp hss)⟩
  have hspelt : ∀ r ∈ rs ++ ss, r.WellFormed ∧ r.Spelt isAsciiNameChar :=
    fun r hr => ⟨hwellFormed r hr, (hwellFormed r hr).spelt_ascii (hascii r hr)⟩
  obtain ⟨hspeltRs, hspeltSs⟩ := List.forall_mem_append.mp hspelt
  exact ⟨_, _, describeInTag_of_requirements hrs (by decide) settings .verbatim,
    describeInTag_of_requirements hss (by decide) settings .verbatim,
    sentence_japanese_eq_iff hspeltRs hspeltSs⟩

/-- A digit at the end of a code may be the first one of the number of ships, but not where
the quantity starts with a word. -/
theorem describeInTag_japanese_agrees_iff_digits :
    let answer := fun text => ((ofSettings .standard .verbatim).describeInTag text "ja").1
    answer "CL|DD1\x7b2,500\x7d[0]-ANY*" = answer "CL|DD\x7b12,500\x7d[0]-*" ∧
      answer "DD1\x7b2,\x7d" ≠ answer "DD\x7b12,\x7d" := by
  intro answer
  have hshort : requirements "CL|DD\x7b12,500\x7d[0]-*" =
      .ok [⟨[.code "CL", .code "DD"], .between 12 500, .ofList [0], 0, false⟩,
        ⟨[.wildcard], .unbounded, .empty, 0, false⟩] := by
    decide +kernel
  have hlong : requirements "CL|DD1\x7b2,500\x7d[0]-ANY*" =
      .ok [⟨[.code "CL", .code "DD1"], .between 2 500, .ofList [0], 0, false⟩,
        ⟨[.wildcard], .one, .empty, 0, false⟩] := by
    decide +kernel
  have hfew : requirements "DD1\x7b2,\x7d" =
      .ok [⟨[.code "DD1"], .atLeast 2, .empty, 0, false⟩] := by
    decide +kernel
  have hmany : requirements "DD\x7b12,\x7d" =
      .ok [⟨[.code "DD"], .atLeast 12, .empty, 0, false⟩] := by
    decide +kernel
  constructor
  · obtain ⟨said, otherSaid, hsaid, hother, hagrees⟩ :=
      describeInTag_japanese_agrees_iff .standard hlong hshort (by decide)
    have hreads : Provision.ReadsAlike
        ⟨false, .between 2 500, [.code "CL", .code "DD1"], true, 0⟩
        ⟨false, .between 12 500, [.code "CL", .code "DD"], true, 0⟩ :=
      ⟨rfl, rfl, rfl, .inr ⟨[.code "CL"], .code "DD1", .code "DD", 2, 12, rfl, rfl, by decide,
        .range 2 12 (some 500)⟩⟩
    rw [show answer _ = _ from hsaid, show answer _ = _ from hother,
      hagrees.mpr ⟨by decide, .cons hreads .nil⟩]
  · obtain ⟨said, otherSaid, hsaid, hother, hagrees⟩ :=
      describeInTag_japanese_agrees_iff .standard hfew hmany (by decide)
    rw [show answer _ = _ from hsaid, show answer _ = _ from hother]
    intro hsame
    obtain ⟨-, hreads⟩ := hagrees.mp (Except.ok.inj hsame)
    obtain ⟨hfirst, -⟩ := List.forall₂_cons.mp hreads
    rcases hfirst.ships with ⟨hships, -⟩ | ⟨_, _, _, _, _, _, _, _, hcounted⟩
    · exact absurd hships (by decide)
    · cases hcounted

/-- A class with a long number and few ships is worded like one with a short number and
many ships. -/
theorem describeInTag_japanese_ambiguous :
    let answer := fun text => ((ofSettings .standard .verbatim).describeInTag text "ja").1
    let rs : List Requirement := [⟨[.shipClass 3], .exactly 45, .empty, 0, false⟩]
    let ss : List Requirement := [⟨[.shipClass 34], .exactly 5, .empty, 0, false⟩]
    requirements "@3\x7b45\x7d" = .ok rs ∧ requirements "@34\x7b5\x7d" = .ok ss ∧
      (∀ r ∈ rs ++ ss, ∀ token ∈ r.tokens, token.HasAsciiCode) ∧
      answer "@3\x7b45\x7d" = .ok "@345隻必要、他の艦種は不可" ∧
      answer "@34\x7b5\x7d" = .ok "@345隻必要、他の艦種は不可" ∧ meaning rs ≠ meaning ss := by
  intro answer rs ss
  have hrs : requirements "@3\x7b45\x7d" = .ok rs := by decide +kernel
  have hss : requirements "@34\x7b5\x7d" = .ok ss := by decide +kernel
  have hanswer : ∀ {text rs}, requirements text = .ok rs →
      answer text = .ok (sentence .verbatim .japanese rs) :=
    fun h => describeInTag_of_requirements h (by decide) .standard .verbatim
  refine ⟨hrs, hss, by decide, ?_, ?_, by decide⟩
  · rw [hanswer hrs]
    decide +kernel
  · rw [hanswer hss]
    decide +kernel

end Describer

end FleetComposition
