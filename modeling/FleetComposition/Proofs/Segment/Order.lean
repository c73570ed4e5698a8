import FleetComposition.Proofs.Segment.Demand
import FleetComposition.Proofs.Text.Pieces

/-!
# Fields in any order

What is asked of the ships besides their types may be written in any order behind the
types, and demands the same. Only a level that comes first behind a word is not read, for
the word takes in the letters of its mark.
-/
namespace FleetComposition

open Text

namespace Written

/-! ## Conditions and their spellings -/

inductive Bounds where
  | exactly (n : Numeral)
  | atLeast (n : Numeral)
  | between (n m : Numeral)
  deriving DecidableEq

namespace Bounds

def field : Bounds → Field
  | exactly n => .exactly n
  | atLeast n => .atLeast n
  | between n m => .between n m

def quantity : Bounds → Quantity
  | exactly n => .exactly n.value
  | atLeast n => .atLeast n.value
  | between n m => .between n.value m.value

end Bounds

/-- A field behind the types. -/
inductive Part where
  | bounds (b : Bounds)
  | slots (ns : List Numeral)
  | level (n : Numeral)
  | star
  deriving DecidableEq

namespace Part

def text : Part → List Char
  | bounds b => b.field.text
  | slots ns => '[' :: [','].intercalate (ns.map Numeral.digits) ++ [']']
  | level n => levelText n
  | star => ['*']

def Fits : Part → Prop
  | bounds b => b.field.Fits
  | slots ns => ∀ n ∈ ns, n.Fits
  | level n => n.Fits
  | star => True

instance : (p : Part) → Decidable p.Fits
  | bounds b => inferInstanceAs (Decidable b.field.Fits)
  | slots ns => inferInstanceAs (Decidable (∀ n ∈ ns, n.Fits))
  | level n => inferInstanceAs (Decidable n.Fits)
  | star => .isTrue trivial

/-- The field without its spelling. Brackets with nothing in them are none. -/
def field? : Part → Option FleetComposition.Field
  | bounds b => some (.quantity b.quantity)
  | slots [] => none
  | slots (n :: ns) => some (.slots ((n :: ns).map fun i => .slot i.value))
  | level n => some (.level n.value)
  | star => some .star

/-- Apart from empty brackets a part is a field of the grammar. -/
lemma exists_field (p : Part) : p = slots [] ∨ ∃ (f : Field) (g : FleetComposition.Field),
    f.text = p.text ∧ f.field? = some g ∧ p.field? = some g ∧ (p.Fits → f.Fits) := by
  cases p with
  | bounds b => exact .inr ⟨b.field, .quantity b.quantity, rfl, by cases b <;> rfl, rfl, id⟩
  | slots ns =>
    cases ns with
    | nil => exact .inl rfl
    | cons n ns =>
      refine .inr ⟨.slots (.slot n) (ns.map .slot), _, ?_, ?_, rfl, ?_⟩
      · simp [text, Field.text, Function.comp_def, Item.text]
      · simp [Field.field?, Item.item]
      · simp [Fits, Field.Fits, Field.numerals, Item.numeral]
  | level n => exact .inr ⟨.level n, .level n.value, rfl, rfl, rfl, Field.fits_level.mpr⟩
  | star => exact .inr ⟨.star, .star, rfl, rfl, rfl, fun _ => by decide⟩

lemma exists_cons (p : Part) : ∃ c cs, p.text = c :: cs ∧ c ∈ ['{', '[', 'l', '*'] := by
  cases p with
  | bounds b => cases b <;> exact ⟨'{', _, rfl, by decide⟩
  | slots ns => exact ⟨'[', _, rfl, by decide⟩
  | level n => exact ⟨'l', _, rfl, by decide⟩
  | star => exact ⟨'*', _, rfl, by decide⟩

lemma isSolid (p : Part) : ∀ c ∈ p.text, isSolid c := by
  rcases p.exists_field with rfl | ⟨f, g, htext, hfield, -, -⟩
  · exact List.all_eq_true.mp (by decide)
  · rw [← htext]
    exact Field.isSolid (by simp [hfield])

end Part

/-- What is asked of ships besides their types: at most one quantity, one list of slots
and one level, and whether all other ships are welcome. -/
structure Conditions where
  bounds : Option Bounds
  slots : Option (List Numeral)
  level : Option Numeral
  others : Bool
  deriving DecidableEq

namespace Conditions

/-- The fields that state the conditions, in one of their orders. -/
def parts (c : Conditions) : List Part :=
  c.bounds.toList.map .bounds ++ (c.slots.toList.map .slots ++
    (c.level.toList.map .level ++ if c.others then [.star] else []))

/-- What ships of the given types, or some others, have to meet. -/
def requirement (c : Conditions) (names : List Name) : Requirement where
  tokens :=
    let listed := (names.map Name.token).eraseDups
    if c.others ∧ .wildcard ∉ listed then listed ++ [.wildcard] else listed
  quantity := (c.bounds.map Bounds.quantity).getD .one
  slots := .ofList ((c.slots.getD []).map Numeral.value)
  level := (c.level.map Numeral.value).getD 0
  negated := false

end Conditions

/-- The word that has taken in the letters of the mark of a level behind it. -/
def Word.withLevel (w : Word) : Word where
  letters := w.letters ++ ['l', 'e', 'v', 'e', 'l']
  nonempty := by simp
  wordChars := List.forall_mem_append.mpr ⟨w.wordChars, List.all_eq_true.mp (by decide)⟩

lemma Word.letters_withLevel_ne (w : Word) : w.withLevel.letters ≠ ['l', 'e', 'v', 'e', 'l'] := by
  intro h
  exact w.nonempty (List.append_left_eq_self.mp h)

/-- The name as a token without parentheses. -/
def Name.bare (name : Name) : Token := ⟨.none, name, .none⟩

lemma Name.text_bare (name : Name) : name.bare.text = name.text := by
  simp [bare, Token.text, Parentheses.none]

/-- The segment of the names with fields. -/
def segmentOf (names : List Name) (gs : List FleetComposition.Field) : Segment :=
  ⟨false, names.map Name.token, gs⟩

/-- The types with bars between them. -/
def namesText (names : List Name) : List Char := ['|'].intercalate (names.map Name.text)

end Written

namespace Segment.Reader

open Written (Name Part namesText segmentOf)

variable {names : List Name} {parts : List Part} {rest : List Char}

/-! ## Reading the parts -/

lemma field_emptyBrackets (rest : List Char) : field ('[' :: ']' :: rest) = .absent := by
  have hlevel : level (']' :: rest) = .absent := level_eq_absent_of_head (by simp)
  have hnumber : number (']' :: rest) = .absent := number_eq_absent (by simp)
  have hitem : slotItem (']' :: rest) = .absent := by
    rw [slotItem, hlevel, hnumber]
    rfl
  have hslots : slotList ('[' :: ']' :: rest) = .absent := by
    rw [slotList, separated, hitem]
    rfl
  rw [field, quantityField_eq_absent (by simp), hslots, level_eq_absent_of_head (by simp),
    star_eq_absent (by simp)]
  rfl

lemma stops_digit_parts (parts : List Part) : Stops Char.isDigit (parts.flatMap Part.text) := by
  cases parts with
  | nil => exact stops_nil _
  | cons p parts =>
    obtain ⟨c, cs, hc, hstart⟩ := p.exists_cons
    have hdigit : ∀ d ∈ ['{', '[', 'l', '*'], d.isDigit = false := forall_mem_of_all (by decide)
    rw [List.flatMap_cons, hc, List.cons_append, stops_cons]
    exact hdigit c hstart

lemma head_skipParentheses_parts (parts : List Part) :
    (skipParentheses (parts.flatMap Part.text)).head? ≠ some '|' := by
  cases parts with
  | nil => exact nofun
  | cons p parts =>
    obtain ⟨c, cs, hc, hstart⟩ := p.exists_cons
    have hpar : ∀ d ∈ ['{', '[', 'l', '*'], isParenthesis d = false := forall_mem_of_all (by decide)
    rw [List.flatMap_cons, hc, List.cons_append, skipParentheses_cons (hpar c hstart)]
    rintro ⟨rfl⟩
    exact absurd hstart (by decide)

/-- Parts are read one by one, and empty brackets are passed over. -/
theorem fields_parts (hparts : ∀ p ∈ parts, p.Fits) :
    fields (parts.flatMap Part.text) = .ok (parts.filterMap Part.field?) := by
  induction parts with
  | nil => rw [List.flatMap_nil, fields, List.filterMap_nil]
  | cons p parts ih =>
    obtain ⟨hp, htail⟩ := List.forall_mem_cons.mp hparts
    rw [List.flatMap_cons]
    rcases p.exists_field with rfl | ⟨f, g, htext, hf, hg, hfits⟩
    · have hskip := fields_of_absent (field_emptyBrackets (parts.flatMap Part.text))
      have hclose : field (']' :: parts.flatMap Part.text) = .absent :=
        field_eq_absent (by decide) _
      rw [List.filterMap_cons_none (by rfl), ← ih htail, ← fields_of_absent hclose, ← hskip]
      rfl
    · have hfound := field_text (hfits hp) (stops_digit_parts parts) hf
      rw [← htext, fields_of_found hfound, ih htail, List.filterMap_cons_some hg]
      rfl

/-- Characters that start no field are passed over. -/
lemma fields_append_of_absent {cs : List Char} (h : ∀ c ∈ cs, c ∉ ['{', '[', 'l', '*'])
    (rest : List Char) : fields (cs ++ rest) = fields rest := by
  induction cs with
  | nil => rfl
  | cons c cs ih =>
    obtain ⟨hc, hcs⟩ := List.forall_mem_cons.mp h
    rw [List.cons_append, fields_of_absent (field_eq_absent hc _), ih hcs]

/-! ## Reading the names -/

/-- The parts end the last name, unless it is a word in front of a level. -/
lemma endsName_parts {name : Name}
    (hapart : ∀ w, name = .word w → ∀ n, parts.head? ≠ some (.level n)) :
    EndsName name (parts.flatMap Part.text) := by
  cases parts with
  | nil => exact endsName_of_stops name (stops_nil _) nofun
  | cons p parts =>
    rw [List.flatMap_cons]
    cases p with
    | bounds b => cases b <;> exact endsName_cons name (by decide) (by decide) _
    | slots ns => exact endsName_cons name (by decide) (by decide) _
    | level n =>
      cases name with
      | word w => exact absurd rfl (hapart w rfl n)
      | shipClass id => exact (stops_cons Char.isDigit 'l' _).mpr (by decide)
      | ship id => exact (stops_cons Char.isDigit 'l' _).mpr (by decide)
    | star => exact endsName_cons name (by decide) (by decide) _

lemma exists_cons_namesText (hne : names ≠ []) (rest : List Char) :
    ∃ c cs, namesText names ++ rest = c :: cs ∧ Name.isStart c := by
  obtain ⟨name, names, rfl⟩ := List.exists_cons_of_ne_nil hne
  obtain ⟨c, cs, hc, hstart⟩ := name.exists_cons
  rw [namesText, List.map_cons, intercalate_eq_flatMap, hc]
  exact ⟨c, _, rfl, hstart⟩

/-- The names and what follows are read if the last name is read in front of it. -/
theorem read_names (hne : names ≠ []) (hnames : ∀ name ∈ names, name.Fits)
    (hlast : ∀ name ∈ names.getLast?,
      closedToken (name.text ++ rest) = .found name.token (skipParentheses rest))
    (hrest : (skipParentheses rest).head? ≠ some '|') {gs : List Field}
    (hfields : fields rest = .ok gs) :
    read (namesText names ++ rest) = .ok (segmentOf names gs) := by
  obtain ⟨c, cs, hc, hstart⟩ := exists_cons_namesText hne rest
  have hskip : skipParentheses (namesText names ++ rest) = namesText names ++ rest := by
    rw [hc, skipParentheses_cons (isParenthesis_of_isStart hstart)]
  have hnegation : negation (namesText names ++ rest) = (false, namesText names ++ rest) := by
    apply negation_eq_false
    rw [hc]
    rintro ⟨rfl⟩
    exact absurd hstart (by decide)
  have hbare : ∀ t ∈ (names.map Name.bare).getLast?,
      token (t.text ++ rest) = .found t.name.token (skipParentheses rest) := by
    intro t ht
    rw [List.getLast?_map] at ht
    obtain ⟨name, hname, rfl⟩ := Option.map_eq_some_iff.mp ht
    obtain ⟨d, ds, hd, hstart⟩ := name.exists_cons
    have hskip : skipParentheses (name.text ++ rest) = name.text ++ rest := by
      rw [hd, List.cons_append, skipParentheses_cons (isParenthesis_of_isStart hstart)]
    rw [name.text_bare, token, hskip]
    exact hlast name hname
  have hseparated : separated token progresses_token '|' (namesText names ++ rest) =
      .found (names.map Name.token) (skipParentheses rest) := by
    have htexts : (names.map Name.bare).map Written.Token.text = names.map Name.text := by
      simp [Name.text_bare]
    have htokens : (names.map Name.bare).map (fun t => t.name.token) = names.map Name.token := by
      simp [Name.bare]
    have hnone : names.map Name.bare ≠ [] := by simpa using hne
    have hread := separated_tokens hnone (by simpa [Name.bare] using hnames) hbare hrest
    rwa [htexts, htokens] at hread
  unfold read
  simp only [hskip, hnegation, tokens, hseparated, fields_skipParentheses, hfields]
  rfl

/-- In front of parts the names are read as they are, unless a word stands in front of a
level. -/
theorem read_names_parts (hne : names ≠ []) (hnames : ∀ name ∈ names, name.Fits)
    (hparts : ∀ p ∈ parts, p.Fits)
    (hapart : ∀ w n, names.getLast? = some (.word w) → parts.head? ≠ some (.level n)) :
    read (namesText names ++ parts.flatMap Part.text) =
      .ok (segmentOf names (parts.filterMap Part.field?)) := by
  refine read_names hne hnames (fun name hname => ?_) ?_ (fields_parts hparts)
  · refine closedToken_text (hnames name (List.mem_of_mem_getLast? hname)) (endsName_parts ?_)
    rintro w rfl n
    exact hapart w n hname
  · exact head_skipParentheses_parts parts

/-- A word other than that of the mark of a level is a token, whatever ends it. -/
lemma closedToken_letters (w : Written.Word) {rest : List Char} (hrest : Stops isWordChar rest)
    (hmark : w.letters ≠ ['l', 'e', 'v', 'e', 'l']) :
    closedToken (w.letters ++ rest) = .found (Name.word w).token (skipParentheses rest) := by
  unfold closedToken
  rw [level_letters w hrest fun h => absurd h hmark, bareToken_letters w hrest]
  rfl

/-- A word in front of a level takes in the letters of its mark, and what is left of the
level is passed over. -/
theorem read_names_level {front : List Name} {w : Written.Word} {n : Written.Numeral}
    (hnames : ∀ name ∈ front ++ [Name.word w], name.Fits) (hparts : ∀ p ∈ parts, p.Fits) :
    read (namesText (front ++ [.word w]) ++ (Part.level n :: parts).flatMap Part.text) =
      .ok (segmentOf (front ++ [.word w.withLevel]) (parts.filterMap Part.field?)) := by
  have htext : namesText (front ++ [.word w]) ++ (Part.level n :: parts).flatMap Part.text =
      namesText (front ++ [.word w.withLevel]) ++
        ('>' :: n.digits ++ parts.flatMap Part.text) := by
    have hlevel : Part.text (.level n) = ['l', 'e', 'v', 'e', 'l'] ++ '>' :: n.digits := rfl
    rw [List.flatMap_cons, hlevel, List.append_assoc, ← List.append_assoc (namesText _), namesText,
      List.map_append, List.map_singleton, intercalate_concat_append]
    simp [namesText, Name.text, Written.Word.withLevel]
  have hlast : ∀ name ∈ (front ++ [Name.word w.withLevel]).getLast?,
      closedToken (name.text ++ ('>' :: n.digits ++ parts.flatMap Part.text)) =
        .found name.token (skipParentheses ('>' :: n.digits ++ parts.flatMap Part.text)) := by
    intro name hname
    rw [List.getLast?_concat] at hname
    obtain rfl := Option.some.inj hname
    exact closedToken_letters w.withLevel (by simp; decide) w.letters_withLevel_ne
  -- what is left of the level starts no field
  have hdigits : ∀ c ∈ '>' :: n.digits, c ∉ ['{', '[', 'l', '*'] := by
    have hnone : ∀ c ∈ ['{', '[', 'l', '*'], c.isDigit = false := forall_mem_of_all (by decide)
    refine List.forall_mem_cons.mpr ⟨by decide, fun c hc hmem => ?_⟩
    have hdigit := n.decimal c hc
    rw [hnone c hmem] at hdigit
    exact absurd hdigit Bool.false_ne_true
  rw [htext]
  refine read_names (by simp) ?_ hlast (by simp [skipParentheses, isParenthesis]) ?_
  · obtain ⟨hfront, -⟩ := List.forall_mem_append.mp hnames
    exact List.forall_mem_append.mpr ⟨hfront, List.forall_mem_singleton.mpr trivial⟩
  · rw [fields_append_of_absent hdigits, fields_parts hparts]

end Segment.Reader

namespace Written

/-! ## Requirements -/

lemma head?_of_perm_toList {α : Type} {xs : List α} {o : Option α} (h : xs.Perm o.toList) :
    xs.head? = o := by
  cases o with
  | none => rw [List.perm_nil.mp h]; rfl
  | some a => rw [List.perm_singleton.mp h]; rfl

namespace Conditions

variable {c : Conditions} {gs : List FleetComposition.Field}

def fields (c : Conditions) : List FleetComposition.Field := c.parts.filterMap Part.field?

/-- Each condition is one field, and so is a list of slots that is not empty. -/
lemma fields_eq (c : Conditions) : c.fields =
    c.bounds.toList.map (fun b => .quantity b.quantity) ++
      ((c.slots.filter (· ≠ [])).toList.map (fun ns => .slots (ns.map fun n => .slot n.value)) ++
        (c.level.toList.map (fun n => .level n.value) ++ if c.others then [.star] else [])) := by
  have hslots : (c.slots.toList.map Part.slots).filterMap Part.field? =
      (c.slots.filter (· ≠ [])).toList.map fun ns => .slots (ns.map fun n => .slot n.value) := by
    rcases c.slots with _ | _ | ⟨n, ns⟩ <;> rfl
  have hstar : (if c.others then [Part.star] else []).filterMap Part.field? =
      if c.others then [.star] else [] := by
    cases c.others <;> rfl
  rw [fields, parts, List.filterMap_append, List.filterMap_append, List.filterMap_append, hslots,
    hstar]
  simp [List.filterMap_map, Function.comp_def, Part.field?]

lemma quantities_fields (c : Conditions) : c.fields.filterMap FleetComposition.Field.quantity? =
    (c.bounds.map Bounds.quantity).toList := by
  rw [fields_eq]
  cases c.others <;>
    simp [List.filterMap_cons, List.filterMap_map, Function.comp_def, Option.toList_map,
      FleetComposition.Field.quantity?]

lemma slots_fields (c : Conditions) : c.fields.filterMap FleetComposition.Field.slots? =
    ((c.slots.filter (· ≠ [])).map (List.map Numeral.value)).toList := by
  rw [fields_eq]
  cases c.others <;>
    simp [List.filterMap_cons, List.filterMap_map, Function.comp_def, Option.toList_map,
      FleetComposition.Field.slots?, SlotItem.slot?]

lemma levels_fields (c : Conditions) :
    c.fields.flatMap FleetComposition.Field.levels = (c.level.map Numeral.value).toList := by
  have hnone : ∀ {α : Type} (xs : List α), xs.flatMap (fun _ => ([] : List UInt32)) = [] :=
    fun xs => List.flatMap_eq_nil_iff.mpr fun _ _ => rfl
  rw [fields_eq]
  cases c.others <;>
    simp [List.flatMap_map, List.filterMap_map, Function.comp_def, Option.toList_map,
      FleetComposition.Field.levels, SlotItem.level?, hnone, ← List.map_eq_flatMap]

lemma star_mem_fields (c : Conditions) : .star ∈ c.fields ↔ c.others := by
  rw [fields_eq]
  cases c.others <;> simp

section Perm

variable {names : List Name} (hne : names ≠ []) (h : gs.Perm c.fields)

include h

lemma starred_of_perm : (segmentOf names gs).starred = c.others := by
  rw [Bool.eq_iff_iff, Segment.starred, List.contains_iff_mem, ← c.star_mem_fields]
  exact h.mem_iff

lemma slots_of_perm : (segmentOf names gs).slots = (c.requirement names).slots := by
  have hperm := h.filterMap FleetComposition.Field.slots?
  rw [slots_fields] at hperm
  have hfind : gs.findSome? FleetComposition.Field.slots? =
      (c.slots.filter (· ≠ [])).map (List.map Numeral.value) := by
    rw [← List.head?_filterMap, head?_of_perm_toList hperm]
  unfold Segment.slots requirement
  rw [show (segmentOf names gs).fields = gs from rfl, hfind]
  rcases c.slots with _ | _ | ⟨n, ns⟩ <;> rfl

lemma level_of_perm : (segmentOf names gs).level = (c.requirement names).level := by
  have hperm := h.flatMap_right FleetComposition.Field.levels
  rw [levels_fields] at hperm
  unfold Segment.level requirement
  rw [show (segmentOf names gs).fields = gs from rfl, head?_of_perm_toList hperm]

include hne

lemma quantity_of_perm : (segmentOf names gs).quantity = (c.requirement names).quantity := by
  have hperm := h.filterMap FleetComposition.Field.quantity?
  rw [quantities_fields] at hperm
  have hfind : gs.findSome? FleetComposition.Field.quantity? =
      c.bounds.map Bounds.quantity := by
    rw [← List.head?_filterMap, head?_of_perm_toList hperm]
  unfold Segment.quantity requirement
  rw [show (segmentOf names gs).fields = gs from rfl, hfind]
  cases c.bounds with
  | some b => rfl
  | none => simp [segmentOf, hne]

lemma allTokens_of_perm : (segmentOf names gs).allTokens = (c.requirement names).tokens := by
  unfold Segment.allTokens requirement
  rw [starred_of_perm h]
  simp [segmentOf, hne]

/-- In whatever order fields state the conditions, they demand the same. -/
theorem requirement_of_perm (hvalid : ∀ b ∈ c.bounds, b.quantity.Valid) :
    (segmentOf names gs).requirement = .ok (c.requirement names) := by
  have hroom : (segmentOf names gs).quantity.Valid := by
    rw [quantity_of_perm hne h, requirement]
    cases hbounds : c.bounds with
    | some b => exact hvalid b hbounds
    | none => exact show Quantity.one.Valid by decide
  rw [Segment.requirement_of_valid hroom, allTokens_of_perm hne h, quantity_of_perm hne h,
    slots_of_perm h, level_of_perm h]
  rfl

end Perm

end Conditions

/-! ## Any order -/

variable {names : List Name} {parts rest : List Part} {c : Conditions} {n : Numeral}

/-- The parts behind a level state the other conditions. -/
lemma perm_parts_of_level (h : (Part.level n :: rest).Perm c.parts) :
    rest.Perm ({ c with level := none } : Conditions).parts := by
  obtain ⟨bounds, slots, level, others⟩ := c
  have hlevel : level = some n := by
    have hmem : Part.level n ∈ Conditions.parts ⟨bounds, slots, level, others⟩ :=
      h.subset List.mem_cons_self
    cases others <;> simpa [Conditions.parts, eq_comm] using hmem
  subst hlevel
  have hmiddle : (Conditions.parts ⟨bounds, slots, some n, others⟩).Perm
      (.level n :: Conditions.parts ⟨bounds, slots, none, others⟩) := by
    simp only [Conditions.parts, Option.toList_some, Option.toList_none, List.map_cons,
      List.map_nil, List.singleton_append, List.nil_append]
    rw [← List.append_assoc, ← List.append_assoc]
    exact List.perm_middle
  exact (List.perm_cons (Part.level n)).mp (h.trans hmiddle)

lemma isSolid_namesText (names : List Name) : ∀ d ∈ namesText names, isSolid d := by
  have hnames : ∀ x ∈ names.map Name.text, ∀ d ∈ x, isSolid d := by
    intro x hx
    obtain ⟨name, -, rfl⟩ := List.mem_map.mp hx
    exact name.isSolid
  exact forall_mem_intercalate (List.forall_mem_singleton.mpr (by decide)) hnames

lemma isSolid_parts (parts : List Part) : ∀ d ∈ parts.flatMap Part.text, isSolid d := by
  intro d hd
  obtain ⟨p, -, hp⟩ := List.mem_flatMap.mp hd
  exact p.isSolid d hp

/-- The types and the fields behind them. -/
def behindTypes (names : List Name) (parts : List Part) : String :=
  String.ofList (namesText names ++ parts.flatMap Part.text)

lemma requirements_behindTypes (hne : names ≠ []) {s : Segment}
    (hread : Segment.read (namesText names ++ parts.flatMap Part.text) = .ok s) :
    requirements (behindTypes names parts) = s.requirement.map fun r => [r] := by
  have hsolid : ∀ d ∈ namesText names ++ parts.flatMap Part.text, isSolid d :=
    List.forall_mem_append.mpr ⟨isSolid_namesText names, isSolid_parts parts⟩
  have htrim : trim (behindTypes names parts).toList =
      namesText names ++ parts.flatMap Part.text := by
    rw [behindTypes, String.toList_ofList]
    exact trim_of_not_blank fun d hd => isBlank_of_isSolid (hsolid d hd)
  apply requirements_eq_of_read
  · rw [behindTypes, String.toList_ofList]
    exact fun h => ne_separator_of_isSolid (hsolid _ h) rfl
  · obtain ⟨d, ds, hd, -⟩ := Segment.Reader.exists_cons_namesText hne (parts.flatMap Part.text)
    rw [htrim, hd]
    simp
  · rw [htrim, hread]

/-- Behind the types all orders of the fields demand the same, but for a level that comes
first behind a word: the word takes in the mark of the level, and no level is read. -/
theorem requirements_in_any_order (hne : names ≠ []) (hnames : ∀ name ∈ names, name.Fits)
    (hfits : ∀ p ∈ c.parts, p.Fits) (hvalid : ∀ b ∈ c.bounds, b.quantity.Valid)
    (horder : parts.Perm c.parts) :
    ((∀ w n, names.getLast? = some (.word w) → parts.head? ≠ some (.level n)) →
      requirements (behindTypes names parts) = .ok [c.requirement names]) ∧
    ∀ front w n rest, names = front ++ [Name.word w] → parts = .level n :: rest →
      requirements (behindTypes names parts) =
        .ok [{ c with level := none }.requirement (front ++ [Name.word w.withLevel])] := by
  have hparts : ∀ p ∈ parts, p.Fits := fun p hp => hfits p (horder.subset hp)
  constructor
  · intro hapart
    have hread := Segment.Reader.read_names_parts hne hnames hparts hapart
    rw [requirements_behindTypes hne hread,
      Conditions.requirement_of_perm hne (horder.filterMap _) hvalid]
    rfl
  · rintro front w n rest rfl rfl
    have hread := Segment.Reader.read_names_level (n := n) hnames (List.forall_mem_cons.mp hparts).2
    have hperm := (perm_parts_of_level horder).filterMap Part.field?
    have hswallowed : front ++ [Name.word w.withLevel] ≠ [] := by simp
    rw [requirements_behindTypes hne hread,
      Conditions.requirement_of_perm hswallowed hperm hvalid]
    rfl

def cruiser : Word := ⟨['C', 'L'], by simp, List.all_eq_true.mp (by decide)⟩

/-- The word behind the bar is the last type. -/
def cruisers : List Name := [.shipClass ⟨['0', '7'], by simp, by simp⟩, .word cruiser]

/-- One condition of each kind. -/
def strict : Conditions where
  bounds := some (.between ⟨['5'], by simp, by simp⟩ ⟨['8'], by simp, by simp⟩)
  slots := some [⟨['3'], by simp, by simp⟩, ⟨['0', '0'], by simp, by simp⟩]
  level := some ⟨['6', '0'], by simp, by simp⟩
  others := true

/-- The level may stand behind the star, but not right behind the word. -/
theorem requirements_in_any_order_strict :
    requirements "@07|CL*level>60[3,00]\x7b5,8\x7d" = .ok
      [⟨[.shipClass 7, .code "CL", .wildcard], .between 5 8, .ofList [0, 3], 60, false⟩] ∧
    requirements "@07|CLlevel>60*\x7b5,8\x7d[3,00]" = .ok
      [⟨[.shipClass 7, .code "CLlevel", .wildcard], .between 5 8, .ofList [0, 3], 0, false⟩] := by
  have hne : cruisers ≠ [] := by decide
  have hnames : ∀ name ∈ cruisers, name.Fits := by decide
  have hfits : ∀ p ∈ strict.parts, p.Fits := by decide
  have hvalid : ∀ b ∈ strict.bounds, b.quantity.Valid := by
    rintro b ⟨rfl⟩
    decide
  constructor
  · have hread := (requirements_in_any_order hne hnames hfits hvalid strict.parts.reverse_perm).1
      fun w n _ => by simp [strict, Conditions.parts]
    rw [show strict.requirement cruisers = ⟨[.shipClass 7, .code "CL", .wildcard],
      .between 5 8, .ofList [0, 3], 60, false⟩ by decide +kernel] at hread
    exact hread
  · have horder : (strict.parts.drop 2 ++ strict.parts.take 2).Perm strict.parts := by decide
    have hread := (requirements_in_any_order hne hnames hfits hvalid horder).2
      (cruisers.take 1) cruiser _ _ rfl rfl
    rw [show Conditions.requirement { strict with level := none } _ =
      ⟨[.shipClass 7, .code "CLlevel", .wildcard], .between 5 8, .ofList [0, 3], 0, false⟩ by
        decide +kernel] at hread
    exact hread

end Written

/-- Two orders of the same fields behind the same type demand different things. -/
theorem requirements_order_matters_behind_word :
    requirements "BB\x7b2\x7dlevel>50" = .ok [⟨[.code "BB"], .exactly 2, .ofList [], 50, false⟩] ∧
      requirements "BBlevel>50\x7b2\x7d" =
        .ok [⟨[.code "BBlevel"], .exactly 2, .ofList [], 0, false⟩] := by
  decide +kernel

end FleetComposition
