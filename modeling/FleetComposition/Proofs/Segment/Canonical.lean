import FleetComposition.Proofs.Segment.Demand

/-!
# Canonical segments

The canonical spelling of a well-formed requirement as a written segment: no
parentheses and no fillers, the quantity right behind the tokens, and one
bracketed list with the slots and the level if there are any.
-/
namespace FleetComposition
namespace Written

open Text

/-- The numeral without leading zeros. -/
def Numeral.ofWord (n : UInt32) : Numeral where
  digits := (numeral n).toList
  nonempty := by
    rw [toList_numeral]
    exact Nat.toDigits_ne_nil
  decimal := fun _ hc => isDigit_of_mem_numeral hc

lemma Numeral.of_word? {n : Numeral} {value : UInt32} (h : word? n.digits = some value) :
    n.Fits ∧ n.value = value := by
  unfold word? at h
  split at h
  next hfits => exact ⟨hfits, Option.some.inj h⟩
  next => cases h

lemma Numeral.word?_ofWord (n : UInt32) : word? (ofWord n).digits = some n := word?_numeral n

lemma Numeral.fits_ofWord (n : UInt32) : (ofWord n).Fits := (of_word? (word?_ofWord n)).1

@[simp] theorem Numeral.value_ofWord (n : UInt32) : (ofWord n).value = n :=
  (of_word? (word?_ofWord n)).2

/-- The word of the wildcard. -/
def Word.keyword : Word where
  letters := ['A', 'N', 'Y']
  nonempty := List.cons_ne_nil _ _
  wordChars := List.all_eq_true.mp (by decide)

def Name.ofToken : (t : ShipToken) → t.WellFormed → Name
  | .code code, h => .word ⟨code.toList, h.1, h.2.1⟩
  | .shipClass id, _ => .shipClass (.ofWord id)
  | .ship id, _ => .ship (.ofWord id)
  | .wildcard, _ => .word .keyword

lemma Name.text_ofToken {t : ShipToken} (h : t.WellFormed) :
    (ofToken t h).text = t.text.toList := by
  cases t with
  | code code => rfl
  | shipClass id => simp [ofToken, text, Numeral.ofWord, ShipToken.text]
  | ship id => simp [ofToken, text, Numeral.ofWord, ShipToken.text]
  | wildcard => rfl

/-- Any character of a name could be its first. -/
lemma Name.isStart_of_mem_text (name : Name) : ∀ c ∈ name.text, isStart c := by
  have hword : ∀ c, isWordChar c → isStart c := fun c hc => by simp [isStart, hc]
  have hdigits : ∀ n : Numeral, ∀ c ∈ n.digits, isStart c :=
    fun n c hc => hword c (isWordChar_of_isDigit (n.decimal c hc))
  cases name with
  | word w => exact fun c hc => hword c (w.wordChars c hc)
  | shipClass id => exact List.forall_mem_cons.mpr ⟨by decide, hdigits id⟩
  | ship id => exact List.forall_mem_cons.mpr ⟨by decide, hdigits id⟩

lemma Name.fits_ofToken {t : ShipToken} (h : t.WellFormed) : (ofToken t h).Fits := by
  cases t with
  | shipClass id => exact Numeral.fits_ofWord id
  | ship id => exact Numeral.fits_ofWord id
  | _ => trivial

lemma Name.token_ofToken {t : ShipToken} (h : t.WellFormed) : (ofToken t h).token = t := by
  cases t with
  | code code =>
    have hkey : code.toList ≠ ['A', 'N', 'Y'] := fun hcode => h.2.2 (String.toList_inj.mp hcode)
    simp [ofToken, token, hkey]
  | shipClass id => simp [ofToken, token]
  | ship id => simp [ofToken, token]
  | wildcard => rfl

def Token.ofToken (t : ShipToken) (h : t.WellFormed) : Token := ⟨.none, .ofToken t h, .none⟩

def Field.ofQuantity (q : Quantity) : Field :=
  match q.max with
  | some m =>
    if m = q.min then exactly (.ofWord q.min) else between (.ofWord q.min) (.ofWord m)
  | none => atLeast (.ofWord q.min)

lemma Field.text_ofQuantity (q : Quantity) : (ofQuantity q).text = q.text.toList := by
  obtain ⟨n, max⟩ := q
  cases max with
  | none => simp [ofQuantity, text, Quantity.text, Numeral.ofWord]
  | some m =>
    by_cases h : m = n
    · simp [ofQuantity, text, Quantity.text, Numeral.ofWord, h]
    · simp [ofQuantity, text, Quantity.text, Numeral.ofWord, h]

lemma Field.fits_ofQuantity (q : Quantity) : (ofQuantity q).Fits := by
  obtain ⟨n, max⟩ := q
  cases max with
  | none => simpa [ofQuantity] using Numeral.fits_ofWord n
  | some m =>
    by_cases h : m = n
    · simpa [ofQuantity, h] using Numeral.fits_ofWord n
    · simpa [ofQuantity, h] using ⟨Numeral.fits_ofWord n, Numeral.fits_ofWord m⟩

lemma Field.field?_ofQuantity (q : Quantity) : (ofQuantity q).field? = some (.quantity q) := by
  obtain ⟨n, max⟩ := q
  cases max with
  | none => simp [ofQuantity, field?, Quantity.atLeast]
  | some m =>
    by_cases h : m = n
    · simp [ofQuantity, field?, Quantity.exactly, h]
    · simp [ofQuantity, field?, Quantity.between, h]

/-- A field that is read as a quantity states neither slots nor a level. -/
lemma Field.of_field?_eq_quantity {f : Field} {q : Quantity} (h : f.field? = some (.quantity q)) :
    f.quantity? = some q ∧ f.slots? = Option.none ∧ f.levels = [] := by
  cases f with
  | exactly n => cases h; exact ⟨rfl, rfl, rfl⟩
  | atLeast n => cases h; exact ⟨rfl, rfl, rfl⟩
  | between n m => cases h; exact ⟨rfl, rfl, rfl⟩
  | _ => cases h

/-- The slots in their order, and the level if there is one. -/
def Item.ofRequirement (r : Requirement) : List Item :=
  r.slots.toList.map (fun s => slot (.ofWord s))
    ++ if r.level = 0 then [] else [level (.ofWord r.level)]

lemma Item.text_ofRequirement (r : Requirement) :
    (ofRequirement r).map text = r.bracketItems.map String.toList := by
  have hlevel : levelText (.ofWord r.level) = ("level>" ++ Text.numeral r.level).toList := by
    rw [String.toList_append]
    rfl
  rw [ofRequirement, Requirement.bracketItems, List.map_append, List.map_append, List.map_map,
    List.map_map]
  congr 1
  split
  · rfl
  · rw [List.map_singleton, List.map_singleton, text, hlevel]

lemma Item.fits_ofRequirement (r : Requirement) : ∀ i ∈ ofRequirement r, i.numeral.Fits := by
  intro i hi
  rcases List.mem_append.mp hi with hi | hi
  · obtain ⟨s, -, rfl⟩ := List.mem_map.mp hi
    exact Numeral.fits_ofWord s
  · split at hi
    · cases hi
    · obtain rfl := List.mem_singleton.mp hi
      exact Numeral.fits_ofWord r.level

lemma Item.slots_ofRequirement (r : Requirement) :
    (ofRequirement r).filterMap slot? = r.slots.toList := by
  have hslots : (r.slots.toList.map fun s => slot (.ofWord s)).filterMap slot? =
      r.slots.toList := by
    simp [List.filterMap_map, Function.comp_def, slot?]
  rw [ofRequirement, List.filterMap_append, hslots]
  split
  · exact List.append_nil _
  · exact List.append_nil _

lemma Item.levels_ofRequirement (r : Requirement) :
    (ofRequirement r).filterMap level? = if r.level = 0 then [] else [r.level] := by
  have hslots : (r.slots.toList.map fun s => slot (.ofWord s)).filterMap level? = [] := by
    simp [List.filterMap_map, Function.comp_def, level?]
  rw [ofRequirement, List.filterMap_append, hslots, List.nil_append]
  split
  · rfl
  · simp [level?]

/-- A bracketed list, unless there is nothing to put into it. -/
def Field.bracket : List Item → List Field
  | [] => []
  | first :: others => [slots first others]

lemma Field.fits_bracket {items : List Item} (hitems : ∀ i ∈ items, i.numeral.Fits) :
    ∀ f ∈ bracket items, f.Fits := by
  cases items with
  | nil => exact List.forall_mem_nil _
  | cons first others =>
    intro f hf n hn
    obtain rfl := List.mem_singleton.mp hf
    obtain ⟨i, hi, rfl⟩ := List.mem_map.mp hn
    exact hitems i hi

lemma Field.slots?_bracket (items : List Item) :
    ((bracket items).filterMap slots?).head?.getD [] = items.filterMap Item.slot? := by
  cases items with
  | nil => rfl
  | cons first others => simp [bracket, slots?]

lemma Field.levels_bracket (items : List Item) :
    (bracket items).flatMap levels = items.filterMap Item.level? := by
  cases items with
  | nil => rfl
  | cons first others => simp [bracket, levels]

lemma Field.text_bracket (items : List Item) :
    (bracket items).flatMap text =
      if items.isEmpty then [] else '[' :: [','].intercalate (items.map Item.text) ++ [']'] := by
  cases items with
  | nil => rfl
  | cons first others => simp [bracket, text]

/-- The canonical spelling of a requirement. -/
def ofRequirement (r : Requirement) (h : r.WellFormed) : Written where
  opening := .none
  negated := r.negated
  tokens := r.tokens.pmap Token.ofToken h.tokens
  fields := .ofQuantity r.quantity :: Field.bracket (Item.ofRequirement r)

lemma map_pmap_ofToken {β : Type} {f : Token → β} {g : ShipToken → β} {ts : List ShipToken}
    (hts : ∀ t ∈ ts, t.WellFormed) (hfg : ∀ t ht, f (.ofToken t ht) = g t) :
    (ts.pmap Token.ofToken hts).map f = ts.map g := by
  rw [List.map_pmap, List.pmap_congr_left ts fun t _ _ ht => hfg t ht, List.pmap_eq_map]
  exact hts

lemma text_pmap_ofToken {ts : List ShipToken} (hts : ∀ t ∈ ts, t.WellFormed) :
    (ts.pmap Token.ofToken hts).map Token.text = (ts.map ShipToken.text).map String.toList := by
  have htext : ∀ t ht, (Token.ofToken t ht).text = t.text.toList := by
    intro t ht
    simpa [Token.text, Token.ofToken, Parentheses.none] using Name.text_ofToken ht
  rw [List.map_map]
  exact map_pmap_ofToken hts htext

lemma token_pmap_ofToken {ts : List ShipToken} (hts : ∀ t ∈ ts, t.WellFormed) :
    (ts.pmap Token.ofToken hts).map (fun t => t.name.token) = ts := by
  have htoken : ∀ t ht, (Token.ofToken t ht).name.token = id t := fun _ ht => Name.token_ofToken ht
  rw [map_pmap_ofToken hts htoken, List.map_id]

variable {r : Requirement} (h : r.WellFormed)

lemma text_fields_ofRequirement : (ofRequirement r h).fields.flatMap Field.text =
    r.quantity.text.toList ++ (if r.bracketItems.isEmpty then ""
      else "[" ++ ",".intercalate r.bracketItems ++ "]").toList := by
  have hempty : (Item.ofRequirement r).isEmpty = r.bracketItems.isEmpty := by
    rw [← List.isEmpty_map, Item.text_ofRequirement, List.isEmpty_map]
  rw [ofRequirement, List.flatMap_cons, Field.text_ofQuantity, Field.text_bracket,
    Item.text_ofRequirement, hempty]
  split
  · rfl
  · simp [String.toList_intercalate]

/-- A text is canonical if its tokens and its fields are. -/
lemma text_of_canonical_parts {w : Written} {r : Requirement} (hopening : w.opening = .none)
    (hnegated : w.negated = r.negated)
    (htokens : w.tokens.map Token.text = (r.tokens.map ShipToken.text).map String.toList)
    (hfields : w.fields.flatMap Field.text = r.quantity.text.toList ++
      (if r.bracketItems.isEmpty then ""
        else "[" ++ ",".intercalate r.bracketItems ++ "]").toList) : w.text = r.text.toList := by
  have hmark : (if r.negated then "!" else "").toList = if r.negated then ['!'] else [] := by
    split <;> rfl
  rw [text, hopening, hnegated, htokens, hfields, Requirement.text, String.toList_append,
    String.toList_append, String.toList_append, String.toList_intercalate, hmark,
    List.append_assoc _ r.quantity.text.toList]
  rfl

theorem text_ofRequirement : (ofRequirement r h).text = r.text.toList :=
  text_of_canonical_parts rfl rfl (text_pmap_ofToken h.tokens) (text_fields_ofRequirement h)

lemma tokens_ofRequirement :
    (ofRequirement r h).tokens.map (fun t => t.name.token) = r.tokens :=
  token_pmap_ofToken h.tokens

lemma eraseDups_of_nodup {ts : List ShipToken} (hts : ts.Nodup) : ts.eraseDups = ts := by
  induction ts with
  | nil => rfl
  | cons t ts ih =>
    obtain ⟨ht, hrest⟩ := List.nodup_cons.mp hts
    have hkeep : (ts.filter fun s => !s == t) = ts := by
      refine List.filter_eq_self.mpr fun s hs => ?_
      have hne : s ≠ t := fun heq => ht (heq ▸ hs)
      simpa using hne
    rw [List.eraseDups_cons, hkeep, ih hrest]

lemma starred_ofRequirement : (ofRequirement r h).starred = false := by
  have hquantity : Field.ofQuantity r.quantity ≠ .star := by
    intro hstar
    have hfield := Field.field?_ofQuantity r.quantity
    rw [hstar] at hfield
    cases hfield
  have hbracket : Field.star ∉ Field.bracket (Item.ofRequirement r) := by
    cases Item.ofRequirement r <;> simp [Field.bracket]
  simp [starred, ofRequirement, hquantity.symm, hbracket]

/-- Reading the canonical spelling by the rules gives the requirement back. -/
theorem demand_ofRequirement : (ofRequirement r h).demand = r := by
  have hnamed : (ofRequirement r h).named = r.tokens := by
    rw [named, tokens_ofRequirement, eraseDups_of_nodup h.distinct]
  have hsome : (ofRequirement r h).tokens ≠ [] := by
    intro hnil
    have htokens := tokens_ofRequirement h
    rw [hnil] at htokens
    exact h.nonempty htokens.symm
  obtain ⟨hfirst, hnoSlots, hnoLevels⟩ :=
    Field.of_field?_eq_quantity (Field.field?_ofQuantity r.quantity)
  have hquantity : ((ofRequirement r h).fields.filterMap Field.quantity?).head? =
      some r.quantity := by
    rw [ofRequirement, List.filterMap_cons_some hfirst]
    rfl
  have hslots : ((ofRequirement r h).fields.filterMap Field.slots?).head?.getD [] =
      r.slots.toList := by
    rw [ofRequirement, List.filterMap_cons_none hnoSlots, Field.slots?_bracket,
      Item.slots_ofRequirement]
  have hlevel : ((ofRequirement r h).fields.flatMap Field.levels).head?.getD 0 = r.level := by
    rw [ofRequirement, List.flatMap_cons, hnoLevels, List.nil_append, Field.levels_bracket,
      Item.levels_ofRequirement]
    by_cases hzero : r.level = 0
    · simp [hzero]
    · simp [hzero]
  unfold demand
  rw [hnamed, starred_ofRequirement, hquantity, hslots, hlevel, if_neg (by simp [hsome]),
    SlotSet.ofList_toList]
  rfl

theorem fits_ofRequirement : (ofRequirement r h).Fits := by
  constructor
  · intro t ht
    obtain ⟨s, hs, rfl⟩ := List.mem_pmap.mp ht
    exact Name.fits_ofToken _
  · exact List.forall_mem_cons.mpr ⟨Field.fits_ofQuantity r.quantity,
      Field.fits_bracket (Item.fits_ofRequirement r)⟩

/-- A quantity in front of the other fields keeps a level apart from the tokens. -/
lemma levelApart_of_quantity {w : Written} {q : Quantity} {fs : List Field}
    (hfields : w.fields = .ofQuantity q :: fs) : w.LevelApart := by
  intro t n _ _ hlevel
  have hfield := Field.field?_ofQuantity q
  rw [hfields, List.head?_cons, Option.some.injEq] at hlevel
  rw [hlevel] at hfield
  cases hfield

theorem levelApart_ofRequirement : (ofRequirement r h).LevelApart := levelApart_of_quantity rfl

/-- Nothing is passed over in the canonical spelling. -/
lemma field?_ofRequirement : ∀ f ∈ (ofRequirement r h).fields, f.field? ≠ none := by
  have hquantity : (Field.ofQuantity r.quantity).field? ≠ none := by
    rw [Field.field?_ofQuantity]
    exact Option.some_ne_none _
  have hbracket : ∀ f ∈ Field.bracket (Item.ofRequirement r), f.field? ≠ none := by
    cases Item.ofRequirement r with
    | nil => exact List.forall_mem_nil _
    | cons first others => simp [Field.bracket, Field.field?]
  exact List.forall_mem_cons.mpr ⟨hquantity, hbracket⟩

end Written
end FleetComposition
