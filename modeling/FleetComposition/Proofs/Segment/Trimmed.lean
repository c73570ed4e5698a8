import FleetComposition.Expression
import FleetComposition.Proofs.Segment.Written
import FleetComposition.Proofs.Text.Trimming

/-!
# Blanks around a written segment

Only fillers can be blank, so trimming a written segment drops fillers at its
ends and nothing else. None of its characters is a separator.
-/
namespace FleetComposition
namespace Written

open Text

/-- Neither a blank nor a separator. -/
def isSolid (c : Char) : Bool := !isBlank c && c != separator

lemma isBlank_of_isSolid {c : Char} (h : isSolid c) : isBlank c = false := by
  simp only [isSolid, Bool.and_eq_true, Bool.not_eq_true'] at h
  exact h.1

lemma ne_separator_of_isSolid {c : Char} (h : isSolid c) : c ≠ separator := by
  simp only [isSolid, Bool.and_eq_true, bne_iff_ne] at h
  exact h.2

lemma isSolid_of_isWordChar {c : Char} (h : isWordChar c) : isSolid c := by
  have hblank : isBlank c = false := by
    cases hb : isBlank c with
    | false => rfl
    | true => rw [isWordChar_of_isBlank hb] at h; contradiction
  have hsep : c ≠ separator := by
    rintro rfl
    exact absurd h (by decide)
  simp [isSolid, hblank, hsep]

lemma Numeral.isSolid (n : Numeral) : ∀ c ∈ n.digits, isSolid c :=
  fun c hc => isSolid_of_isWordChar (isWordChar_of_isDigit (n.decimal c hc))

lemma Parentheses.isSolid (marks : Parentheses) : ∀ c ∈ marks.marks, isSolid c := by
  intro c hc
  rcases marks.only c hc with rfl | rfl <;> decide

lemma Name.isSolid (name : Name) : ∀ c ∈ name.text, isSolid c := by
  cases name with
  | word w => exact fun c hc => isSolid_of_isWordChar (w.wordChars c hc)
  | shipClass id => exact List.forall_mem_cons.mpr ⟨by decide, id.isSolid⟩
  | ship id => exact List.forall_mem_cons.mpr ⟨by decide, id.isSolid⟩

lemma Token.isSolid (t : Token) : ∀ c ∈ t.text, isSolid c := by
  rw [Token.text]
  exact List.forall_mem_append.mpr
    ⟨List.forall_mem_append.mpr ⟨t.before.isSolid, t.name.isSolid⟩, t.after.isSolid⟩

lemma isSolid_levelText (n : Numeral) : ∀ c ∈ levelText n, isSolid c :=
  List.forall_mem_append.mpr ⟨List.all_eq_true.mp (by decide), n.isSolid⟩

lemma Item.isSolid (i : Item) : ∀ c ∈ i.text, isSolid c := by
  cases i with
  | slot n => exact n.isSolid
  | level n => exact isSolid_levelText n

/-- All fields but the fillers are solid. -/
lemma Field.isSolid {f : Field} (h : f.field? ≠ none) : ∀ c ∈ f.text, isSolid c := by
  cases f with
  | exactly n =>
    exact List.forall_mem_cons.mpr ⟨by decide, List.forall_mem_append.mpr
      ⟨n.isSolid, List.all_eq_true.mp (by decide)⟩⟩
  | atLeast n =>
    exact List.forall_mem_cons.mpr ⟨by decide, List.forall_mem_append.mpr
      ⟨n.isSolid, List.all_eq_true.mp (by decide)⟩⟩
  | between n m =>
    have hmax : ∀ c ∈ ',' :: m.digits ++ ['}'], Written.isSolid c :=
      List.forall_mem_append.mpr ⟨List.forall_mem_cons.mpr ⟨by decide, m.isSolid⟩,
        List.all_eq_true.mp (by decide)⟩
    rw [show (between n m).text = '{' :: (n.digits ++ (',' :: m.digits ++ ['}'])) by simp [text]]
    exact List.forall_mem_cons.mpr ⟨by decide, List.forall_mem_append.mpr ⟨n.isSolid, hmax⟩⟩
  | slots first others =>
    have hitems : ∀ x ∈ (first :: others).map Item.text, ∀ d ∈ x, Written.isSolid d := by
      intro x hx
      obtain ⟨i, -, rfl⟩ := List.mem_map.mp hx
      exact i.isSolid
    refine List.forall_mem_cons.mpr ⟨by decide, List.forall_mem_append.mpr
      ⟨?_, List.all_eq_true.mp (by decide)⟩⟩
    exact forall_mem_intercalate (List.forall_mem_singleton.mpr (by decide)) hitems
  | level n => exact isSolid_levelText n
  | star => exact List.all_eq_true.mp (by decide)
  | filler c hc => exact absurd rfl h

/-- The field is a filler and blank. -/
def Field.isBlank : Field → Bool
  | filler c _ => Text.isBlank c
  | _ => false

lemma Field.text_of_isBlank {f : Field} (h : f.isBlank) :
    ∃ c, f.text = [c] ∧ Text.isBlank c ∧ f.field? = none := by
  cases f with
  | filler c hc => exact ⟨c, rfl, h, rfl⟩
  | _ => cases h

lemma Field.not_isBlank {f : Field} (h : f.isBlank = false) :
    ∀ c ∈ f.text, Text.isBlank c = false := by
  by_cases hf : f.field? = none
  · cases f with
    | filler c hc => simpa [text, Field.isBlank] using h
    | _ => cases hf
  · exact fun c hc => isBlank_of_isSolid (Field.isSolid hf c hc)

lemma Field.text_ne_nil (f : Field) : f.text ≠ [] := by
  obtain ⟨c, cs, hc, -⟩ := f.exists_cons
  simp [hc]

theorem trimStart_flatMap (fs : List Field) :
    trimStart (fs.flatMap Field.text) = (fs.dropWhile Field.isBlank).flatMap Field.text := by
  induction fs with
  | nil => rfl
  | cons f fs ih =>
    cases hb : f.isBlank with
    | true =>
      obtain ⟨c, hc, hblank, -⟩ := Field.text_of_isBlank hb
      rw [List.dropWhile_cons_of_pos hb, ← ih, List.flatMap_cons, hc]
      exact List.dropWhile_cons_of_pos hblank
    | false =>
      rw [List.dropWhile_cons_of_neg (by simp [hb]), List.flatMap_cons]
      exact trimStart_append f.text_ne_nil (Field.not_isBlank hb) _

theorem trimEnd_append_flatMap {head : List Char} (hhead : ∀ c ∈ head, isBlank c = false)
    (fs : List Field) :
    trimEnd (head ++ fs.flatMap Field.text) =
      head ++ (fs.rdropWhile Field.isBlank).flatMap Field.text := by
  induction fs using List.reverseRecOn with
  | nil =>
    by_cases hne : head = []
    · simp [hne]
    · simpa using trimEnd_append hne hhead []
  | append_singleton fs f ih =>
    rw [List.flatMap_append, List.flatMap_singleton, ← List.append_assoc]
    cases hb : f.isBlank with
    | true =>
      obtain ⟨c, hc, hblank, -⟩ := Field.text_of_isBlank hb
      rw [List.rdropWhile_concat_pos _ _ _ hb, ← ih, hc]
      exact List.rdropWhile_concat_pos _ _ _ hblank
    | false =>
      rw [List.rdropWhile_concat_neg _ _ _ (by simp [hb]),
        trimEnd_append f.text_ne_nil (Field.not_isBlank hb)]
      simp

/-- What stands in front of the fields. -/
def headText (w : Written) : List Char :=
  w.opening.marks ++ (if w.negated then ['!'] else []) ++
    ['|'].intercalate (w.tokens.map Token.text)

lemma isSolid_headText (w : Written) : ∀ c ∈ w.headText, isSolid c := by
  have htokens : ∀ x ∈ w.tokens.map Token.text, ∀ d ∈ x, isSolid d := by
    intro x hx
    obtain ⟨t, -, rfl⟩ := List.mem_map.mp hx
    exact t.isSolid
  have hmark : ∀ c ∈ if w.negated then ['!'] else [], isSolid c := by
    cases w.negated with
    | false => exact List.forall_mem_nil _
    | true => exact List.all_eq_true.mp (by decide)
  exact List.forall_mem_append.mpr ⟨List.forall_mem_append.mpr ⟨w.opening.isSolid, hmark⟩,
    forall_mem_intercalate (List.forall_mem_singleton.mpr (by decide)) htokens⟩

lemma tokens_eq_nil_of_headText {w : Written} (h : w.headText = []) : w.tokens = [] := by
  cases htokens : w.tokens with
  | nil => rfl
  | cons t ts =>
    obtain ⟨c, cs, hc, -⟩ := t.name.exists_cons
    have hmem : c ∈ w.headText := by
      rw [headText, htokens, List.map_cons]
      cases ts <;> simp [Token.text, hc]
    rw [h] at hmem
    cases hmem

/-- The segment without the blanks around it. -/
def trimmed (w : Written) : Written :=
  { w with fields :=
      ((if w.headText = [] then w.fields.dropWhile Field.isBlank else w.fields).rdropWhile
        Field.isBlank) }

theorem text_trimmed (w : Written) : w.trimmed.text = trim w.text := by
  have htext : ∀ fs, ({ w with fields := fs } : Written).text =
      w.headText ++ fs.flatMap Field.text := fun _ => rfl
  have hblank : ∀ c ∈ w.headText, isBlank c = false :=
    fun c hc => isBlank_of_isSolid (w.isSolid_headText c hc)
  rw [trimmed, htext, show w.text = w.headText ++ w.fields.flatMap Field.text from rfl, trim]
  by_cases hhead : w.headText = []
  · rw [if_pos hhead, hhead, List.nil_append, List.nil_append, trimStart_flatMap]
    exact (trimEnd_append_flatMap (List.forall_mem_nil _) _).symm
  · rw [if_neg hhead, trimStart_append hhead hblank]
    exact (trimEnd_append_flatMap hblank _).symm

lemma separator_not_mem_text (w : Written) : separator ∉ w.text := by
  intro h
  rw [show w.text = w.headText ++ w.fields.flatMap Field.text from rfl, List.mem_append,
    List.mem_flatMap] at h
  rcases h with h | ⟨f, -, hf⟩
  · exact ne_separator_of_isSolid (w.isSolid_headText _ h) rfl
  · by_cases hfield : f.field? = none
    · cases f with
      | filler c hc =>
        obtain rfl := List.mem_singleton.mp hf
        exact absurd hc (by decide)
      | _ => cases hfield
    · exact ne_separator_of_isSolid (Field.isSolid hfield _ hf) rfl

lemma filterMap_dropWhile_isBlank (fs : List Field) :
    (fs.dropWhile Field.isBlank).filterMap Field.field? = fs.filterMap Field.field? := by
  induction fs with
  | nil => rfl
  | cons f fs ih =>
    cases hb : f.isBlank with
    | true =>
      obtain ⟨c, -, -, hfield⟩ := Field.text_of_isBlank hb
      rw [List.dropWhile_cons_of_pos hb, ih, List.filterMap_cons_none hfield]
    | false => rw [List.dropWhile_cons_of_neg (by simp [hb])]

lemma filterMap_rdropWhile_isBlank (fs : List Field) :
    (fs.rdropWhile Field.isBlank).filterMap Field.field? = fs.filterMap Field.field? := by
  rw [List.rdropWhile, List.filterMap_reverse, filterMap_dropWhile_isBlank, List.filterMap_reverse,
    List.reverse_reverse]

theorem segment_trimmed (w : Written) : w.trimmed.segment = w.segment := by
  have hfields : w.trimmed.fields.filterMap Field.field? = w.fields.filterMap Field.field? := by
    rw [trimmed, filterMap_rdropWhile_isBlank]
    split
    · exact filterMap_dropWhile_isBlank w.fields
    · rfl
  rw [segment, segment, hfields]
  rfl

lemma trimmed_fields_sublist (w : Written) : w.trimmed.fields.Sublist w.fields := by
  refine (List.rdropWhile_prefix _ _).sublist.trans ?_
  split
  · exact List.dropWhile_sublist _
  · exact List.Sublist.refl _

lemma Fits.trimmed {w : Written} (h : w.Fits) : w.trimmed.Fits :=
  ⟨h.1, fun f hf => h.2 f (w.trimmed_fields_sublist.subset hf)⟩

/-- Behind a token no filler is dropped in front of another field. -/
lemma LevelApart.trimmed {w : Written} (h : w.LevelApart) : w.trimmed.LevelApart := by
  intro t n ht hword hlevel
  by_cases hhead : w.headText = []
  · have hnil := tokens_eq_nil_of_headText hhead
    rw [show w.trimmed.tokens = w.tokens from rfl, hnil] at ht
    cases ht
  · have hprefix : w.trimmed.fields <+: w.fields := by
      rw [Written.trimmed, if_neg hhead]
      exact List.rdropWhile_prefix _ _
    obtain ⟨dropped, hfields⟩ := hprefix
    refine h t n ht hword ?_
    rw [← hfields, List.head?_append, hlevel]
    rfl

end Written
end FleetComposition
