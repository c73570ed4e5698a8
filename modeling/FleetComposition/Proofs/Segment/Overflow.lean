import FleetComposition.Proofs.Expression.Defects
import FleetComposition.Proofs.Segment.Demand
import FleetComposition.Proofs.Segment.Numerals

/-!
# Numbers that are too large

Of all numerals of a written segment that are too large, the leftmost one is reported,
with its place, whatever stands before and behind it. No other text of the notation is
malformed.
-/
namespace FleetComposition

open Text

namespace Segment.Reader

open Written (Piece)
open Written.Piece (plain numeral overflow spell AllFit)

variable {rest bad : List Char} {n : Written.Numeral} {w : Written} {fs : List Written.Field}

/-! ## Numbers and tokens -/

theorem number_overflow (hn : ¬n.Fits) (hrest : Stops Char.isDigit rest) :
    number (n.digits ++ rest) = .fault (.numberOutOfRange (n.digits ++ rest)) := by
  obtain ⟨d, ds, hd⟩ := List.exists_cons_of_ne_nil n.nonempty
  have hword : word? (d :: ds) = none := by
    rw [← hd]
    exact if_neg hn
  unfold number
  rw [takeWhile_run n.decimal hrest, hd]
  simp only [hword]

theorem level_overflow (hn : ¬n.Fits) (hrest : Stops Char.isDigit rest) :
    level (Written.levelText n ++ rest) = .fault (.numberOutOfRange (n.digits ++ rest)) := by
  have hb : behind? levelMark (Written.levelText n ++ rest) = some (n.digits ++ rest) :=
    behind?_eq_some_iff.mpr (List.append_assoc _ _ _)
  unfold level
  rw [hb]
  exact number_overflow hn hrest

theorem reference_overflow (hn : ¬n.Fits) (hrest : Stops Char.isDigit rest) :
    reference (n.digits ++ rest) = .fault (.numberOutOfRange (n.digits ++ rest)) := by
  unfold reference
  rw [number_overflow hn hrest, Reading.fault_orElse]

theorem bareToken_overflow {name : Written.Name} (hrest : EndsName name rest)
    (h : overflow rest name.pieces = some bad) :
    bareToken (name.text ++ rest) = .fault (.numberOutOfRange bad) := by
  cases name with
  | word w => cases h
  | shipClass id =>
    obtain ⟨hid, rfl⟩ := Piece.overflow_singleton.mp h
    show (reference (id.digits ++ rest)).map _ = _
    rw [reference_overflow hid hrest, Reading.map_fault]
  | ship id =>
    obtain ⟨hid, rfl⟩ := Piece.overflow_singleton.mp h
    show (reference (id.digits ++ rest)).map _ = _
    rw [reference_overflow hid hrest, Reading.map_fault]

theorem token_overflow {t : Written.Token} (hrest : EndsToken t rest)
    (h : overflow rest t.pieces = some bad) :
    token (t.text ++ rest) = .fault (.numberOutOfRange bad) := by
  obtain ⟨c, cs, hc, hstart⟩ := t.name.exists_cons
  have hname : overflow (t.after.marks ++ rest) t.name.pieces = some bad := by
    simpa [Written.Token.pieces] using h
  have hskip : skipParentheses (t.name.text ++ (t.after.marks ++ rest)) =
      t.name.text ++ (t.after.marks ++ rest) := by
    rw [hc, List.cons_append, skipParentheses_cons (isParenthesis_of_isStart hstart)]
  unfold token closedToken Written.Token.text
  rw [List.append_assoc, List.append_assoc, skipParentheses_marks, hskip, level_text_name hrest,
    bareToken_overflow hrest hname]
  rfl

/-! ## Repetitions -/

section Repetition

variable {α ι : Type} {item : Reader α} {separator : Char} {text : ι → List Char}
  {pieces : ι → List Piece} {value : ι → α} {settle : List Char → List Char}
  {Ends : ι → List Char → Prop}

lemma spell_opened (hspell : ∀ i, spell (pieces i) = text i) (is : List ι) :
    spell (is.flatMap fun i => plain [separator] :: pieces i) =
      is.flatMap fun i => separator :: text i := by
  simp [hspell]

variable (progress : item.Progresses) (hspell : ∀ i, spell (pieces i) = text i)
  (hitem : ∀ i rest, AllFit (pieces i) → Ends i rest →
    item (text i ++ rest) = .found (value i) (settle rest))
  (hfault : ∀ i rest bad, overflow rest (pieces i) = some bad → Ends i rest →
    item (text i ++ rest) = .fault (.numberOutOfRange bad))
  (hsettle : ∀ cs, settle (separator :: cs) = separator :: cs)

include hspell hitem hfault hsettle

/-- Items behind separators are read one by one up to the first that has an overflow. -/
theorem further_overflow (is : List ι)
    (hseparator : ∀ i ∈ is, ∀ cs, Ends i (separator :: cs)) (hlast : ∀ i ∈ is.getLast?, Ends i rest)
    (h : overflow rest (is.flatMap fun i => plain [separator] :: pieces i) = some bad) :
    further item progress separator (settle (is.flatMap (fun i => separator :: text i) ++ rest)) =
      .error (.numberOutOfRange bad) := by
  induction is with
  | nil => cases h
  | cons i is ih =>
    have hi : Ends i (is.flatMap (fun i => separator :: text i) ++ rest) :=
      ends_flatMap (hseparator i (by simp)) hlast
    rw [List.flatMap_cons, List.cons_append, Piece.overflow_plain,
      Piece.overflow_append_eq_some_iff, spell_opened hspell] at h
    rw [List.flatMap_cons, List.cons_append, List.cons_append, hsettle, List.append_assoc]
    -- the fault is in this item, or the item is read and the fault is behind it
    rcases h with h | ⟨hfits, h⟩
    · exact further_of_fault progress (hfault i _ bad h hi)
    · rw [further_of_found progress (hitem i _ hfits hi),
        ih (fun j hj => hseparator j (by simp [hj])) (forall_getLast?_of_cons hlast) h]
      rfl

theorem separated_overflow {is : List ι}
    (hseparator : ∀ i ∈ is, ∀ cs, Ends i (separator :: cs)) (hlast : ∀ i ∈ is.getLast?, Ends i rest)
    (h : overflow rest (Piece.listed separator (is.map pieces)) = some bad) :
    separated item progress separator ([separator].intercalate (is.map text) ++ rest) =
      .fault (.numberOutOfRange bad) := by
  cases is with
  | nil => cases h
  | cons i is =>
    have hi : Ends i (is.flatMap (fun i => separator :: text i) ++ rest) :=
      ends_flatMap (hseparator i (by simp)) hlast
    rw [List.map_cons, Piece.listed, List.flatMap_map, Piece.overflow_append_eq_some_iff,
      spell_opened hspell] at h
    unfold separated
    rw [List.map_cons, intercalate_eq_flatMap, List.flatMap_map, List.append_assoc]
    rcases h with h | ⟨hfits, h⟩
    · rw [hfault i _ bad h hi]
    · have hothers := further_overflow progress hspell hitem hfault hsettle is
        (fun j hj => hseparator j (by simp [hj])) (forall_getLast?_of_cons hlast) h
      rw [hitem i _ hfits hi]
      simp only [hothers]

end Repetition

/-! ## Fields -/

theorem slotItem_overflow {i : Written.Item} (h : overflow rest i.pieces = some bad)
    (hrest : Stops Char.isDigit rest) :
    slotItem (i.text ++ rest) = .fault (.numberOutOfRange bad) := by
  unfold slotItem
  cases i with
  | slot n =>
    obtain ⟨hn, rfl⟩ := Piece.overflow_singleton.mp h
    rw [Written.Item.text, level_digits, number_overflow hn hrest]
    rfl
  | level n =>
    obtain ⟨hn, rfl⟩ := Piece.overflow_singleton.mp h
    rw [Written.Item.text, level_overflow hn hrest]
    rfl

theorem slotList_overflow {first : Written.Item} {others : List Written.Item}
    (h : overflow rest (Written.Field.slots first others).pieces = some bad) :
    slotList ((Written.Field.slots first others).text ++ rest) =
      .fault (.numberOutOfRange bad) := by
  have hlisted : overflow (']' :: rest)
      (Piece.listed ',' ((first :: others).map Written.Item.pieces)) = some bad := by
    simpa [Written.Field.pieces] using h
  have hread : ∀ (i : Written.Item) cs, AllFit i.pieces → Stops Char.isDigit cs →
      slotItem (i.text ++ cs) = .found i.item (id cs) :=
    fun i cs hi => slotItem_text (Written.Item.allFit_pieces.mp hi)
  have hitems : separated slotItem progresses_slotItem ','
      ([','].intercalate ((first :: others).map Written.Item.text) ++ ']' :: rest) =
      .fault (.numberOutOfRange bad) :=
    separated_overflow progresses_slotItem Written.Item.spell_pieces hread
      (fun i cs bad => slotItem_overflow) (fun _ => rfl) (fun i hi cs => by simp)
      (fun i hi => by simp) hlisted
  have htext : (Written.Field.slots first others).text ++ rest =
      '[' :: ([','].intercalate ((first :: others).map Written.Item.text) ++ ']' :: rest) := by
    simp [Written.Field.text]
  rw [htext, slotList, hitems]
  rfl

lemma quantityField_overflow (hn : ¬n.Fits) (hrest : Stops Char.isDigit rest) :
    quantityField ('{' :: (n.digits ++ rest)) = .fault (.numberOutOfRange (n.digits ++ rest)) := by
  rw [quantityField, number_overflow hn hrest]
  rfl

/-- The upper bound of a quantity is looked at behind a small lower bound only. -/
lemma quantityField_overflow_upper {m : Written.Numeral} (hn : n.Fits) (hm : ¬m.Fits)
    (hrest : Stops Char.isDigit rest) :
    quantityField ('{' :: (n.digits ++ ',' :: (m.digits ++ rest))) =
      .fault (.numberOutOfRange (m.digits ++ rest)) := by
  have hmin := number_digits hn (',' :: (m.digits ++ rest)) (by simp)
  rw [quantityField, hmin, Reading.found_andThen, upperBound, number_overflow hm hrest]
  rfl

theorem field_overflow {f : Written.Field} (h : overflow rest f.pieces = some bad)
    (hrest : Stops Char.isDigit rest) :
    field (f.text ++ rest) = .fault (.numberOutOfRange bad) := by
  unfold field
  cases f with
  | exactly n =>
    obtain ⟨hn, rfl⟩ | ⟨-, h⟩ := Piece.overflow_numeral_eq_some_iff.mp h
    · have hstop : Stops Char.isDigit ('}' :: rest) := by simp
      have hread := quantityField_overflow hn hstop
      simp only [Written.Field.text, List.cons_append, List.append_assoc, List.nil_append, hread]
      rfl
    · cases h
  | atLeast n =>
    obtain ⟨hn, rfl⟩ | ⟨-, h⟩ := Piece.overflow_numeral_eq_some_iff.mp h
    · have hstop : Stops Char.isDigit (',' :: '}' :: rest) := by simp
      have hread := quantityField_overflow hn hstop
      simp only [Written.Field.text, List.cons_append, List.append_assoc, List.nil_append, hread]
      rfl
    · cases h
  | between n m =>
    have htext : (Written.Field.between n m).text ++ rest =
        '{' :: (n.digits ++ ',' :: (m.digits ++ '}' :: rest)) := by
      simp [Written.Field.text]
    rw [htext]
    obtain ⟨hn, rfl⟩ | ⟨hn, h⟩ := Piece.overflow_numeral_eq_some_iff.mp h
    · rw [quantityField_overflow hn (by simp)]
      simp
    · obtain ⟨hm, rfl⟩ | ⟨-, h⟩ := Piece.overflow_numeral_eq_some_iff.mp h
      · rw [quantityField_overflow_upper hn hm (by simp)]
        rfl
      · cases h
  | slots first others =>
    have hbrace : quantityField ((Written.Field.slots first others).text ++ rest) = .absent :=
      quantityField_eq_absent (by simp [Written.Field.text])
    rw [hbrace, slotList_overflow h]
    rfl
  | level n =>
    obtain ⟨hn, rfl⟩ := Piece.overflow_singleton.mp h
    have hbrace : quantityField (Written.levelText n ++ rest) = .absent :=
      quantityField_eq_absent (by simp [Written.levelText])
    have hbracket : slotList (Written.levelText n ++ rest) = .absent :=
      slotList_eq_absent (by simp [Written.levelText])
    rw [Written.Field.text, hbrace, hbracket, level_overflow hn hrest]
    rfl
  | star => cases h
  | filler c hc => cases h

/-- Fields are read one by one up to the first that has an overflow. -/
theorem fields_overflow (h : overflow [] (fs.flatMap Written.Field.pieces) = some bad) :
    fields (fs.flatMap Written.Field.text) = .error (.numberOutOfRange bad) := by
  induction fs with
  | nil => cases h
  | cons f fs ih =>
    have hspell : spell (fs.flatMap Written.Field.pieces) ++ [] =
        fs.flatMap Written.Field.text := by
      simp
    rw [List.flatMap_cons, Piece.overflow_append_eq_some_iff, hspell] at h
    rw [List.flatMap_cons]
    rcases h with h | ⟨hfits, h⟩
    · exact fields_of_fault (field_overflow h (stops_digit_text fs))
    · rw [fields_text_append (Written.Field.allFit_pieces.mp hfits) (stops_digit_text fs), ih h]
      rfl

/-! ## Segments -/

/-- Without tokens in front, fields that are at fault are no token, or they are at the
same fault already when a token is looked for. -/
theorem token_flatMap_of_error {e : Fault} (h : fields (fs.flatMap Written.Field.text) = .error e) :
    token (fs.flatMap Written.Field.text) = .absent ∨
      token (fs.flatMap Written.Field.text) = .fault e := by
  obtain ⟨gs, -, hgs⟩ := exists_skipParentheses fs
  rw [← fields_skipParentheses, hgs] at h
  unfold token
  rw [hgs]
  -- a token must not start with a level, so the number of a level in front is read here already
  by_cases hlevel : ∃ n, gs.head? = some (.level n) ∧ ¬n.Fits
  · obtain ⟨n, hhead, hn⟩ := hlevel
    obtain ⟨gs, rfl⟩ := List.head?_eq_some_iff.mp hhead
    have hread := level_overflow hn (stops_digit_text gs)
    have hfield : field ((Written.Field.level n :: gs).flatMap Written.Field.text) =
        .fault (.numberOutOfRange (n.digits ++ gs.flatMap Written.Field.text)) :=
      field_overflow (Piece.overflow_singleton.mpr ⟨hn, rfl⟩) (stops_digit_text gs)
    rw [fields_of_fault hfield] at h
    obtain rfl := Except.error.inj h
    right
    unfold closedToken
    rw [List.flatMap_cons, Written.Field.text, hread]
  · left
    exact closedToken_flatMap fun n hn => by_contra fun hfits => hlevel ⟨n, hn, hfits⟩

/-- The fault shows while the tokens are read, or while the fields behind them are. -/
theorem tokens_overflow (hapart : w.LevelApart) (h : overflow [] w.pieces = some bad)
    {cs : List Char} (hcs : skipParentheses cs = skipParentheses (bodyText w)) :
    tokens cs = .error (.numberOutOfRange bad) ∨
      ∃ ts rest, tokens cs = .ok (ts, rest) ∧ fields rest = .error (.numberOutOfRange bad) := by
  have hspell : spell (w.fields.flatMap Written.Field.pieces) ++ [] =
      w.fields.flatMap Written.Field.text := by
    simp
  rw [Written.pieces, List.cons_append, Piece.overflow_plain, Piece.overflow_append_eq_some_iff,
    hspell] at h
  -- a token is looked for even where none is written, in front of the fields
  by_cases hne : w.tokens = []
  · have htext : skipParentheses cs = skipParentheses (w.fields.flatMap Written.Field.text) := by
      rw [hcs, bodyText, hne]
      rfl
    have hfields : fields (w.fields.flatMap Written.Field.text) =
        .error (.numberOutOfRange bad) := by
      rw [hne] at h
      rcases h with h | ⟨-, h⟩
      · cases h
      · exact fields_overflow h
    rcases token_flatMap_of_error hfields with htoken | htoken
    · right
      refine ⟨[], cs, ?_, ?_⟩
      · rw [tokens, separated_token_congr htext, separated, htoken]
      · rw [← fields_skipParentheses, htext, fields_skipParentheses, hfields]
    · left
      rw [tokens, separated_token_congr htext, separated, htoken]
  · have hends : ∀ t ∈ w.tokens.getLast?, EndsToken t (w.fields.flatMap Written.Field.text) :=
      fun t ht => endsToken_flatMap fun hword n => hapart t n ht hword
    rcases h with h | ⟨hfits, h⟩
    · left
      have hread : ∀ (t : Written.Token) cs, AllFit t.pieces → EndsToken t cs →
          token (t.text ++ cs) = .found t.name.token (skipParentheses cs) :=
        fun t cs ht => token_text (Written.Token.allFit_pieces.mp ht)
      have hfault : separated token progresses_token '|' (bodyText w) =
          .fault (.numberOutOfRange bad) :=
        separated_overflow progresses_token Written.Token.spell_pieces hread
          (fun t cs bad ht hcs => token_overflow hcs ht) (fun cs => skipParentheses_cons rfl cs)
          (fun t _ cs => endsToken_bar t cs) hends h
      rw [tokens, separated_token_congr hcs, hfault]
    · right
      have hfound := separated_bodyText (w := w) (fun t ht => Written.Token.allFit_pieces.mp
        (Piece.allFit_listed.mp hfits _ (List.mem_map_of_mem ht))) hapart hne
      refine ⟨w.segment.tokens, skipParentheses (w.fields.flatMap Written.Field.text), ?_, ?_⟩
      · rw [tokens, separated_token_congr hcs, hfound]
      · rw [fields_skipParentheses, fields_overflow h]

/-- The segment is at fault where its first numeral stands that is too large. -/
theorem read_overflow (hapart : w.LevelApart) (h : overflow [] w.pieces = some bad) :
    read w.text = .error (.numberOutOfRange bad) := by
  obtain ⟨body, hnegation, hbody⟩ := exists_negation_text w
  unfold read
  rcases tokens_overflow hapart h hbody with htokens | ⟨ts, rest, htokens, hfields⟩
  · simp only [hnegation, htokens]
  · simp only [hnegation, htokens, hfields]
    rfl

end Segment.Reader

/-- A text without blanks and separators is a single segment, and a fault in it is one of
the expression. -/
theorem requirements_of_read_error {cs : List Char} (hsep : separator ∉ cs)
    (hblank : ∀ c ∈ cs, isBlank c = false) (hne : cs ≠ []) {e : Segment.Fault}
    (hread : Segment.read cs = .error e) :
    requirements (String.ofList cs) =
      .error (.malformed (byteLength cs - byteLength e.rest) e.malformation) := by
  have htrim : trim cs = cs := trim_of_not_blank hblank
  have hstart : cs.takeWhile isBlank = [] :=
    takeWhile_of_stops fun c hc => hblank c (List.mem_of_mem_head? hc)
  have hat : requirementAt 0 cs =
      .error (.malformed (byteLength cs - byteLength e.rest) e.malformation) := by
    unfold requirementAt
    rw [htrim, hstart, if_neg (by simpa using hne)]
    simp only [hread, byteLength_nil, Nat.zero_add]
  unfold requirements
  simp only [String.toList_ofList, htrim]
  rw [if_neg (by simpa using hne), hstart,
    List.splitOn_eq_singleton hsep, requirementsFrom, byteLength_nil, hat]
  rfl

namespace Written

open Piece (overflow spell)

variable (w : Written)

lemma not_isBlank_of_mem_text (hblank : ∀ f ∈ w.fields, f.isBlank = false) :
    ∀ c ∈ w.text, isBlank c = false := by
  have hfields : ∀ c ∈ w.fields.flatMap Field.text, isBlank c = false := by
    intro c hc
    obtain ⟨f, hf, hcf⟩ := List.mem_flatMap.mp hc
    exact Field.not_isBlank (hblank f hf) c hcf
  exact List.forall_mem_append.mpr
    ⟨fun c hc => isBlank_of_isSolid (w.isSolid_headText c hc), hfields⟩

/-- A segment in which a numeral is too large is malformed at the first digit of the
leftmost such numeral, whatever its field is and whether the field counts. With small
numerals alone it is not malformed. -/
theorem malformed_at_first_large_numeral (hapart : w.LevelApart)
    (hblank : ∀ f ∈ w.fields, f.isBlank = false) (hne : w.text ≠ []) :
    ((∃ n, .numeral n ∈ w.pieces ∧ ¬n.Fits) →
      ∃ front n back, w.pieces = front ++ .numeral n :: back ∧
        (∀ m, .numeral m ∈ front → m.Fits) ∧ ¬n.Fits ∧
        requirements (String.ofList w.text) = .error (.malformed (byteLength (spell front))
          (.numberOutOfRange (excerpt (n.digits ++ spell back))))) ∧
    ((∀ n, .numeral n ∈ w.pieces → n.Fits) →
      ∀ position reason,
        requirements (String.ofList w.text) ≠ .error (.malformed position reason)) := by
  have hink := w.not_isBlank_of_mem_text hblank
  constructor
  · rintro ⟨large, hmem, hlarge⟩
    have hsome : overflow [] w.pieces ≠ none := fun h =>
      hlarge (Piece.overflow_eq_none_iff.mp h large hmem)
    obtain ⟨bad, hbad⟩ := Option.ne_none_iff_exists'.mp hsome
    obtain ⟨front, n, back, hpieces, hfront, hn, rfl⟩ := Piece.overflow_eq_some_iff.mp hbad
    have hread := requirements_of_read_error w.separator_not_mem_text hink hne
      (Segment.Reader.read_overflow hapart hbad)
    have htext : w.text = spell front ++ (n.digits ++ (spell back ++ [])) := by
      rw [← w.spell_pieces, hpieces]
      simp
    refine ⟨front, n, back, hpieces, hfront, hn, ?_⟩
    rw [hread, htext]
    simp [Segment.Fault.malformation, Segment.Fault.rest]
  · intro hfits position reason
    obtain ⟨c, cs, hc⟩ := List.exists_cons_of_ne_nil hne
    have hmem : c ∈ w.text := by simp [hc]
    rw [w.requirements_ofList_text (allFit_pieces.mp hfits) hapart ⟨c, hmem, hink c hmem⟩]
    obtain ⟨r, hr⟩ | ⟨min, max, he⟩ := w.segment.requirement_cases
    · simp [hr, Except.map]
    · simp [he, Except.map]

/-- A segment in which the first quantity leaves no room for a number and the second one,
which does not count, is too large, like the last level. -/
def overfull : Written where
  opening := .none
  negated := true
  tokens := [
    ⟨.none, .word ⟨['戦', '艦'], by simp, List.all_eq_true.mp (by decide +kernel)⟩, .none⟩,
    ⟨.none, .shipClass ⟨['0', '8'], by simp, by simp⟩, .none⟩]
  fields := [.between ⟨['7'], by simp, by simp⟩ ⟨['4'], by simp, by simp⟩,
    .slots (.slot ⟨['6'], by simp, by simp⟩) [.level ⟨['5', '0'], by simp, by simp⟩],
    .between ⟨['4', '2', '9', '4', '9', '6', '7', '2', '9', '6'], by simp, by simp⟩
      ⟨['1', '0'], by simp, by simp⟩, .star,
    .level ⟨['9', '9', '9', '9', '9', '9', '9', '9', '9', '9', '9'], by simp, by simp⟩]

/-- Behind a mark and two characters of three bytes the position is counted in bytes. -/
theorem malformed_at_first_large_numeral_overfull :
    overfull.LevelApart ∧ (∀ f ∈ overfull.fields, f.isBlank = false) ∧ overfull.text ≠ [] ∧
      requirements "!戦艦|@08\x7b7,4\x7d[6,level>50]\x7b4294967296,10\x7d*level>99999999999" =
        .error (.malformed 29 (.numberOutOfRange "4294967296,10\x7d*level")) := by
  have hapart : overfull.LevelApart := by
    intro t n _ _
    simp [overfull]
  have hblank : ∀ f ∈ overfull.fields, f.isBlank = false := by decide
  have hne : overfull.text ≠ [] := by decide
  refine ⟨hapart, hblank, hne, ?_⟩
  obtain ⟨front, n, back, hpieces, hfront, hn, hread⟩ :=
    (overfull.malformed_at_first_large_numeral hapart hblank hne).1
      ⟨⟨['4', '2', '9', '4', '9', '6', '7', '2', '9', '6'], by simp, by simp⟩, by decide, by decide⟩
  have hbad : overflow [] overfull.pieces = some (n.digits ++ (spell back ++ [])) :=
    Piece.overflow_eq_some_iff.mpr ⟨front, n, back, hpieces, hfront, hn, rfl⟩
  have hvalue : overflow [] overfull.pieces =
      some "4294967296,10\x7d*level>99999999999".toList := by
    decide +kernel
  have hrest : n.digits ++ spell back = "4294967296,10\x7d*level>99999999999".toList := by
    rw [hvalue] at hbad
    simpa using (Option.some.inj hbad).symm
  have hplace : byteLength (spell front) = 29 := by
    have htext : overfull.text = spell front ++ "4294967296,10\x7d*level>99999999999".toList := by
      rw [← overfull.spell_pieces, hpieces, ← hrest]
      simp
    have hlength := congrArg byteLength htext
    rw [byteLength_append] at hlength
    have htotal : byteLength overfull.text =
        29 + byteLength "4294967296,10\x7d*level>99999999999".toList := by
      decide +kernel
    omega
  rw [hplace, hrest] at hread
  exact hread

end Written
end FleetComposition
