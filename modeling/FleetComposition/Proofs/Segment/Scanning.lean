import FleetComposition.Proofs.Segment.Written
import FleetComposition.Proofs.Text.Run

/-!
# Readers on written segments

What each reader makes of the text of the part of a segment that it is for, with
any text behind it that cannot be taken for more of the same part. Fields are
read one by one, so the fields behind a text of fields are read as they would be
on their own.
-/
namespace FleetComposition.Segment.Reader

open Text

/-! ## Numerals and levels -/

theorem number_digits {n : Written.Numeral} (hn : n.Fits) (rest : List Char)
    (hrest : Stops Char.isDigit rest) : number (n.digits ++ rest) = .found n.value rest := by
  obtain ⟨d, ds, hd⟩ := List.exists_cons_of_ne_nil n.nonempty
  have hword : word? (d :: ds) = some n.value := by
    rw [← hd]
    exact if_pos hn
  unfold number
  rw [takeWhile_run n.decimal hrest, dropWhile_run n.decimal hrest, hd]
  simp only [hword]

theorem number_eq_absent {cs : List Char} (h : Stops Char.isDigit cs) : number cs = .absent := by
  unfold number
  rw [takeWhile_of_stops h]

theorem level_levelText {n : Written.Numeral} (hn : n.Fits) {rest : List Char}
    (hrest : Stops Char.isDigit rest) :
    level (Written.levelText n ++ rest) = .found n.value rest := by
  have hb : behind? levelMark (Written.levelText n ++ rest) = some (n.digits ++ rest) :=
    behind?_eq_some_iff.mpr (List.append_assoc _ _ _)
  unfold level
  rw [hb]
  exact number_digits hn rest hrest

/-- No level is read where no numeral stands behind its mark. -/
theorem level_eq_absent {cs : List Char}
    (h : ∀ rest, cs = levelMark ++ rest → Stops Char.isDigit rest) : level cs = .absent := by
  unfold level
  split
  next rest hb => exact number_eq_absent (h rest (behind?_eq_some_iff.mp hb))
  next => rfl

lemma level_eq_absent_of_head {cs : List Char} (h : cs.head? ≠ some 'l') : level cs = .absent := by
  apply level_eq_absent
  rintro rest rfl
  exact absurd rfl h

/-- Digits are no start of a level. -/
lemma level_digits (n : Written.Numeral) (rest : List Char) :
    level (n.digits ++ rest) = .absent := by
  obtain ⟨d, ds, hd⟩ := List.exists_cons_of_ne_nil n.nonempty
  have hdigit := n.decimal d (by simp [hd])
  apply level_eq_absent_of_head
  rw [hd, List.cons_append, List.head?_cons]
  rintro ⟨rfl⟩
  exact absurd hdigit (by decide)

/-! ## Tokens -/

/-- What ends a token of this name. A word also ends where the mark of a level
would be complete but for its number. -/
def EndsName (name : Written.Name) (rest : List Char) : Prop :=
  match name with
  | .word _ => Stops isWordChar rest ∧ ∀ behind, rest = '>' :: behind → Stops Char.isDigit behind
  | _ => Stops Char.isDigit rest

lemma endsName_of_stops {rest : List Char} (name : Written.Name) (hword : Stops isWordChar rest)
    (hmark : ∀ behind, rest = '>' :: behind → Stops Char.isDigit behind) : EndsName name rest := by
  cases name with
  | word w => exact ⟨hword, hmark⟩
  | shipClass id => exact stops_digit_of_stops_word hword
  | ship id => exact stops_digit_of_stops_word hword

theorem reference_digits {n : Written.Numeral} (hn : n.Fits) {rest : List Char}
    (hrest : Stops Char.isDigit rest) : reference (n.digits ++ rest) = .found n.value rest := by
  unfold reference
  rw [number_digits hn rest hrest, Reading.found_orElse]

theorem word_letters (w : Written.Word) {rest : List Char} (hrest : Stops isWordChar rest) :
    word (w.letters ++ rest) = .found (.ofWord (String.ofList w.letters)) rest := by
  obtain ⟨c, cs, hc⟩ := List.exists_cons_of_ne_nil w.nonempty
  unfold word
  rw [takeWhile_run w.wordChars hrest, dropWhile_run w.wordChars hrest, hc]

/-- A text that starts with a word has none of the marks that a word cannot start with. -/
lemma bareToken_eq_word {cs : List Char} (hc : cs.head? ≠ some '@') (hs : cs.head? ≠ some '#') :
    bareToken cs = word cs := by
  unfold bareToken
  split
  next => exact absurd rfl hc
  next => exact absurd rfl hs
  next => rfl

theorem bareToken_letters (w : Written.Word) {rest : List Char} (hrest : Stops isWordChar rest) :
    bareToken (w.letters ++ rest) = .found (Written.Name.word w).token rest := by
  obtain ⟨c, cs, hc, hword⟩ := w.exists_cons
  have hclass : c ≠ '@' := by
    rintro rfl
    exact absurd hword (by decide)
  have hship : c ≠ '#' := by
    rintro rfl
    exact absurd hword (by decide)
  have hread := word_letters w hrest
  rw [Written.Name.ofWord_letters] at hread
  rw [← hread]
  exact bareToken_eq_word (by simp [hc, hclass]) (by simp [hc, hship])

theorem bareToken_text {name : Written.Name} (hname : name.Fits) {rest : List Char}
    (hrest : EndsName name rest) : bareToken (name.text ++ rest) = .found name.token rest := by
  cases name with
  | word w => exact bareToken_letters w hrest.1
  | shipClass id =>
    show (reference (id.digits ++ rest)).map _ = _
    rw [reference_digits hname hrest]
    rfl
  | ship id =>
    show (reference (id.digits ++ rest)).map _ = _
    rw [reference_digits hname hrest]
    rfl

/-- Only the word of the mark of a level can be read as one, in front of a number. -/
theorem level_letters (w : Written.Word) {rest : List Char} (hrest : Stops isWordChar rest)
    (hmark : w.letters = ['l', 'e', 'v', 'e', 'l'] →
      ∀ behind, rest = '>' :: behind → Stops Char.isDigit behind) :
    level (w.letters ++ rest) = .absent := by
  apply level_eq_absent
  intro behind hcs
  have htake : (w.letters ++ rest).takeWhile isWordChar = w.letters :=
    takeWhile_run w.wordChars hrest
  have hletters : w.letters = ['l', 'e', 'v', 'e', 'l'] := by
    rw [← htake, show w.letters ++ rest = levelMark ++ behind from hcs]
    rfl
  refine hmark hletters behind ?_
  rw [hletters] at hcs
  exact List.append_cancel_left hcs

/-- A word in front of something other than a level is not read as one. -/
theorem level_text_name {name : Written.Name} {rest : List Char} (hrest : EndsName name rest) :
    level (name.text ++ rest) = .absent := by
  cases name with
  | word w => exact level_letters w hrest.1 fun _ => hrest.2
  | shipClass id => exact level_eq_absent_of_head (by simp [Written.Name.text])
  | ship id => exact level_eq_absent_of_head (by simp [Written.Name.text])

theorem skipParentheses_marks (marks : Written.Parentheses) (rest : List Char) :
    skipParentheses (marks.marks ++ rest) = skipParentheses rest := by
  unfold skipParentheses
  refine List.dropWhile_append_of_pos fun c hc => ?_
  rcases marks.only c hc with rfl | rfl <;> rfl

lemma skipParentheses_cons {c : Char} (hc : isParenthesis c = false) (cs : List Char) :
    skipParentheses (c :: cs) = c :: cs := by
  rw [skipParentheses, List.dropWhile_cons_of_neg (by simp [hc])]

@[simp] theorem skipParentheses_skipParentheses (cs : List Char) :
    skipParentheses (skipParentheses cs) = skipParentheses cs :=
  dropWhile_of_stops (stops_dropWhile isParenthesis cs)

theorem closedToken_text {name : Written.Name} (hname : name.Fits) {rest : List Char}
    (hrest : EndsName name rest) :
    closedToken (name.text ++ rest) = .found name.token (skipParentheses rest) := by
  unfold closedToken
  rw [level_text_name hrest, bareToken_text hname hrest]
  rfl

/-- What ends a token with the parentheses behind it. -/
def EndsToken (t : Written.Token) (rest : List Char) : Prop :=
  EndsName t.name (t.after.marks ++ rest)

lemma endsName_cons (name : Written.Name) {c : Char} (hword : isWordChar c = false)
    (hmark : c ≠ '>') (cs : List Char) : EndsName name (c :: cs) :=
  endsName_of_stops name (by simpa using hword) fun _ h => absurd (List.cons.inj h).1 hmark

/-- Parentheses end a token, so what follows matters only where there are none. -/
lemma endsToken_of_endsName {t : Written.Token} {rest : List Char}
    (h : t.after.marks = [] → EndsName t.name rest) : EndsToken t rest := by
  unfold EndsToken
  cases hmarks : t.after.marks with
  | nil => exact h hmarks
  | cons p ps =>
    have hp : p = '(' ∨ p = ')' := t.after.only p (by simp [hmarks])
    rcases hp with rfl | rfl <;> exact endsName_cons t.name (by decide) (by decide) _

lemma endsToken_bar (t : Written.Token) (cs : List Char) : EndsToken t ('|' :: cs) :=
  endsToken_of_endsName fun _ => endsName_cons t.name (by decide) (by decide) cs

lemma isParenthesis_of_isStart {c : Char} (hc : Written.Name.isStart c) :
    isParenthesis c = false := by
  by_contra h
  simp only [isParenthesis, Bool.not_eq_false, Bool.or_eq_true, decide_eq_true_eq] at h
  rcases h with rfl | rfl <;> exact absurd hc (by decide)

theorem token_text {t : Written.Token} (ht : t.name.Fits) {rest : List Char}
    (hrest : EndsToken t rest) :
    token (t.text ++ rest) = .found t.name.token (skipParentheses rest) := by
  obtain ⟨c, cs, hc, hstart⟩ := t.name.exists_cons
  have hname : skipParentheses (t.name.text ++ (t.after.marks ++ rest)) =
      t.name.text ++ (t.after.marks ++ rest) := by
    rw [hc, List.cons_append, skipParentheses_cons (isParenthesis_of_isStart hstart)]
  unfold token Written.Token.text
  rw [List.append_assoc, List.append_assoc, skipParentheses_marks, hname,
    closedToken_text ht hrest, skipParentheses_marks]

/-! ## Repetitions -/

lemma further_of_found {α : Type} {item : Reader α} (progress : item.Progresses)
    {separator : Char} {cs rest : List Char} {a : α} (h : item cs = .found a rest) :
    further item progress separator (separator :: cs) =
      (further item progress separator rest).map fun p => (a :: p.1, p.2) := by
  rw [further, if_pos rfl]
  split
  next b left hb =>
    rw [h] at hb
    obtain ⟨rfl, rfl⟩ := Reading.found.inj hb
    cases further item progress separator rest <;> rfl
  next hb => rw [h] at hb; cases hb
  next hb => rw [h] at hb; cases hb

lemma further_of_fault {α : Type} {item : Reader α} (progress : item.Progresses)
    {separator : Char} {cs : List Char} {e : Fault} (h : item cs = .fault e) :
    further item progress separator (separator :: cs) = .error e := by
  rw [further, if_pos rfl]
  split
  next hb => rw [h] at hb; cases hb
  next hb => rw [h] at hb; cases hb
  next hb => rw [h] at hb; cases hb; rfl

lemma forall_getLast?_of_cons {ι : Type} {P : ι → Prop} {i : ι} {is : List ι}
    (h : ∀ j ∈ (i :: is).getLast?, P j) : ∀ j ∈ is.getLast?, P j := by
  cases is with
  | nil => simp
  | cons j js => simpa [List.getLast?_cons_cons] using h

/-- Of items with separators in front of the others, the first is ended by a separator,
or it is the last. -/
lemma ends_flatMap {ι : Type} {Ends : ι → List Char → Prop} {separator : Char}
    {text : ι → List Char} {i : ι} {is : List ι} {rest : List Char}
    (hseparator : ∀ cs, Ends i (separator :: cs)) (hlast : ∀ j ∈ (i :: is).getLast?, Ends j rest) :
    Ends i (is.flatMap (fun j => separator :: text j) ++ rest) := by
  cases is with
  | nil => exact hlast i rfl
  | cons j js => exact hseparator _

/-- Items behind separators are read one by one. An item reader may go on past
the item to the place where the rest `settle`s. -/
theorem further_flatMap {α ι : Type} {item : Reader α} (progress : item.Progresses)
    {separator : Char} {text : ι → List Char} {value : ι → α} {settle : List Char → List Char}
    {Ends : ι → List Char → Prop}
    (hitem : ∀ i rest, Ends i rest → item (text i ++ rest) = .found (value i) (settle rest))
    (hsettle : ∀ cs, settle (separator :: cs) = separator :: cs) (is : List ι) (rest : List Char)
    (hseparator : ∀ i ∈ is, ∀ cs, Ends i (separator :: cs))
    (hlast : ∀ i ∈ is.getLast?, Ends i rest) :
    further item progress separator
        (settle (is.flatMap (fun i => separator :: text i) ++ rest)) =
      (further item progress separator (settle rest)).map fun p => (is.map value ++ p.1, p.2) := by
  induction is with
  | nil => cases h : further item progress separator (settle rest) <;> simp [h, Except.map]
  | cons i is ih =>
    have hi : Ends i (is.flatMap (fun i => separator :: text i) ++ rest) :=
      ends_flatMap (hseparator i (by simp)) hlast
    have hrec := ih (fun j hj => hseparator j (by simp [hj])) (forall_getLast?_of_cons hlast)
    rw [List.flatMap_cons, List.cons_append, List.cons_append, hsettle, List.append_assoc,
      further_of_found progress (hitem i _ hi), hrec]
    cases further item progress separator (settle rest) <;> rfl

lemma further_eq_nil {α : Type} {item : Reader α} (progress : item.Progresses) {separator : Char}
    {cs : List Char} (h : cs.head? ≠ some separator) :
    further item progress separator cs = .ok ([], cs) := by
  cases cs with
  | nil => rw [further]
  | cons c cs =>
    have hc : c ≠ separator := by simpa using h
    rw [further, if_neg hc]

lemma intercalate_eq_flatMap (separator : Char) (x : List Char) (xs : List (List Char)) :
    [separator].intercalate (x :: xs) = x ++ xs.flatMap (separator :: ·) := by
  induction xs generalizing x with
  | nil => simp
  | cons y ys ih => rw [List.intercalate_cons_cons, ih y]; simp

theorem separated_intercalate {α ι : Type} {item : Reader α} (progress : item.Progresses)
    {separator : Char} {text : ι → List Char} {value : ι → α} {settle : List Char → List Char}
    {Ends : ι → List Char → Prop}
    (hitem : ∀ i rest, Ends i rest → item (text i ++ rest) = .found (value i) (settle rest))
    (hsettle : ∀ cs, settle (separator :: cs) = separator :: cs) (is : List ι) (hne : is ≠ [])
    (rest : List Char) (hseparator : ∀ i ∈ is, ∀ cs, Ends i (separator :: cs))
    (hlast : ∀ i ∈ is.getLast?, Ends i rest) (hrest : (settle rest).head? ≠ some separator) :
    separated item progress separator ([separator].intercalate (is.map text) ++ rest) =
      .found (is.map value) (settle rest) := by
  obtain ⟨i, is, rfl⟩ := List.exists_cons_of_ne_nil hne
  have hi : Ends i (is.flatMap (fun i => separator :: text i) ++ rest) :=
    ends_flatMap (hseparator i (by simp)) hlast
  have hothers := further_flatMap progress hitem hsettle is rest
    (fun j hj => hseparator j (by simp [hj])) (forall_getLast?_of_cons hlast)
  rw [further_eq_nil progress hrest] at hothers
  unfold separated
  rw [List.map_cons, intercalate_eq_flatMap, List.flatMap_map, List.append_assoc, hitem i _ hi]
  simp only [hothers, Except.map, List.map_cons, List.append_nil]

/-! ## Fields -/

theorem slotItem_text {i : Written.Item} (hi : i.numeral.Fits) {rest : List Char}
    (hrest : Stops Char.isDigit rest) :
    slotItem (i.text ++ rest) = .found i.item rest := by
  unfold slotItem
  cases i with
  | slot n =>
    have hread := number_digits (n := n) hi rest hrest
    rw [Written.Item.text, level_digits, hread]
    rfl
  | level n =>
    have hread := level_levelText (n := n) hi hrest
    rw [Written.Item.text, hread]
    rfl

theorem slotList_text {first : Written.Item} {others : List Written.Item}
    (h : ∀ i ∈ first :: others, i.numeral.Fits) (rest : List Char) :
    slotList ((Written.Field.slots first others).text ++ rest) =
      .found ((first :: others).map Written.Item.item) rest := by
  have hread : ∀ (i : Written.Item) cs, (i.numeral.Fits ∧ Stops Char.isDigit cs) →
      slotItem (i.text ++ cs) = .found i.item (id cs) :=
    fun i cs hi => slotItem_text hi.1 hi.2
  have hitems : separated slotItem progresses_slotItem ','
      ([','].intercalate ((first :: others).map Written.Item.text) ++ ']' :: rest) =
      .found ((first :: others).map Written.Item.item) (']' :: rest) :=
    separated_intercalate progresses_slotItem hread (fun _ => rfl) (first :: others) (by simp)
      (']' :: rest) (fun i hi cs => ⟨h i hi, by simp⟩)
      (fun i hi => ⟨h i (List.mem_of_mem_getLast? hi), by simp⟩) (by simp)
  have htext : (Written.Field.slots first others).text ++ rest =
      '[' :: ([','].intercalate ((first :: others).map Written.Item.text) ++ ']' :: rest) := by
    simp [Written.Field.text]
  rw [htext, slotList, hitems]
  rfl

theorem quantityField_exactly {n : Written.Numeral} (hn : n.Fits) (rest : List Char) :
    quantityField ((Written.Field.exactly n).text ++ rest) = .found (.exactly n.value) rest := by
  have hread := number_digits hn ('}' :: rest) (by simp)
  have htext : (Written.Field.exactly n).text ++ rest = '{' :: (n.digits ++ '}' :: rest) := by
    simp [Written.Field.text]
  rw [htext, quantityField, hread]
  rfl

theorem quantityField_atLeast {n : Written.Numeral} (hn : n.Fits) (rest : List Char) :
    quantityField ((Written.Field.atLeast n).text ++ rest) = .found (.atLeast n.value) rest := by
  have hread := number_digits hn (',' :: '}' :: rest) (by simp)
  have hnone : number ('}' :: rest) = .absent := number_eq_absent (by simp)
  have htext : (Written.Field.atLeast n).text ++ rest =
      '{' :: (n.digits ++ ',' :: '}' :: rest) := by
    simp [Written.Field.text]
  rw [htext, quantityField, hread, Reading.found_andThen, upperBound, hnone]
  rfl

theorem quantityField_between {n m : Written.Numeral} (hn : n.Fits) (hm : m.Fits)
    (rest : List Char) :
    quantityField ((Written.Field.between n m).text ++ rest) =
      .found (.between n.value m.value) rest := by
  have hmin := number_digits hn (',' :: (m.digits ++ '}' :: rest)) (by simp)
  have hmax := number_digits hm ('}' :: rest) (by simp)
  have htext : (Written.Field.between n m).text ++ rest =
      '{' :: (n.digits ++ ',' :: (m.digits ++ '}' :: rest)) := by
    simp [Written.Field.text]
  rw [htext, quantityField, hmin, Reading.found_andThen, upperBound, hmax]
  rfl

lemma quantityField_eq_absent {cs : List Char} (h : cs.head? ≠ some '{') :
    quantityField cs = .absent := by
  unfold quantityField
  split
  next => exact absurd rfl h
  next => rfl

lemma slotList_eq_absent {cs : List Char} (h : cs.head? ≠ some '[') : slotList cs = .absent := by
  unfold slotList
  split
  next => exact absurd rfl h
  next => rfl

lemma star_eq_absent {cs : List Char} (h : cs.head? ≠ some '*') : star cs = .absent := by
  unfold star
  split
  next => exact absurd rfl h
  next => rfl

/-- A character that starts no field is skipped. -/
theorem field_eq_absent {c : Char} (hc : c ∉ ['{', '[', 'l', '*']) (rest : List Char) :
    field (c :: rest) = .absent := by
  have hne : ∀ d ∈ ['{', '[', 'l', '*'], (c :: rest).head? ≠ some d := by
    rintro d hd ⟨rfl⟩
    exact hc hd
  unfold field
  rw [quantityField_eq_absent (hne '{' (by simp)), slotList_eq_absent (hne '[' (by simp)),
    level_eq_absent_of_head (hne 'l' (by simp)), star_eq_absent (hne '*' (by simp))]
  rfl

theorem field_filler {c : Char} (hc : Written.isFiller c) (rest : List Char) :
    field (c :: rest) = .absent := by
  apply field_eq_absent
  intro hmem
  have hnone : ∀ d ∈ ['{', '[', 'l', '*'], Written.isFiller d = false :=
    forall_mem_of_all (by decide)
  rw [hnone c hmem] at hc
  contradiction

/-- Every field but a filler is found where it stands. -/
theorem field_text {f : Written.Field} (hf : f.Fits) {rest : List Char}
    (hrest : Stops Char.isDigit rest) {g : Field} (hg : f.field? = some g) :
    field (f.text ++ rest) = .found g rest := by
  unfold field
  cases f with
  | exactly n =>
    cases hg
    rw [quantityField_exactly (Written.Field.fits_exactly.mp hf)]
    rfl
  | atLeast n =>
    cases hg
    rw [quantityField_atLeast (Written.Field.fits_atLeast.mp hf)]
    rfl
  | between n m =>
    obtain ⟨hn, hm⟩ := Written.Field.fits_between.mp hf
    cases hg
    rw [quantityField_between hn hm]
    rfl
  | slots first others =>
    have hitems : ∀ i ∈ first :: others, i.numeral.Fits :=
      fun i hi => hf i.numeral (List.mem_map_of_mem hi)
    have hbrace : quantityField ((Written.Field.slots first others).text ++ rest) = .absent :=
      quantityField_eq_absent (by simp [Written.Field.text])
    cases hg
    rw [hbrace, slotList_text hitems]
    rfl
  | level n =>
    have hbrace : quantityField (Written.levelText n ++ rest) = .absent :=
      quantityField_eq_absent (by simp [Written.levelText])
    have hbracket : slotList (Written.levelText n ++ rest) = .absent :=
      slotList_eq_absent (by simp [Written.levelText])
    have hlevel := level_levelText (Written.Field.fits_level.mp hf) hrest
    cases hg
    rw [Written.Field.text, hbrace, hbracket, hlevel]
    rfl
  | star => cases hg; rfl
  | filler c hc => cases hg

theorem fields_of_found {cs rest : List Char} {f : Field} (h : field cs = .found f rest) :
    fields cs = (fields rest).map (f :: ·) := by
  cases cs with
  | nil => exact absurd (progresses_field _ _ _ h) (by simp)
  | cons c cs =>
    rw [fields]
    split
    next g left hg =>
      rw [h] at hg
      obtain ⟨rfl, rfl⟩ := Reading.found.inj hg
      rfl
    next hg => rw [h] at hg; cases hg
    next hg => rw [h] at hg; cases hg

theorem fields_of_absent {c : Char} {cs : List Char} (h : field (c :: cs) = .absent) :
    fields (c :: cs) = fields cs := by
  rw [fields]
  split
  next hg => rw [h] at hg; cases hg
  next => rfl
  next hg => rw [h] at hg; cases hg

theorem fields_of_fault {cs : List Char} {e : Fault} (h : field cs = .fault e) :
    fields cs = .error e := by
  cases cs with
  | nil => cases h
  | cons c cs =>
    rw [fields]
    split
    next hg => rw [h] at hg; cases hg
    next hg => rw [h] at hg; cases hg
    next hg => rw [h] at hg; cases hg; rfl

/-- A field is read, and the text behind it is read as if it stood alone. -/
theorem fields_text_append {f : Written.Field} (hf : f.Fits) {rest : List Char}
    (hrest : Stops Char.isDigit rest) :
    fields (f.text ++ rest) = (fields rest).map (f.field?.toList ++ ·) := by
  cases hg : f.field? with
  | some g => exact fields_of_found (field_text hf hrest hg)
  | none =>
    cases f with
    | filler c hc =>
      have hskip := fields_of_absent (field_filler hc rest)
      rw [Written.Field.text, List.singleton_append, hskip]
      cases fields rest <;> rfl
    | _ => cases hg

/-- The start of a field is no digit, so a field never runs on into the next one. -/
theorem stops_digit_flatMap (fs : List Written.Field) {rest : List Char}
    (hrest : Stops Char.isDigit rest) :
    Stops Char.isDigit (fs.flatMap Written.Field.text ++ rest) := by
  cases fs with
  | nil => exact hrest
  | cons f fs =>
    obtain ⟨c, cs, hc, hstart⟩ := f.exists_cons
    rw [List.flatMap_cons, hc, List.cons_append, List.cons_append, stops_cons]
    exact Written.Field.isDigit_of_isStart hstart

lemma stops_digit_text (fs : List Written.Field) :
    Stops Char.isDigit (fs.flatMap Written.Field.text) := by
  simpa using stops_digit_flatMap fs (stops_nil _)

theorem fields_flatMap {fs : List Written.Field} (hfs : ∀ f ∈ fs, f.Fits) {rest : List Char}
    (hrest : Stops Char.isDigit rest) :
    fields (fs.flatMap Written.Field.text ++ rest) =
      (fields rest).map (fs.filterMap Written.Field.field? ++ ·) := by
  induction fs with
  | nil => cases h : fields rest <;> simp [h, Except.map]
  | cons f fs ih =>
    have hstop := stops_digit_flatMap fs hrest
    rw [List.flatMap_cons, List.append_assoc, fields_text_append (hfs f (by simp)) hstop,
      ih fun g hg => hfs g (by simp [hg])]
    cases fields rest with
    | error e => rfl
    | ok gs => cases h : f.field? <;> simp [h, Except.map]

lemma isFiller_of_isParenthesis {c : Char} (hc : isParenthesis c) : Written.isFiller c := by
  simp only [isParenthesis, Bool.or_eq_true, decide_eq_true_eq] at hc
  rcases hc with rfl | rfl <;> decide

/-- Parentheses in front of fields are passed over like any other filler. -/
theorem fields_skipParentheses (cs : List Char) : fields (skipParentheses cs) = fields cs := by
  induction cs with
  | nil => rfl
  | cons c cs ih =>
    by_cases hc : isParenthesis c
    · rw [skipParentheses, List.dropWhile_cons_of_pos hc,
        fields_of_absent (field_filler (isFiller_of_isParenthesis hc) cs)]
      exact ih
    · rw [skipParentheses_cons (by simpa using hc)]

end FleetComposition.Segment.Reader
