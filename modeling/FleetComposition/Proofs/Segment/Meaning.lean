import FleetComposition.Proofs.Segment.Scanning

/-!
# The reading of a written segment

A reader gives back what a written segment says, whatever parentheses and other
fillers stand in it, as long as its numbers are small enough and no level stands
directly behind a word.
-/
namespace FleetComposition.Segment.Reader

open Text

variable {w : Written} {fs : List Written.Field}

/-- Without the parentheses in front, a text of fields is a text of fields. -/
lemma exists_skipParentheses (fs : List Written.Field) :
    ∃ gs, gs <:+ fs ∧
      skipParentheses (fs.flatMap Written.Field.text) = gs.flatMap Written.Field.text := by
  induction fs with
  | nil => exact ⟨[], List.suffix_rfl, rfl⟩
  | cons f fs ih =>
    obtain ⟨c, cs, hc, -⟩ := f.exists_cons
    by_cases hpar : isParenthesis c
    · have hnil := Written.Field.eq_nil_of_isFiller hc (isFiller_of_isParenthesis hpar)
      obtain ⟨gs, hsuffix, hgs⟩ := ih
      refine ⟨gs, hsuffix.trans (List.suffix_cons f fs), ?_⟩
      rw [List.flatMap_cons, hc, hnil, ← hgs]
      exact List.dropWhile_cons_of_pos hpar
    · refine ⟨f :: fs, List.suffix_rfl, ?_⟩
      rw [List.flatMap_cons, hc, List.cons_append, skipParentheses_cons (by simpa using hpar)]

lemma isStart_of_head_flatMap {c : Char}
    (hc : (fs.flatMap Written.Field.text).head? = some c) : Written.Field.isStart c := by
  cases fs with
  | nil => cases hc
  | cons f fs =>
    obtain ⟨d, ds, hd, hstart⟩ := f.exists_cons
    rw [List.flatMap_cons, hd, List.cons_append, List.head?_cons] at hc
    obtain rfl := Option.some.inj hc
    exact hstart

lemma head_skipParentheses_flatMap (fs : List Written.Field) {c : Char}
    (hc : Written.Field.isStart c = false) :
    (skipParentheses (fs.flatMap Written.Field.text)).head? ≠ some c := by
  obtain ⟨gs, -, hgs⟩ := exists_skipParentheses fs
  intro h
  rw [hgs] at h
  rw [isStart_of_head_flatMap h] at hc
  contradiction

/-- At a level no token is read, and no other field starts like a token. -/
theorem closedToken_flatMap (h : ∀ n, fs.head? = some (.level n) → n.Fits) :
    closedToken (fs.flatMap Written.Field.text) = .absent := by
  cases fs with
  | nil => rfl
  | cons f fs =>
    obtain ⟨c, cs, hc, hstart⟩ := f.exists_cons
    by_cases hl : c = 'l'
    · subst c
      obtain ⟨n, rfl⟩ := Written.Field.exists_eq_level hc
      unfold closedToken
      rw [List.flatMap_cons, Written.Field.text, level_levelText (h n rfl) (stops_digit_text fs)]
    · have hword := Written.Field.isWordChar_of_isStart hstart hl
      have hclass : c ≠ '@' := by
        rintro rfl
        exact absurd hstart (by decide)
      have hship : c ≠ '#' := by
        rintro rfl
        exact absurd hstart (by decide)
      unfold closedToken
      rw [List.flatMap_cons, hc, List.cons_append, level_eq_absent_of_head (by simpa using hl),
        bareToken_eq_word (by simpa using hclass) (by simpa using hship), word,
        takeWhile_of_stops (by simpa using hword)]
      rfl

lemma token_flatMap (hfs : ∀ f ∈ fs, f.Fits) :
    token (fs.flatMap Written.Field.text) = .absent := by
  obtain ⟨gs, hsuffix, hgs⟩ := exists_skipParentheses fs
  unfold token
  rw [hgs]
  exact closedToken_flatMap fun n hn =>
    Written.Field.fits_level.mp (hfs _ (hsuffix.subset (List.mem_of_mem_head? hn)))

lemma stops_word_flatMap (h : ∀ n, fs.head? ≠ some (.level n)) :
    Stops isWordChar (fs.flatMap Written.Field.text) := by
  cases fs with
  | nil => exact stops_nil _
  | cons f fs =>
    obtain ⟨c, cs, hc, hstart⟩ := f.exists_cons
    have hl : c ≠ 'l' := by
      rintro rfl
      obtain ⟨n, rfl⟩ := Written.Field.exists_eq_level hc
      exact h n rfl
    rw [List.flatMap_cons, hc, List.cons_append, stops_cons]
    exact Written.Field.isWordChar_of_isStart hstart hl

/-- The last character of the mark of a level is a filler like any other, and no
digit stands behind it. -/
lemma stops_digit_behind_mark {behind : List Char}
    (h : fs.flatMap Written.Field.text = '>' :: behind) : Stops Char.isDigit behind := by
  cases fs with
  | nil => cases h
  | cons f fs =>
    obtain ⟨c, cs, hc, -⟩ := f.exists_cons
    rw [List.flatMap_cons, hc, List.cons_append] at h
    obtain ⟨rfl, hbehind⟩ := List.cons.inj h
    rw [← hbehind, Written.Field.eq_nil_of_isFiller hc (by decide)]
    exact stops_digit_text fs

/-- The fields of a segment end its last token. -/
theorem endsToken_flatMap {t : Written.Token}
    (hapart : t.EndsInWord → ∀ n, fs.head? ≠ some (.level n)) :
    EndsToken t (fs.flatMap Written.Field.text) := by
  apply endsToken_of_endsName
  intro hmarks
  cases hname : t.name with
  | word w =>
    have hword := stops_word_flatMap (hapart ⟨hmarks, w, hname⟩)
    exact ⟨hword, fun behind => stops_digit_behind_mark⟩
  | shipClass id => exact stops_digit_text fs
  | ship id => exact stops_digit_text fs

/-- Tokens and fields of a segment, behind its opening and its mark of negation. -/
def bodyText (w : Written) : List Char :=
  ['|'].intercalate (w.tokens.map Written.Token.text) ++ w.fields.flatMap Written.Field.text

lemma separated_token_congr {cs ds : List Char} (h : skipParentheses cs = skipParentheses ds) :
    separated token progresses_token '|' cs = separated token progresses_token '|' ds := by
  unfold separated token
  rw [h]

/-- The tokens are read if the last one is read in front of what stands behind them. -/
theorem separated_tokens {ts : List Written.Token} (hne : ts ≠ [])
    (hfits : ∀ t ∈ ts, t.name.Fits) {rest : List Char}
    (hlast : ∀ t ∈ ts.getLast?, token (t.text ++ rest) = .found t.name.token (skipParentheses rest))
    (hrest : (skipParentheses rest).head? ≠ some '|') :
    separated token progresses_token '|' (['|'].intercalate (ts.map Written.Token.text) ++ rest) =
      .found (ts.map fun t => t.name.token) (skipParentheses rest) := by
  have hread : ∀ (t : Written.Token) rest,
      token (t.text ++ rest) = .found t.name.token (skipParentheses rest) →
        token (t.text ++ rest) = .found t.name.token (skipParentheses rest) := fun _ _ h => h
  exact separated_intercalate progresses_token hread (fun cs => skipParentheses_cons rfl cs) ts hne
    rest (fun t ht cs => token_text (hfits t ht) (endsToken_bar t cs)) hlast hrest

/-- The tokens of a segment end where its fields begin. -/
lemma separated_bodyText (hfits : ∀ t ∈ w.tokens, t.name.Fits) (hapart : w.LevelApart)
    (hne : w.tokens ≠ []) :
    separated token progresses_token '|' (bodyText w) =
      .found w.segment.tokens (skipParentheses (w.fields.flatMap Written.Field.text)) :=
  separated_tokens hne hfits
    (fun t ht => token_text (hfits t (List.mem_of_mem_getLast? ht))
      (endsToken_flatMap fun hword n => hapart t n ht hword))
    (head_skipParentheses_flatMap w.fields (by decide))

/-- The tokens are read, and what is left has the readings of the fields. -/
theorem tokens_bodyText (hfits : w.Fits) (hapart : w.LevelApart) {cs : List Char}
    (hcs : skipParentheses cs = skipParentheses (bodyText w)) :
    ∃ rest, tokens cs = .ok (w.segment.tokens, rest) ∧ fields rest = .ok w.segment.fields := by
  have hfields : fields (w.fields.flatMap Written.Field.text) = .ok w.segment.fields := by
    have h := fields_flatMap hfits.2 (stops_nil _)
    rw [List.append_nil] at h
    rw [h, fields]
    simp [Except.map, Written.segment]
  by_cases hne : w.tokens = []
  · have htext : skipParentheses cs = skipParentheses (w.fields.flatMap Written.Field.text) := by
      rw [hcs, bodyText, hne]
      rfl
    have habsent : separated token progresses_token '|' cs = .absent := by
      rw [separated_token_congr htext, separated, token_flatMap hfits.2]
    refine ⟨cs, ?_, ?_⟩
    · rw [tokens, habsent, Written.segment, hne]
      rfl
    · rw [← fields_skipParentheses, htext, fields_skipParentheses, hfields]
  · have hfound := separated_bodyText hfits.1 hapart hne
    refine ⟨skipParentheses (w.fields.flatMap Written.Field.text), ?_, ?_⟩
    · rw [tokens, separated_token_congr hcs, hfound]
    · rw [fields_skipParentheses, hfields]

lemma negation_eq_false {cs : List Char} (h : cs.head? ≠ some '!') : negation cs = (false, cs) := by
  unfold negation
  split
  next => exact absurd rfl h
  next => rfl

lemma head_skipParentheses_bodyText (w : Written) :
    (skipParentheses (bodyText w)).head? ≠ some '!' := by
  unfold bodyText
  cases htokens : w.tokens with
  | nil => exact head_skipParentheses_flatMap w.fields (by decide)
  | cons t ts =>
    obtain ⟨c, cs, hc, hstart⟩ := t.name.exists_cons
    have hne : c ≠ '!' := by
      rintro rfl
      exact absurd hstart (by decide)
    rw [List.map_cons, intercalate_eq_flatMap, Written.Token.text]
    simp only [List.append_assoc]
    rw [skipParentheses_marks, hc, List.cons_append,
      skipParentheses_cons (isParenthesis_of_isStart hstart)]
    simpa using hne

/-- Behind its opening and its mark of negation a segment goes on with its tokens. -/
lemma exists_negation_text (w : Written) :
    ∃ body, negation (skipParentheses w.text) = (w.negated, body) ∧
      skipParentheses body = skipParentheses (bodyText w) := by
  have htext : w.text = w.opening.marks ++ ((if w.negated then ['!'] else []) ++ bodyText w) := by
    simp [Written.text, bodyText]
  rw [htext, skipParentheses_marks]
  cases w.negated with
  | true => exact ⟨bodyText w, rfl, rfl⟩
  | false =>
    exact ⟨skipParentheses (bodyText w), negation_eq_false (head_skipParentheses_bodyText w),
      skipParentheses_skipParentheses _⟩

/-- Reading a written segment gives back what it says. -/
theorem read_text (hfits : w.Fits) (hapart : w.LevelApart) : read w.text = .ok w.segment := by
  obtain ⟨body, hnegation, hbody⟩ := exists_negation_text w
  obtain ⟨rest, htokens, hfields⟩ := tokens_bodyText hfits hapart hbody
  unfold read
  simp only [hnegation, htokens, hfields]
  rfl

end FleetComposition.Segment.Reader
