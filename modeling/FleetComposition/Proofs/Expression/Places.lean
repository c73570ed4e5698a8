import FleetComposition.Proofs.Expression.Spelling

/-!
# Places in an expression

Positions count the bytes of an expression as it is given. Segments are read at their
own places, so an expression behind a text is read as on its own, only later, and a
list of segments is read like its parts one after the other. Blanks in front of an
expression are those in front of its first segment; only the blanks at its end are
passed over.
-/
namespace FleetComposition

open Text

/-! ## Bytes and characters -/

namespace Text

lemma byteLength_eq_utf8ByteSize (cs : List Char) :
    byteLength cs = (String.ofList cs).utf8ByteSize := by
  induction cs with
  | nil => rfl
  | cons c cs ih =>
    have hsplit : String.ofList (c :: cs) = String.singleton c ++ String.ofList cs := by
      rw [← String.toList_inj, String.toList_append]
      simp
    rw [byteLength_cons, ih, hsplit, String.utf8ByteSize_append, String.utf8ByteSize_singleton]

lemma byteLength_toList (s : String) : byteLength s.toList = s.utf8ByteSize := by
  rw [byteLength_eq_utf8ByteSize, String.ofList_toList]

/-- The position behind whole characters lies between characters. -/
lemma isValid_byteLength {s : String} {before after : List Char}
    (h : s.toList = before ++ after) : (⟨byteLength before⟩ : String.Pos.Raw).IsValid s := by
  refine String.Pos.Raw.isValid_iff_exists_append.mpr
    ⟨String.ofList before, String.ofList after, ?_, ?_⟩
  · rw [← String.ofList_append, ← h, String.ofList_toList]
  · rw [byteLength_eq_utf8ByteSize]
    rfl

end Text

/-! ## Segments and their separators -/

/-- The text of segments with a separator behind each of them. -/
def closedText (raws : List (List Char)) : List Char := raws.flatMap (· ++ [separator])

/-- The text of segments with a separator in front of each of them. -/
def openedText (raws : List (List Char)) : List Char := raws.flatMap (separator :: ·)

lemma closedText_splitOn (cs : List Char) :
    closedText (cs.splitOn separator) = cs ++ [separator] := by
  induction cs with
  | nil => rfl
  | cons c cs ih =>
    rw [List.splitOn_cons_eq_if_modifyHead]
    split
    next hc =>
      rw [closedText, List.flatMap_cons, ← closedText, ih, beq_iff_eq.mp hc]
      rfl
    next =>
      obtain ⟨head, tail, hsplit⟩ := List.exists_cons_of_ne_nil (List.splitOn_ne_nil separator cs)
      rw [hsplit, closedText, List.flatMap_cons] at ih
      rw [hsplit, List.modifyHead_cons, closedText, List.flatMap_cons, List.cons_append,
        List.cons_append, ih]
      rfl

lemma separator_cons_closedText (raws : List (List Char)) :
    separator :: closedText raws = openedText raws ++ [separator] := by
  induction raws with
  | nil => rfl
  | cons raw raws ih =>
    rw [closedText, List.flatMap_cons, ← closedText, List.append_assoc, List.singleton_append, ih]
    simp [openedText]

/-- The text around one of the segments of a text. -/
lemma eq_of_splitOn_eq {cs raw : List Char} {done later : List (List Char)}
    (h : cs.splitOn separator = done ++ raw :: later) :
    cs = closedText done ++ (raw ++ openedText later) := by
  have hclosed := closedText_splitOn cs
  rw [h, closedText, List.flatMap_append, List.flatMap_cons, ← closedText, ← closedText,
    List.append_assoc, List.singleton_append, separator_cons_closedText, ← List.append_assoc,
    ← List.append_assoc] at hclosed
  rw [← List.append_assoc]
  exact (List.append_cancel_right hclosed).symm

lemma splitOn_append_separator (cs ds : List Char) :
    (cs ++ separator :: ds).splitOn separator = cs.splitOn separator ++ ds.splitOn separator := by
  induction cs with
  | nil => simp [List.splitOn_cons_eq_if_modifyHead]
  | cons c cs ih =>
    rw [List.cons_append, List.splitOn_cons_eq_if_modifyHead, List.splitOn_cons_eq_if_modifyHead,
      ih]
    split
    next => rfl
    next =>
      obtain ⟨head, tail, hsplit⟩ := List.exists_cons_of_ne_nil (List.splitOn_ne_nil separator cs)
      rw [hsplit]
      rfl

/-! ## Errors at a later place -/

/-- The same error a number of bytes later. -/
def Error.later (n : Nat) : Error → Error
  | .malformed position reason => .malformed (n + position) reason
  | .invalidQuantity min max => .invalidQuantity min max
  | .unsupportedLanguage tag => .unsupportedLanguage tag

/-- Once a segment is read, nothing but its quantity can be wrong. -/
lemma Segment.requirement_cases (s : Segment) :
    (∃ r, s.requirement = .ok r) ∨
      ∃ min max, s.requirement = .error (.invalidQuantity min max) := by
  unfold Segment.requirement
  simp only
  split
  next =>
    split
    next => exact .inr ⟨_, _, rfl⟩
    next => exact .inl ⟨_, rfl⟩
  next => exact .inl ⟨_, rfl⟩

/-- The rules of a segment know no places. -/
lemma Segment.mapError_requirement (s : Segment) (n : Nat) :
    s.requirement.mapError (Error.later n) = s.requirement := by
  obtain ⟨r, hr⟩ | ⟨min, max, he⟩ := s.requirement_cases
  · rw [hr]
    rfl
  · rw [he]
    rfl

theorem requirementAt_add (n offset : Nat) (raw : List Char) :
    requirementAt (n + offset) raw = (requirementAt offset raw).mapError (Error.later n) := by
  unfold requirementAt
  simp only [Nat.add_assoc]
  split
  next => rfl
  next =>
    split
    next s _ => exact (s.mapError_requirement n).symm
    next => rfl

/-- Blanks behind a segment that is not blank do not matter. -/
lemma requirementAt_append_blanks {raw blanks : List Char} (hne : trim raw ≠ [])
    (hblanks : ∀ c ∈ blanks, isBlank c) (offset : Nat) :
    requirementAt offset (raw ++ blanks) = requirementAt offset raw := by
  have hstart : (raw ++ blanks).takeWhile isBlank = raw.takeWhile isBlank := by
    rw [List.takeWhile_append, if_neg]
    intro hlength
    have hall : raw.takeWhile isBlank = raw := (List.takeWhile_prefix isBlank).eq_of_length hlength
    exact hne (trim_eq_nil_iff.mpr (List.takeWhile_eq_self_iff.mp hall))
  unfold requirementAt
  rw [hstart, trim_append_right hblanks]

/-- Blanks in front of a segment put it at a later place. -/
lemma requirementAt_blanks_append {blanks : List Char} (hblanks : ∀ c ∈ blanks, isBlank c)
    (offset : Nat) (raw : List Char) :
    requirementAt offset (blanks ++ raw) = requirementAt (offset + byteLength blanks) raw := by
  unfold requirementAt
  rw [List.takeWhile_append_of_pos hblanks, trim_append_left hblanks, byteLength_append,
    Nat.add_assoc]

/-! ## Lists of segments -/

variable {offset : Nat} {raws : List (List Char)}

lemma requirementsFrom_cons (offset : Nat) (raw : List Char) (raws : List (List Char)) :
    requirementsFrom offset (raw :: raws) =
      (requirementAt offset raw).bind fun r =>
        (requirementsFrom (offset + byteLength (raw ++ [separator])) raws).map (r :: ·) := by
  rw [requirementsFrom, byteLength_append, byteLength_cons, byteLength_nil, Nat.add_zero,
    ← Nat.add_assoc]
  cases requirementAt offset raw with
  | error e => rfl
  | ok r =>
    cases requirementsFrom (offset + byteLength raw + separator.utf8Size) raws <;>
      simp only [Except.bind, Except.map] <;> rfl

theorem requirementsFrom_append (offset : Nat) (raws others : List (List Char)) :
    requirementsFrom offset (raws ++ others) =
      (requirementsFrom offset raws).bind fun rs =>
        (requirementsFrom (offset + byteLength (closedText raws)) others).map (rs ++ ·) := by
  induction raws generalizing offset with
  | nil =>
    cases h : requirementsFrom offset others <;>
      simp [requirementsFrom, closedText, Except.bind, Except.map, h]
  | cons raw raws ih =>
    have hplace : offset + byteLength (closedText (raw :: raws)) =
        offset + byteLength (raw ++ [separator]) + byteLength (closedText raws) := by
      rw [closedText, List.flatMap_cons, ← closedText, byteLength_append, Nat.add_assoc]
    rw [List.cons_append, requirementsFrom_cons, requirementsFrom_cons, hplace]
    cases requirementAt offset raw with
    | error e => rfl
    | ok r =>
      simp only [Except.bind, ih]
      cases requirementsFrom (offset + byteLength (raw ++ [separator])) raws with
      | error e => rfl
      | ok rs =>
        simp only [Except.map]
        cases requirementsFrom _ others <;> rfl

theorem requirementsFrom_add (n offset : Nat) (raws : List (List Char)) :
    requirementsFrom (n + offset) raws =
      (requirementsFrom offset raws).mapError (Error.later n) := by
  induction raws generalizing offset with
  | nil => rfl
  | cons raw raws ih =>
    rw [requirementsFrom_cons, requirementsFrom_cons, requirementAt_add, Nat.add_assoc, ih]
    cases requirementAt offset raw with
    | error e => rfl
    | ok r =>
      simp only [Except.mapError, Except.bind]
      cases requirementsFrom (offset + byteLength (raw ++ [separator])) raws <;> rfl

/-- An error in a list of segments is the error of one of them at its own place. -/
theorem exists_of_requirementsFrom_eq_error {e : Error}
    (h : requirementsFrom offset raws = .error e) :
    ∃ done raw later, raws = done ++ raw :: later ∧
      requirementAt (offset + byteLength (closedText done)) raw = .error e := by
  induction raws generalizing offset with
  | nil => cases h
  | cons raw raws ih =>
    rw [requirementsFrom_cons] at h
    cases hraw : requirementAt offset raw with
    | error e' =>
      rw [hraw] at h
      cases h
      exact ⟨[], raw, raws, rfl, hraw⟩
    | ok r =>
      cases hrest : requirementsFrom (offset + byteLength (raw ++ [separator])) raws with
      | ok rs =>
        rw [hraw] at h
        simp only [Except.bind, hrest] at h
        cases h
      | error e' =>
        rw [hraw] at h
        simp only [Except.bind, hrest] at h
        cases h
        obtain ⟨done, raw', later, rfl, hraw'⟩ := ih hrest
        refine ⟨raw :: done, raw', later, rfl, ?_⟩
        rw [closedText, List.flatMap_cons, ← closedText, byteLength_append, ← Nat.add_assoc]
        exact hraw'

lemma requirements_of_blank {text : String} (h : trim text.toList = []) :
    requirements text = .error (.malformed 0 .emptyExpression) := by
  rw [requirements, if_pos (by simpa using h)]

/-- Only the blanks at the end of an expression are passed over. Those at its start
belong to the first segment. -/
theorem requirements_eq_requirementsFrom {text : String} (hne : trim text.toList ≠ []) :
    requirements text = requirementsFrom 0 ((trimEnd text.toList).splitOn separator) := by
  have hblanks : ∀ c ∈ text.toList.takeWhile isBlank, isBlank c :=
    fun c hc => List.mem_takeWhile_imp hc
  have hbody : trimEnd text.toList = text.toList.takeWhile isBlank ++ trim text.toList := by
    have htext : text.toList.takeWhile isBlank ++ trimStart text.toList = text.toList :=
      List.takeWhile_append_dropWhile
    rw [trim, ← trimEnd_append_of_ne_nil hne, htext]
  obtain ⟨head, tail, hsplit⟩ :=
    List.exists_cons_of_ne_nil (List.splitOn_ne_nil separator (trim text.toList))
  rw [requirements, if_neg (by simpa using hne), hbody,
    splitOn_append_left (separator_not_mem_of_isBlank hblanks), hsplit, List.modifyHead_cons,
    requirementsFrom_cons, requirementsFrom_cons, requirementAt_blanks_append hblanks,
    Nat.zero_add, List.append_assoc, byteLength_append (text.toList.takeWhile isBlank),
    Nat.zero_add]

end FleetComposition
