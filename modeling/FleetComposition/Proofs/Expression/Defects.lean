import FleetComposition.Proofs.Expression.Places
import FleetComposition.Proofs.Segment.Faults
import FleetComposition.Proofs.Text.Unambiguous

/-!
# Defects of an expression

The position of an error divides the expression in two. The message of a malformed
expression names one of four defects, and the two parts show it: nothing at all is
written, a segment is blank, the digits behind a mark amount to too much, or the mark
of a class or a ship has no digits. No other defect makes an expression malformed.
-/
namespace FleetComposition

open Text
open Segment (Fault)

/-! ## What is wrong where -/

/-- What can be wrong at a place in an expression. -/
inductive Defect where
  | blankExpression
  | blankSegment
  | largeNumber
  | missingNumber
  deriving DecidableEq, Repr

/-- No more of a segment follows: the text is at a separator or has nothing but blanks. -/
def EndsSegment (cs : List Char) : Prop := cs.head? = some separator ∨ ∀ c ∈ cs, isBlank c

/-- What is left of the segment at the start of the text, without blanks at its end. -/
def segmentRest (cs : List Char) : List Char := trimEnd (cs.takeWhile fun c => c ≠ separator)

namespace Defect

/-- How messages of the defect begin. -/
def opening : Defect → String
  | blankExpression => "empty expression"
  | blankSegment => "empty segment"
  | largeNumber => "number out of range at: '"
  | missingNumber => "expected ship id at: '"

/-- The message is that of the defect, and the text before and after its place shows
the defect. No more than 20 characters of the segment are quoted. -/
def Explains (before after : List Char) (message : String) : Defect → Prop
  | blankExpression =>
    message = "empty expression" ∧ before = [] ∧ ∀ c ∈ after, isBlank c
  | blankSegment =>
    message = "empty segment" ∧ (∀ c ∈ before.rtakeWhile fun c => c ≠ separator, isBlank c) ∧
      EndsSegment after
  | largeNumber =>
    message =
        "number out of range at: '" ++ String.ofList ((segmentRest after).take 20) ++ "'" ∧
      (∃ mark ∈ before.getLast?, mark ∈ ['@', '#', '{', ',', '[', '>']) ∧
      4294967295 < numeralValue (after.takeWhile Char.isDigit)
  | missingNumber =>
    message =
        "expected ship id at: '" ++ String.ofList ((segmentRest after).take 20) ++ "'" ∧
      (∃ mark ∈ before.getLast?, mark ∈ ['@', '#']) ∧
      (segmentRest after = [] ∨ ∃ c ∈ after.head?, c.isDigit = false)

lemma Explains.opening_prefix {before after : List Char} {message : String} {d : Defect}
    (h : d.Explains before after message) : d.opening.toList <+: message.toList := by
  cases d with
  | blankExpression => rw [h.1]; exact List.prefix_rfl
  | blankSegment => rw [h.1]; exact List.prefix_rfl
  | largeNumber =>
    rw [h.1, String.toList_append, String.toList_append, List.append_assoc]
    exact List.prefix_append _ _
  | missingNumber =>
    rw [h.1, String.toList_append, String.toList_append, List.append_assoc]
    exact List.prefix_append _ _

lemma apart_opening {d d' : Defect} (h : d ≠ d') : Apart d.opening.toList d'.opening.toList := by
  cases d <;> cases d' <;> first | exact absurd rfl h | decide

/-- The messages of different defects begin differently, so a message names one defect. -/
theorem Explains.unique {before after : List Char} {message : String} {d d' : Defect}
    (h : d.Explains before after message) (h' : d'.Explains before after message) : d' = d := by
  by_contra hne
  exact (apart_opening hne).not_start h.opening_prefix h'.opening_prefix

end Defect

/-! ## Ends of segments -/

section Ends

variable {rest tail back : List Char}

lemma isDigit_of_isBlank {c : Char} (h : isBlank c) : c.isDigit = false := by
  by_contra hdigit
  have hword := isWordChar_of_isDigit (c := c) (by simpa using hdigit)
  rw [isWordChar_of_isBlank h] at hword
  contradiction

lemma endsSegment_openedText (later : List (List Char)) (hback : ∀ c ∈ back, isBlank c) :
    EndsSegment (openedText later ++ back) := by
  cases later with
  | nil => exact .inr hback
  | cons raw raws => exact .inl rfl

lemma EndsSegment.isBlank_takeWhile (h : EndsSegment tail) :
    ∀ c ∈ tail.takeWhile fun c => c ≠ separator, isBlank c := by
  intro c hc
  rcases h with h | h
  · obtain ⟨cs, rfl⟩ := List.head?_eq_some_iff.mp h
    rw [List.takeWhile_cons_of_neg (by simp)] at hc
    cases hc
  · exact h c ((List.takeWhile_prefix _).subset hc)

lemma EndsSegment.stops_digit (h : EndsSegment tail) : Stops Char.isDigit tail := by
  intro c hc
  rcases h with h | h
  · rw [h] at hc
    obtain rfl := Option.some.inj hc
    decide
  · exact isDigit_of_isBlank (h c (List.mem_of_mem_head? hc))

lemma EndsSegment.segmentRest_append (h : EndsSegment tail) (hrest : separator ∉ rest) :
    segmentRest (rest ++ tail) = trimEnd rest := by
  have hall : ∀ c ∈ rest, decide (c ≠ separator) = true := by
    intro c hc
    have hne : c ≠ separator := fun heq => hrest (heq ▸ hc)
    simpa using hne
  rw [segmentRest, List.takeWhile_append_of_pos hall, trimEnd_append_blanks h.isBlank_takeWhile]

/-- A run of digits ends with the segment. -/
lemma takeWhile_digit_append (h : Stops Char.isDigit tail) (cs : List Char) :
    (cs ++ tail).takeWhile Char.isDigit = cs.takeWhile Char.isDigit := by
  rw [List.takeWhile_append]
  split
  next hlength =>
    rw [takeWhile_of_stops h, List.append_nil]
    exact ((List.takeWhile_prefix _).eq_of_length hlength).symm
  next => rfl

/-- Behind the last separator stands the text of the segment so far. -/
lemma rtakeWhile_closedText_append (done : List (List Char)) {front : List Char}
    (hfront : separator ∉ front) :
    (closedText done ++ front).rtakeWhile (fun c => c ≠ separator) = front := by
  have hall : ∀ c ∈ front.reverse, decide (c ≠ separator) = true := by
    intro c hc
    have hne : c ≠ separator := fun heq => hfront (heq ▸ List.mem_reverse.mp hc)
    simpa using hne
  have hstop : (closedText done).reverse.takeWhile (fun c => c ≠ separator) = [] := by
    rcases List.eq_nil_or_concat' done with rfl | ⟨before, raw, rfl⟩
    · rfl
    · simp [closedText]
  rw [List.rtakeWhile, List.reverse_append, List.takeWhile_append_of_pos hall, hstop,
    List.append_nil, List.reverse_reverse]

end Ends

/-! ## Defects of a segment -/

lemma Segment.requirement_ne_malformed (s : Segment) (p : Nat) (reason : Malformation) :
    s.requirement ≠ .error (.malformed p reason) := by
  obtain ⟨r, hr⟩ | ⟨min, max, he⟩ := s.requirement_cases
  · rw [hr]
    exact fun h => nomatch h
  · rw [he]
    exact fun h => nomatch h

lemma not_isBlank_of_mem_marks {e : Fault} {mark : Char} (h : mark ∈ e.marks) :
    isBlank mark = false := by
  have hmarks : ∀ c ∈ Segment.numberMarks, isBlank c = false := forall_mem_of_all (by decide)
  cases e with
  | numberOutOfRange rest => exact hmarks mark h
  | missingShipId rest => exact hmarks mark (List.mem_append_left ['{', ',', '[', '>'] h)

/-- The place of a defect in a segment: the end of a blank segment, or a fault behind
its mark. -/
theorem exists_of_requirementAt_eq_malformed {offset p : Nat} {raw : List Char}
    {reason : Malformation} (h : requirementAt offset raw = .error (.malformed p reason)) :
    (∀ c ∈ raw, isBlank c) ∧ p = offset + byteLength raw ∧ reason = .emptySegment ∨
      ∃ e : Fault, e.Due ∧ reason = e.malformation ∧ ∃ front, ∃ mark ∈ e.marks, ∃ blanks,
        raw = front ++ mark :: (e.rest ++ blanks) ∧ (∀ c ∈ blanks, isBlank c) ∧
        trimEnd e.rest = e.rest ∧ p = offset + byteLength (front ++ [mark]) := by
  by_cases hne : trim raw = []
  · have hblank := trim_eq_nil_iff.mp hne
    rw [requirementAt, hne, List.takeWhile_eq_self_iff.mpr hblank] at h
    cases h
    exact .inl ⟨hblank, rfl, rfl⟩
  · unfold requirementAt at h
    rw [if_neg (by simpa using hne)] at h
    cases hread : Segment.read (trim raw) with
    | ok s =>
      simp only [hread] at h
      exact absurd h (s.requirement_ne_malformed p reason)
    | error e =>
      simp only [hread] at h
      obtain ⟨hdue, before, mark, hmark, htrim⟩ := Segment.standsIn_of_read hread
      have hraw := takeWhile_append_trim_append raw
      have hend := (trimmed_trim raw).finish
      rw [htrim, trimEnd_append_cons (not_isBlank_of_mem_marks hmark)] at hend
      have hrest : trimEnd e.rest = e.rest := (List.cons.inj (List.append_cancel_left hend)).2
      refine .inr ⟨e, hdue, ?_, raw.takeWhile isBlank ++ before, mark, hmark,
        (trimStart raw).rtakeWhile isBlank, ?_, fun c hc => List.mem_rtakeWhile_imp hc, hrest, ?_⟩
      · cases h
        rfl
      · rw [htrim, List.append_assoc, List.cons_append] at hraw
        rw [List.append_assoc, hraw]
      · simp only [Except.error.injEq, Error.malformed.injEq, htrim, byteLength_append,
          byteLength_cons] at h
        simp only [byteLength_append, byteLength_cons, byteLength_nil]
        omega

/-! ## Defects of an expression -/

namespace Defect

/-- A fault in a segment shows in the text around it. -/
lemma exists_explains_of_fault {e : Fault} (hdue : e.Due) {mark : Char} (hmark : mark ∈ e.marks)
    (hend : trimEnd e.rest = e.rest) (hrest : separator ∉ e.rest) (before : List Char)
    {blanks tail : List Char} (hblanks : ∀ c ∈ blanks, isBlank c) (htail : EndsSegment tail) :
    ∃ d : Defect, d.Explains (before ++ [mark]) (e.rest ++ blanks ++ tail)
      e.malformation.message := by
  have hsegment : segmentRest (e.rest ++ blanks ++ tail) = e.rest := by
    have hsep : separator ∉ e.rest ++ blanks := fun hmem =>
      (List.mem_append.mp hmem).elim hrest (separator_not_mem_of_isBlank hblanks)
    rw [htail.segmentRest_append hsep, trimEnd_append_blanks hblanks, hend]
  have hlast : ∀ marks : List Char, mark ∈ marks →
      ∃ c ∈ (before ++ [mark]).getLast?, c ∈ marks := fun _ h => ⟨mark, by simp, h⟩
  have hstops : Stops Char.isDigit (blanks ++ tail) := by
    intro c hc
    rw [List.head?_append] at hc
    cases hblank : blanks.head? with
    | some b =>
      rw [hblank] at hc
      obtain rfl := Option.some.inj hc
      exact isDigit_of_isBlank (hblanks b (List.mem_of_mem_head? hblank))
    | none =>
      rw [hblank] at hc
      exact htail.stops_digit c hc
  cases e with
  | numberOutOfRange rest =>
    refine ⟨.largeNumber, ?_, hlast _ hmark, ?_⟩
    · rw [hsegment]
      rfl
    · rw [List.append_assoc, takeWhile_digit_append hstops]
      exact hdue
  | missingShipId rest =>
    refine ⟨.missingNumber, ?_, hlast _ hmark, ?_⟩
    · rw [hsegment]
      rfl
    · rw [hsegment]
      cases rest with
      | nil => exact .inl rfl
      | cons c cs => exact .inr ⟨c, rfl, (stops_cons Char.isDigit c cs).mp hdue⟩

/-- The first segment that cannot be read shows the defect, or all of the expression is
blank. -/
theorem exists_explains_of_malformed {text : String} {p : Nat} {reason : Malformation}
    (h : requirements text = .error (.malformed p reason)) :
    ∃ before after, text.toList = before ++ after ∧ byteLength before = p ∧
      ∃ d : Defect, d.Explains before after reason.message := by
  by_cases hne : trim text.toList = []
  · rw [requirements_of_blank hne] at h
    cases h
    exact ⟨[], text.toList, rfl, rfl, .blankExpression, rfl, rfl, trim_eq_nil_iff.mp hne⟩
  rw [requirements_eq_requirementsFrom hne] at h
  obtain ⟨done, raw, later, hsplit, hraw⟩ := exists_of_requirementsFrom_eq_error h
  have hsep : separator ∉ raw := not_mem_of_mem_splitOn (by rw [hsplit]; simp)
  obtain ⟨back, hback, htext⟩ : ∃ back, (∀ c ∈ back, isBlank c) ∧
      text.toList = closedText done ++ (raw ++ (openedText later ++ back)) := by
    refine ⟨text.toList.rtakeWhile isBlank, fun c hc => List.mem_rtakeWhile_imp hc, ?_⟩
    have hbody := trimEnd_append_rtakeWhile text.toList
    rw [eq_of_splitOn_eq hsplit] at hbody
    rw [← List.append_assoc raw, ← List.append_assoc, hbody]
  have htail : EndsSegment (openedText later ++ back) := endsSegment_openedText later hback
  rcases exists_of_requirementAt_eq_malformed hraw with ⟨hblank, rfl, rfl⟩ |
    ⟨e, hdue, rfl, front, mark, hmark, blanks, rfl, hblanks, hend, rfl⟩
  · refine ⟨closedText done ++ raw, _, by rw [htext, List.append_assoc], by simp, .blankSegment,
      rfl, ?_, htail⟩
    rw [rtakeWhile_closedText_append done hsep]
    exact hblank
  · have hrest : separator ∉ e.rest := fun hmem => hsep (by simp [hmem])
    refine ⟨closedText done ++ front ++ [mark], _, ?_, ?_,
      exists_explains_of_fault hdue hmark hend hrest _ hblanks htail⟩
    · rw [htext]
      simp only [List.append_assoc, List.cons_append, List.nil_append]
    · rw [List.append_assoc, byteLength_append, Nat.zero_add]

end Defect

/-- Wherever a malformed expression is at fault, the position lies between two of its
characters, and the text before and after it shows just the defect that the message
names. -/
theorem existsUnique_defect_of_malformed {text : String} {p : Nat} {reason : Malformation}
    (h : requirements text = .error (.malformed p reason)) :
    p ≤ text.utf8ByteSize ∧ (⟨p⟩ : String.Pos.Raw).IsValid text ∧
      ∃ before after, text.toList = before ++ after ∧ byteLength before = p ∧
        ∃! d : Defect, d.Explains before after reason.message := by
  obtain ⟨before, after, htext, rfl, d, hd⟩ := Defect.exists_explains_of_malformed h
  have hlength : byteLength before ≤ text.utf8ByteSize := by
    rw [← byteLength_toList, htext, byteLength_append]
    exact Nat.le_add_right _ _
  exact ⟨hlength, isValid_byteLength htext, before, after, htext, rfl, d, hd,
    fun d' hd' => hd.unique hd'⟩

/-- Behind two characters of three bytes a number is too large for its eleven digits. Of the
segment from there on 20 characters are quoted, whatever their bytes, and the blank segment
behind it is not reached. -/
theorem existsUnique_defect_of_malformed_multibyte :
    requirements " BB-\u3000長[0,99999999999,3000隻以上の艦隊] -" =
        .error (.malformed 13 (.numberOutOfRange "99999999999,3000隻以上の")) ∧
      ∃ before after,
        " BB-\u3000長[0,99999999999,3000隻以上の艦隊] -".toList = before ++ after ∧
        byteLength before = 13 ∧ ∃! d : Defect, d.Explains before after
          "number out of range at: '99999999999,3000隻以上の'" := by
  have h : requirements " BB-\u3000長[0,99999999999,3000隻以上の艦隊] -" =
      .error (.malformed 13 (.numberOutOfRange "99999999999,3000隻以上の")) := by decide +kernel
  obtain ⟨-, -, before, after, htext, hplace, hdefect⟩ := existsUnique_defect_of_malformed h
  exact ⟨h, before, after, htext, hplace, hdefect⟩

end FleetComposition
