import FleetComposition.Proofs.Text.Run
import FleetComposition.Segment.Grammar
import Mathlib.Data.List.Infix

/-!
# Where faults stand

A reader leaves an end of the text it is given, and so a fault that it meets stands in
that text. Only two things can be wrong, and both are found right behind a mark that
calls for a number: digits that amount to too much, or no digits at all.
-/
namespace FleetComposition.Segment

open Text

/-- The marks behind which a number is looked for. -/
def numberMarks : List Char := ['@', '#', '{', ',', '[', '>']

/-- The marks of classes and ships, which mean nothing without a number. -/
def idMarks : List Char := ['@', '#']

namespace Fault

/-- The marks behind which the fault can stand. -/
def marks : Fault → List Char
  | numberOutOfRange _ => numberMarks
  | missingShipId _ => idMarks

/-- The rest of the text begins with what the fault says. -/
def Due : Fault → Prop
  | numberOutOfRange rest => UInt32.size ≤ numeralValue (rest.takeWhile Char.isDigit)
  | missingShipId rest => Stops Char.isDigit rest

/-- The text has one of the marks with the fault right behind it. -/
def StandsIn (e : Fault) (cs : List Char) : Prop :=
  e.Due ∧ ∃ before, ∃ mark ∈ e.marks, cs = before ++ mark :: e.rest

lemma StandsIn.mono {e : Fault} {cs ds : List Char} (h : e.StandsIn ds) (hds : ds <:+ cs) :
    e.StandsIn cs := by
  obtain ⟨hdue, before, mark, hmark, rfl⟩ := h
  obtain ⟨front, rfl⟩ := hds
  exact ⟨hdue, front ++ before, mark, hmark, (List.append_assoc front before _).symm⟩

end Fault

namespace Reading

variable {α β : Type} {r other : Reading α} {cs ds : List Char}

/-- The reading is about an end of the text: what it leaves is one, and a fault stands
in the text. -/
def Within (cs : List Char) : Reading α → Prop
  | found _ rest => rest <:+ cs
  | absent => True
  | fault e => e.StandsIn cs

lemma Within.mono (h : r.Within ds) (hds : ds <:+ cs) : r.Within cs := by
  cases r with
  | found a rest => exact List.IsSuffix.trans h hds
  | absent => trivial
  | fault e => exact Fault.StandsIn.mono h hds

lemma Within.map (h : r.Within cs) (f : α → β) : (r.map f).Within cs := by
  cases r with
  | found a rest => exact h
  | absent => trivial
  | fault e => exact h

lemma Within.andThen {next : α → Reader β} (h : r.Within cs)
    (hnext : ∀ a rest, (next a rest).Within rest) : (r.andThen next).Within cs := by
  cases r with
  | found a rest => exact (hnext a rest).mono h
  | absent => trivial
  | fault e => exact h

/-- Something else is tried only where nothing was found. -/
lemma Within.orElse (h : r.Within cs) (hother : r = absent → other.Within cs) :
    (r.orElse other).Within cs := by
  cases r with
  | found a rest => exact h
  | absent => exact hother rfl
  | fault e => exact h

end Reading

namespace Reader

open Reading (Within)

variable {cs : List Char} {mark : Char}

/-! ## Numbers and tokens -/

lemma size_le_of_word? {digits : List Char} (h : word? digits = none) :
    UInt32.size ≤ numeralValue digits := by
  unfold word? at h
  split at h
  next => cases h
  next hsize => exact Nat.le_of_not_lt hsize

theorem within_number (hmark : mark ∈ numberMarks) (cs : List Char) :
    (number cs).Within (mark :: cs) := by
  unfold number
  split
  next => trivial
  next digits _ =>
    split
    next => exact (List.dropWhile_suffix _).trans (List.suffix_cons mark cs)
    next hword => exact ⟨size_le_of_word? hword, [], mark, hmark, rfl⟩

lemma stops_of_number (h : number cs = .absent) : Stops Char.isDigit cs := by
  intro c hc
  unfold number at h
  split at h
  next hdigits =>
    obtain ⟨rest, rfl⟩ : ∃ rest, cs = c :: rest := List.head?_eq_some_iff.mp hc
    by_contra hdigit
    rw [List.takeWhile_cons_of_pos (by simpa using hdigit)] at hdigits
    cases hdigits
  next =>
    split at h
    next => cases h
    next => cases h

theorem within_level (cs : List Char) : (level cs).Within cs := by
  unfold level
  split
  next rest hbehind =>
    obtain rfl : cs = levelMark ++ rest := behind?_eq_some_iff.mp hbehind
    exact (within_number (by decide) rest).mono (List.suffix_append ['l', 'e', 'v', 'e', 'l'] _)
  next => trivial

theorem within_reference (hmark : mark ∈ idMarks) (cs : List Char) :
    (reference cs).Within (mark :: cs) :=
  (within_number (List.mem_append_left ['{', ',', '[', '>'] hmark) cs).orElse fun habsent =>
    ⟨stops_of_number habsent, [], mark, hmark, rfl⟩

theorem within_word (cs : List Char) : (word cs).Within cs := by
  unfold word
  split
  next => trivial
  next => exact List.dropWhile_suffix _

theorem within_bareToken (cs : List Char) : (bareToken cs).Within cs := by
  unfold bareToken
  split
  next rest => exact (within_reference (by decide) rest).map _
  next rest => exact (within_reference (by decide) rest).map _
  next => exact within_word _

theorem within_closedToken (cs : List Char) : (closedToken cs).Within cs := by
  have hlevel := within_level cs
  unfold closedToken
  split
  next => trivial
  next e hfault =>
    rw [hfault] at hlevel
    exact hlevel
  next => exact (within_bareToken cs).andThen fun t rest => List.dropWhile_suffix _

theorem within_token (cs : List Char) : (token cs).Within cs :=
  (within_closedToken _).mono (List.dropWhile_suffix _)

/-! ## Repetitions -/

section Repetition

variable {α : Type} {item : Reader α} {progress : item.Progresses} {separator : Char}

/-- The separator in front of an item counts as its mark. -/
theorem suffix_of_further (hitem : ∀ cs, (item cs).Within (separator :: cs)) {items : List α}
    {left : List Char} (h : further item progress separator cs = .ok (items, left)) :
    left <:+ cs := by
  fun_induction further item progress separator cs generalizing items left with
  | case1 => cases h; exact List.suffix_rfl
  | case2 behind a rest hfound more last hrec ih =>
    have hrest := hitem behind
    rw [hfound] at hrest
    cases h
    exact (ih hrec).trans hrest
  | case3 => cases h
  | case4 => cases h; exact List.suffix_rfl
  | case5 => cases h
  | case6 => cases h; exact List.suffix_rfl

theorem standsIn_of_further (hitem : ∀ cs, (item cs).Within (separator :: cs)) {e : Fault}
    (h : further item progress separator cs = .error e) : e.StandsIn cs := by
  fun_induction further item progress separator cs with
  | case1 => cases h
  | case2 => cases h
  | case3 behind a rest hfound e' hrec ih =>
    have hrest := hitem behind
    rw [hfound] at hrest
    cases h
    exact (ih hrec).mono hrest
  | case4 => cases h
  | case5 behind e' hfault =>
    have hrest := hitem behind
    rw [hfault] at hrest
    cases h
    exact hrest
  | case6 => cases h

theorem within_separated (hitem : ∀ cs, (item cs).Within (separator :: cs)) {ds : List Char}
    (hfirst : (item cs).Within ds) : (separated item progress separator cs).Within ds := by
  unfold separated
  split
  next a rest hfound =>
    rw [hfound] at hfirst
    split
    next items left hrec => exact (suffix_of_further hitem hrec).trans hfirst
    next e hrec => exact (standsIn_of_further hitem hrec).mono hfirst
  next => trivial
  next e hfault =>
    rw [hfault] at hfirst
    exact hfirst

end Repetition

/-! ## Fields -/

theorem within_closing {α : Type} (close : Char) (a : α) (cs : List Char) :
    (closing close a cs).Within cs := by
  unfold closing
  split
  next =>
    split
    next => exact List.suffix_cons _ _
    next => trivial
  next => trivial

theorem within_upperBound (min : UInt32) (cs : List Char) : (upperBound min cs).Within cs := by
  unfold upperBound
  split
  next rest =>
    exact ((within_number (by decide) rest).map _).orElse fun _ => List.suffix_cons _ rest
  next => exact List.suffix_rfl

theorem within_quantityField (cs : List Char) : (quantityField cs).Within cs := by
  unfold quantityField
  split
  next rest =>
    exact ((within_number (by decide) rest).andThen within_upperBound).andThen (within_closing _)
  next => trivial

theorem within_slotItem (hmark : mark ∈ ['[', ',']) (cs : List Char) :
    (slotItem cs).Within (mark :: cs) := by
  have hnumber : mark ∈ numberMarks := by
    simp only [numberMarks, List.mem_cons, List.not_mem_nil, or_false] at hmark ⊢
    tauto
  exact (((within_level cs).mono (List.suffix_cons mark cs)).map _).orElse fun _ =>
    (within_number hnumber cs).map _

theorem within_slotList (cs : List Char) : (slotList cs).Within cs := by
  unfold slotList
  split
  next rest =>
    exact (within_separated (within_slotItem (by decide))
      (within_slotItem (by decide) rest)).andThen (within_closing _)
  next => trivial

theorem within_star (cs : List Char) : (star cs).Within cs := by
  unfold star
  split
  next rest => exact List.suffix_cons _ rest
  next => trivial

theorem within_field (cs : List Char) : (field cs).Within cs :=
  (((within_quantityField cs).map _).orElse fun _ => (within_slotList cs).map _).orElse fun _ =>
    ((within_level cs).map _).orElse fun _ => within_star cs

theorem standsIn_of_fields {e : Fault} (h : fields cs = .error e) : e.StandsIn cs := by
  fun_induction fields cs with
  | case1 => cases h
  | case2 c cs f rest hfound ih =>
    have hrest := within_field (c :: cs)
    rw [hfound] at hrest
    cases hfields : fields rest with
    | ok fs => rw [hfields] at h; cases h
    | error e' =>
      rw [hfields] at h
      cases h
      exact (ih hfields).mono hrest
  | case3 c cs habsent ih => exact (ih h).mono (List.suffix_cons c cs)
  | case4 c cs e' hfault =>
    have hrest := within_field (c :: cs)
    rw [hfault] at hrest
    cases h
    exact hrest

/-! ## Segments -/

lemma within_tokens (cs : List Char) : (separated token progresses_token '|' cs).Within cs :=
  within_separated (fun cs => (within_token cs).mono (List.suffix_cons _ cs)) (within_token cs)

lemma suffix_of_tokens {ts : List ShipToken} {rest : List Char} (h : tokens cs = .ok (ts, rest)) :
    rest <:+ cs := by
  have hcs := within_tokens cs
  unfold tokens at h
  split at h
  next hfound => rw [hfound] at hcs; cases h; exact hcs
  next => cases h; exact List.suffix_rfl
  next => cases h

lemma standsIn_of_tokens {e : Fault} (h : tokens cs = .error e) : e.StandsIn cs := by
  have hcs := within_tokens cs
  unfold tokens at h
  split at h
  next => cases h
  next => cases h
  next hfault => rw [hfault] at hcs; cases h; exact hcs

lemma suffix_negation (cs : List Char) : (negation cs).2 <:+ cs := by
  unfold negation
  split
  next rest => exact List.suffix_cons _ rest
  next => exact List.suffix_rfl

end Reader

/-- A fault in a segment is justified by the text from the place where it stands, and
stands behind a mark. -/
theorem standsIn_of_read {cs : List Char} {e : Fault} (h : read cs = .error e) : e.StandsIn cs := by
  have hbody : (Reader.negation (Reader.skipParentheses cs)).2 <:+ cs :=
    (Reader.suffix_negation _).trans (List.dropWhile_suffix _)
  unfold read at h
  simp only at h
  split at h
  next ts rest htokens =>
    cases hfields : Reader.fields rest with
    | ok fs => rw [hfields] at h; cases h
    | error e' =>
      rw [hfields] at h
      cases h
      exact (Reader.standsIn_of_fields hfields).mono
        ((Reader.suffix_of_tokens htokens).trans hbody)
  next e' htokens =>
    cases h
    exact (Reader.standsIn_of_tokens htokens).mono hbody

end FleetComposition.Segment
