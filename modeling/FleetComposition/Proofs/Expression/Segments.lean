import FleetComposition.Expression
import FleetComposition.Proofs.Text.Trimming
import Mathlib.Data.List.Forall2

/-!
# Expressions by segments

Whether an expression can be read, and what it demands, is decided segment by
segment. A segment counts only without the blanks around it, and its place in the
expression matters for the positions of errors alone.
-/
namespace FleetComposition

open Text

/-- The text of a segment, blanks around it included, states the requirement. -/
def States (raw : List Char) (r : Requirement) : Prop :=
  trim raw ≠ [] ∧ ∃ s, Segment.read (trim raw) = .ok s ∧ s.requirement = .ok r

lemma states_trim {raw : List Char} {r : Requirement} : States (trim raw) r ↔ States raw r := by
  rw [States, States, trim_trim]

lemma forall₂_states_map_trim {raws : List (List Char)} {rs : List Requirement} :
    List.Forall₂ States (raws.map trim) rs ↔ List.Forall₂ States raws rs := by
  rw [List.forall₂_map_left_iff]
  simp only [states_trim]

/-- Once a segment is read, its own rules decide, wherever it stands. -/
theorem requirementAt_of_read {raw : List Char} {s : Segment} (hne : trim raw ≠ [])
    (hread : Segment.read (trim raw) = .ok s) (offset : Nat) :
    requirementAt offset raw = s.requirement := by
  unfold requirementAt
  rw [if_neg (by simpa using hne)]
  simp only [hread]

theorem requirementAt_eq_ok_iff {offset : Nat} {raw : List Char} {r : Requirement} :
    requirementAt offset raw = .ok r ↔ States raw r := by
  constructor
  · intro h
    by_cases hne : trim raw = []
    · rw [requirementAt, hne] at h
      cases h
    · cases hread : Segment.read (trim raw) with
      | ok s => exact ⟨hne, s, hread, by rw [← requirementAt_of_read hne hread offset, h]⟩
      | error e =>
        rw [requirementAt, if_neg (by simpa using hne)] at h
        simp only [hread] at h
        cases h
  · rintro ⟨hne, s, hread, hs⟩
    rw [requirementAt_of_read hne hread, hs]

theorem requirementsFrom_eq_ok_iff {offset : Nat} {raws : List (List Char)}
    {rs : List Requirement} :
    requirementsFrom offset raws = .ok rs ↔ List.Forall₂ States raws rs := by
  induction raws generalizing offset rs with
  | nil => cases rs <;> simp [requirementsFrom]
  | cons raw raws ih =>
    have hstep : requirementsFrom offset (raw :: raws) =
        (requirementAt offset raw).bind fun r =>
          (requirementsFrom (offset + byteLength raw + separator.utf8Size) raws).bind fun rs =>
            .ok (r :: rs) := rfl
    constructor
    · intro h
      rw [hstep] at h
      cases hr : requirementAt offset raw with
      | error e => rw [hr] at h; cases h
      | ok r =>
        rw [hr] at h
        cases hrest : requirementsFrom (offset + byteLength raw + separator.utf8Size) raws with
        | error e => simp only [hrest, Except.bind] at h; cases h
        | ok rest =>
          simp only [hrest, Except.bind] at h
          obtain rfl := Except.ok.inj h
          exact .cons (requirementAt_eq_ok_iff.mp hr) (ih.mp hrest)
    · intro h
      cases h with
      | cons hr hrest =>
        rw [hstep, requirementAt_eq_ok_iff.mpr hr, Except.bind, ih.mpr hrest]
        rfl

/-- An expression can be read if and only if all its segments can. -/
theorem requirements_eq_ok_iff {text : String} {rs : List Requirement} :
    requirements text = .ok rs ↔
      List.Forall₂ States ((trim text.toList).splitOn separator) rs := by
  unfold requirements
  by_cases hbody : trim text.toList = []
  · rw [if_pos (by simpa using hbody), hbody, List.splitOn_nil]
    constructor
    · intro h
      cases h
    · intro h
      obtain ⟨r, -, ⟨hne, -⟩, -, -⟩ := List.forall₂_cons_left_iff.mp h
      exact absurd trim_nil hne
  · rw [if_neg (by simpa using hbody)]
    exact requirementsFrom_eq_ok_iff

lemma length_splitOn (c : Char) (cs : List Char) : (cs.splitOn c).length = cs.count c + 1 := by
  induction cs with
  | nil => simp
  | cons d cs ih =>
    rw [List.splitOn_cons_eq_if_modifyHead, List.count_cons]
    by_cases hd : d == c
    · rw [if_pos hd, if_pos hd, List.length_cons, ih]
    · rw [if_neg hd, if_neg hd, List.length_modifyHead, ih, Nat.add_zero]

/-- No segment holds a separator. -/
lemma not_mem_of_mem_splitOn {c : Char} {cs segment : List Char} (h : segment ∈ cs.splitOn c) :
    c ∉ segment := by
  induction cs generalizing segment with
  | nil =>
    obtain rfl : segment = [] := by simpa using h
    exact List.not_mem_nil
  | cons d cs ih =>
    rw [List.splitOn_cons_eq_if_modifyHead] at h
    by_cases hd : d == c
    · rw [if_pos hd] at h
      rcases List.mem_cons.mp h with rfl | h
      · exact List.not_mem_nil
      · exact ih h
    · obtain ⟨head, tail, hsplit⟩ := List.exists_cons_of_ne_nil (List.splitOn_ne_nil c cs)
      rw [if_neg hd, hsplit, List.modifyHead_cons] at h
      rcases List.mem_cons.mp h with rfl | h
      · have hne : c ≠ d := fun heq => hd (by simp [heq])
        have hhead : c ∉ head := ih (by simp [hsplit])
        simp [hne, hhead]
      · exact ih (by simp [hsplit, h])

/-- A text without a separator is a single segment. -/
theorem requirements_eq_of_read {text : String} {s : Segment} (hsep : separator ∉ text.toList)
    (hne : trim text.toList ≠ []) (hread : Segment.read (trim text.toList) = .ok s) :
    requirements text = s.requirement.map fun r => [r] := by
  have hsplit : (trim text.toList).splitOn separator = [trim text.toList] :=
    List.splitOn_eq_singleton fun h => hsep ((trim_sublist _).subset h)
  unfold requirements
  rw [if_neg (by simpa using hne), hsplit, requirementsFrom,
    requirementAt_of_read (by simpa using hne) (by simpa using hread)]
  cases s.requirement <;> rfl

end FleetComposition
