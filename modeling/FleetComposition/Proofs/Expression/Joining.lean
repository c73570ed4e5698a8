import FleetComposition.Proofs.Expression.Places
import FleetComposition.Proofs.Text.Run

/-!
# Joined expressions

Two expressions with a separator between them are read one after the other. The first
one keeps its errors if they lie in what is written, and those of the second one stand
as much later as the first one is long, with its separator. A blank text behind the
separator is a segment that says nothing.
-/
namespace FleetComposition

open Text

/-- The error lies in what a segment says, and not in a segment that says nothing. -/
def Error.OfContent : Error → Prop
  | .malformed _ (.numberOutOfRange _) => True
  | .malformed _ (.missingShipId _) => True
  | .invalidQuantity _ _ => True
  | _ => False

variable {text : String}

lemma trim_ne_nil_of_ok {rs : List Requirement} (h : requirements text = .ok rs) :
    trim text.toList ≠ [] := by
  intro hblank
  rw [requirements_of_blank hblank] at h
  cases h

lemma trim_ne_nil_of_ofContent {e : Error} (h : requirements text = .error e)
    (he : e.OfContent) : trim text.toList ≠ [] := by
  intro hblank
  rw [requirements_of_blank hblank] at h
  cases h
  exact he

/-- The blanks around an expression that can be read do not matter to its segments. -/
lemma requirementsFrom_splitOn_of_ok {rs : List Requirement} (h : requirements text = .ok rs)
    (offset : Nat) : requirementsFrom offset (text.toList.splitOn separator) = .ok rs := by
  have hstates := requirements_eq_ok_iff_trimmedSegments.mp h
  rw [trimmedSegments, map_trim_splitOn_trim, forall₂_states_map_trim] at hstates
  exact requirementsFrom_eq_ok_iff.mpr hstates

lemma trim_ne_nil_of_requirementAt {offset : Nat} {raw : List Char} {e : Error}
    (h : requirementAt offset raw = .error e) (he : e.OfContent) : trim raw ≠ [] := by
  intro hblank
  rw [requirementAt, hblank] at h
  cases h
  exact he

/-- The blanks behind an expression do not matter to an error that lies in what is
written. -/
lemma requirementsFrom_splitOn_of_error {e : Error} (h : requirements text = .error e)
    (he : e.OfContent) : requirementsFrom 0 (text.toList.splitOn separator) = .error e := by
  rw [requirements_eq_requirementsFrom (trim_ne_nil_of_ofContent h he)] at h
  have hback : ∀ c ∈ text.toList.rtakeWhile isBlank, isBlank c :=
    fun c hc => List.mem_rtakeWhile_imp hc
  obtain ⟨before, last, hsplit, hsplit'⟩ :=
    exists_splitOn_append_right (separator_not_mem_of_isBlank hback) (trimEnd text.toList)
  rw [trimEnd_append_rtakeWhile] at hsplit'
  rw [hsplit, requirementsFrom_append] at h
  rw [hsplit', requirementsFrom_append]
  cases hbefore : requirementsFrom 0 before with
  | error e' => rwa [hbefore] at h
  | ok rs =>
    rw [hbefore] at h
    simp only [Except.bind, requirementsFrom_cons] at h ⊢
    cases hlast : requirementAt (0 + byteLength (closedText before)) last with
    | ok r =>
      rw [hlast] at h
      cases h
    | error e' =>
      rw [hlast] at h
      cases h
      rw [requirementAt_append_blanks (trim_ne_nil_of_requirementAt hlast he) hback, hlast]
      rfl

lemma toList_append_separator (a b : String) :
    (a ++ "-" ++ b).toList = a.toList ++ separator :: b.toList := by
  simp [separator]

/-- The segments of a joined expression are those of its parts. -/
lemma requirements_append (a b : String) :
    requirements (a ++ "-" ++ b) =
      (requirementsFrom 0 (a.toList.splitOn separator)).bind fun rs =>
        (requirementsFrom (a.utf8ByteSize + 1) ((trimEnd b.toList).splitOn separator)).map
          (rs ++ ·) := by
  have hne : trim (a ++ "-" ++ b).toList ≠ [] := by
    intro hblank
    have hmem : separator ∈ (a ++ "-" ++ b).toList := by
      rw [toList_append_separator]
      exact List.mem_append_right _ List.mem_cons_self
    exact absurd (trim_eq_nil_iff.mp hblank separator hmem) (by decide)
  have hlength : byteLength (closedText (a.toList.splitOn separator)) = a.utf8ByteSize + 1 := by
    rw [closedText_splitOn, byteLength_append, byteLength_toList]
    rfl
  rw [requirements_eq_requirementsFrom hne, toList_append_separator,
    trimEnd_append_cons (by decide), splitOn_append_separator, requirementsFrom_append, hlength,
    Nat.zero_add]

lemma trimmedSegments_append (a b : String) :
    trimmedSegments (a ++ "-" ++ b) = trimmedSegments a ++ trimmedSegments b := by
  simp only [trimmedSegments, map_trim_splitOn_trim, toList_append_separator,
    splitOn_append_separator, List.map_append]

/-- Two expressions that can be read can be read together. -/
lemma requirements_append_of_ok {a b : String} {ra rb : List Requirement}
    (ha : requirements a = .ok ra) (hb : requirements b = .ok rb) :
    requirements (a ++ "-" ++ b) = .ok (ra ++ rb) := by
  rw [requirements_eq_ok_iff_trimmedSegments] at ha hb ⊢
  rw [trimmedSegments_append]
  exact List.rel_append ha hb

/-- Joining commutes with reading. If the first part can be read, the result is that of
both parts, with the errors of the second one at their later places, and a blank second
part is an empty segment. If the first part has an error in what it says, it keeps it. -/
theorem requirements_append_separator (a b : String) :
    (∀ ra rb, requirements a = .ok ra → requirements b = .ok rb →
      requirements (a ++ "-" ++ b) = .ok (ra ++ rb)) ∧
    (∀ ra e, requirements a = .ok ra → (¬∀ c ∈ b.toList, isBlank c) → requirements b = .error e →
      requirements (a ++ "-" ++ b) = .error (e.later (a.utf8ByteSize + 1))) ∧
    (∀ ra, requirements a = .ok ra → (∀ c ∈ b.toList, isBlank c) →
      requirements (a ++ "-" ++ b) = .error (.malformed (a.utf8ByteSize + 1) .emptySegment)) ∧
    ∀ e, requirements a = .error e → e.OfContent → requirements (a ++ "-" ++ b) = .error e := by
  have hsecond : trim b.toList ≠ [] →
      requirementsFrom (a.utf8ByteSize + 1) ((trimEnd b.toList).splitOn separator) =
        (requirements b).mapError (Error.later (a.utf8ByteSize + 1)) := fun hne => by
    rw [requirements_eq_requirementsFrom hne, ← requirementsFrom_add, Nat.add_zero]
  refine ⟨fun ra rb ha hb => ?_, fun ra e ha hblank hb => ?_, fun ra ha hblank => ?_,
    fun e ha he => ?_⟩
  · rw [requirements_append, requirementsFrom_splitOn_of_ok ha, hsecond (trim_ne_nil_of_ok hb), hb]
    rfl
  · have hne : trim b.toList ≠ [] := fun hnil => hblank (trim_eq_nil_iff.mp hnil)
    rw [requirements_append, requirementsFrom_splitOn_of_ok ha, hsecond hne, hb]
    rfl
  · have hend : trimEnd b.toList = [] := List.rdropWhile_eq_nil_iff.mpr hblank
    rw [requirements_append, requirementsFrom_splitOn_of_ok ha, hend]
    rfl
  · rw [requirements_append, requirementsFrom_splitOn_of_error ha he]
    rfl

/-- The first segment of the second part is empty wherever it stands, and a mark without
a number keeps its place whatever follows. -/
theorem requirements_append_separator_misplaced :
    let twice : Requirement := ⟨[.code "é"], .exactly 2, .empty, 0, false⟩
    let once : Requirement := ⟨[.code "CL"], .one, .empty, 0, false⟩
    requirements " é\x7b2\x7d " = .ok [twice] ∧ requirements "CL" = .ok [once] ∧
      requirements (" é\x7b2\x7d " ++ "-" ++ "CL") = .ok ([twice] ++ [once]) ∧
      requirements "\u3000-#x" = .error (.malformed 3 .emptySegment) ∧
      requirements (" é\x7b2\x7d " ++ "-" ++ "\u3000-#x") = .error (.malformed 11 .emptySegment) ∧
      requirements (" é\x7b2\x7d " ++ "-" ++ "\u3000") = .error (.malformed 8 .emptySegment) ∧
      requirements "DD-@\x7b2\x7d " = .error (.malformed 4 (.missingShipId "\x7b2\x7d")) ∧
      requirements ("DD-@\x7b2\x7d " ++ "-" ++ "") =
        .error (.malformed 4 (.missingShipId "\x7b2\x7d")) := by
  intro twice once
  have ha : requirements " é\x7b2\x7d " = .ok [twice] := by decide +kernel
  have hb : requirements "CL" = .ok [once] := by decide +kernel
  have hempty : requirements "\u3000-#x" = .error (.malformed 3 .emptySegment) := by
    decide +kernel
  have hfault : requirements "DD-@\x7b2\x7d " =
      .error (.malformed 4 (.missingShipId "\x7b2\x7d")) := by decide +kernel
  have hstated : ¬∀ c ∈ "\u3000-#x".toList, isBlank c := fun h =>
    absurd (h '#' (by decide)) (by decide)
  have hblank : ∀ c ∈ "\u3000".toList, isBlank c := forall_mem_of_all (by decide)
  obtain ⟨hboth, -, -, -⟩ := requirements_append_separator " é\x7b2\x7d " "CL"
  obtain ⟨-, hlater, -, -⟩ := requirements_append_separator " é\x7b2\x7d " "\u3000-#x"
  obtain ⟨-, -, hend, -⟩ := requirements_append_separator " é\x7b2\x7d " "\u3000"
  obtain ⟨-, -, -, hkept⟩ := requirements_append_separator "DD-@\x7b2\x7d " ""
  exact ⟨ha, hb, hboth _ _ ha hb, hempty, hlater _ _ ha hstated hempty, hend _ ha hblank, hfault,
    hkept _ hfault trivial⟩

end FleetComposition
