import FleetComposition.Proofs.Expression.Key

/-!
# Spellings of an expression

Texts with the same key are spellings of one expression. They are read alike, and
where one of them cannot be read the other cannot either, for the same reason. Only
the place of the error may differ. The key is itself such a spelling.
-/
namespace FleetComposition

open Text

/-! ## Errors up to their place -/

/-- Both attempts gave the same, or both failed for the same reason, though perhaps
at different places. -/
inductive Alike {α : Type} : Except Error α → Except Error α → Prop where
  | ok (a : α) : Alike (.ok a) (.ok a)
  | malformed (p q : Nat) (reason : Malformation) :
    Alike (.error (.malformed p reason)) (.error (.malformed q reason))
  | invalidQuantity (min max : UInt32) :
    Alike (.error (.invalidQuantity min max)) (.error (.invalidQuantity min max))

namespace Alike

variable {α β : Type}

lemma bind {x y : Except Error α} {f g : α → Except Error β} (hxy : Alike x y)
    (hfg : ∀ a, Alike (f a) (g a)) : Alike (x.bind f) (y.bind g) := by
  cases hxy with
  | ok a => exact hfg a
  | malformed p q reason => exact .malformed p q reason
  | invalidQuantity min max => exact .invalidQuantity min max

/-- The rules of a segment know no places. -/
lemma requirement (s : Segment) : Alike s.requirement s.requirement := by
  unfold Segment.requirement
  simp only
  split
  next =>
    split
    next => exact .invalidQuantity _ _
    next => exact .ok _
  next => exact .ok _

/-- Where a segment stands and which blanks surround it matters for places alone. -/
lemma requirementAt {raw other : List Char} (h : trim raw = trim other) (p q : Nat) :
    Alike (requirementAt p raw) (FleetComposition.requirementAt q other) := by
  unfold FleetComposition.requirementAt
  simp only [h]
  split
  next => exact .malformed _ _ _
  next =>
    split
    next s _ => exact requirement s
    next => exact .malformed _ _ _

lemma requirementsFrom {raws others : List (List Char)}
    (h : List.Forall₂ (fun raw other => trim raw = trim other) raws others) (p q : Nat) :
    Alike (requirementsFrom p raws) (FleetComposition.requirementsFrom q others) := by
  induction h generalizing p q with
  | nil => exact .ok []
  | cons hraw _ ih =>
    exact (requirementAt hraw p q).bind fun r => (ih _ _).bind fun rs => .ok (r :: rs)

end Alike

/-! ## Blanks at the ends of a text -/

/-- Text in front of all separators belongs to the first segment. -/
lemma splitOn_append_left {c : Char} {front : List Char} (hfront : c ∉ front) (cs : List Char) :
    (front ++ cs).splitOn c = (cs.splitOn c).modifyHead (front ++ ·) := by
  induction front with
  | nil => cases hsplit : cs.splitOn c <;> simp [hsplit]
  | cons d front ih =>
    have hd : ¬(d == c) = true := fun heq => hfront (by simp [beq_iff_eq.mp heq])
    rw [List.cons_append, List.splitOn_cons_eq_if_modifyHead, if_neg hd,
      ih fun hmem => hfront (List.mem_cons_of_mem _ hmem), List.modifyHead_modifyHead]
    rfl

/-- Text behind all separators belongs to the last segment. -/
lemma exists_splitOn_append_right {c : Char} {back : List Char} (hback : c ∉ back)
    (cs : List Char) : ∃ before last, cs.splitOn c = before ++ [last] ∧
      (cs ++ back).splitOn c = before ++ [last ++ back] := by
  induction cs with
  | nil => exact ⟨[], [], by simp, by simpa using List.splitOn_eq_singleton hback⟩
  | cons d cs ih =>
    obtain ⟨before, last, hcs, happend⟩ := ih
    rw [List.cons_append, List.splitOn_cons_eq_if_modifyHead, List.splitOn_cons_eq_if_modifyHead,
      hcs, happend]
    split
    next => exact ⟨[] :: before, last, rfl, rfl⟩
    next =>
      cases before with
      | nil => exact ⟨[], d :: last, rfl, rfl⟩
      | cons head before => exact ⟨(d :: head) :: before, last, rfl, rfl⟩

lemma separator_not_mem_of_isBlank {blanks : List Char} (h : ∀ c ∈ blanks, isBlank c) :
    separator ∉ blanks :=
  fun hmem => absurd (h separator hmem) (by decide)

/-- Blanks around an expression go with the blanks around its outer segments. -/
theorem map_trim_splitOn_trim (cs : List Char) :
    ((trim cs).splitOn separator).map trim = (cs.splitOn separator).map trim := by
  obtain ⟨front, back, hcs, hfront, hback⟩ := exists_eq_append_trim cs
  obtain ⟨before, last, hsplit, hsplit'⟩ :=
    exists_splitOn_append_right (separator_not_mem_of_isBlank hback) (trim cs)
  have hbody : ((trim cs ++ back).splitOn separator).map trim =
      ((trim cs).splitOn separator).map trim := by
    rw [hsplit, hsplit', List.map_append, List.map_append, List.map_singleton, List.map_singleton,
      trim_append_right hback]
  have hhead : ((front ++ (trim cs ++ back)).splitOn separator).map trim =
      ((trim cs ++ back).splitOn separator).map trim := by
    rw [splitOn_append_left (separator_not_mem_of_isBlank hfront)]
    obtain ⟨head, tail, hcons⟩ :=
      List.exists_cons_of_ne_nil (List.splitOn_ne_nil separator (trim cs ++ back))
    rw [hcons, List.modifyHead_cons, List.map_cons, List.map_cons, trim_append_left hfront]
  rw [← hbody, ← hhead, ← hcs]

/-! ## Keys -/

/-- The key is a spelling of the expression, and it is its own key. -/
theorem keyText_keyText (text : String) : keyText (keyText text) = keyText text := by
  rw [keyText_eq_iff, trimmedSegments, map_trim_splitOn_trim, splitOn_keyText, trimmedSegments,
    List.map_map]
  exact List.map_congr_left fun raw _ => trim_trim raw

/-- Texts with the same key have the same segments, up to the blanks around these. -/
lemma forall₂_trim_of_keyText_eq {text other : String} (h : keyText text = keyText other) :
    List.Forall₂ (fun raw raw' => trim raw = trim raw') ((trim text.toList).splitOn separator)
      ((trim other.toList).splitOn separator) := by
  have hmap : trimmedSegments text = trimmedSegments other := keyText_eq_iff.mp h
  rwa [trimmedSegments, trimmedSegments, ← List.forall₂_eq_eq_eq, List.forall₂_map_left_iff,
    List.forall₂_map_right_iff] at hmap

/-- A single empty segment is what is left of a blank text and of no other. -/
lemma trimmedSegments_eq_singleton_nil_iff {text : String} :
    trimmedSegments text = [[]] ↔ trim text.toList = [] := by
  constructor
  · intro h
    obtain ⟨raw, hsplit, hraw⟩ := List.map_eq_singleton_iff.mp h
    have hjoin :
        [separator].intercalate ((trim text.toList).splitOn separator) = trim text.toList :=
      List.intercalate_splitOn separator
    rw [hsplit, List.intercalate_singleton] at hjoin
    rwa [hjoin, trim_trim] at hraw
  · intro h
    rw [trimmedSegments, h, List.splitOn_nil, List.map_singleton, trim_nil]

/-- Spellings of one expression are read alike: they demand the same, or they fail
for the same reason. The key, which is shared by all spellings, is one of them. -/
theorem alike_of_keyText_eq {text other : String} (hkey : keyText text = keyText other) :
    Alike (requirements text) (requirements other) ∧
      keyText (keyText text) = keyText text := by
  refine ⟨?_, keyText_keyText text⟩
  have hblank : (trim text.toList).isEmpty = (trim other.toList).isEmpty := by
    rw [Bool.eq_iff_iff, List.isEmpty_iff, List.isEmpty_iff,
      ← trimmedSegments_eq_singleton_nil_iff, ← trimmedSegments_eq_singleton_nil_iff,
      keyText_eq_iff.mp hkey]
  unfold requirements
  simp only [hblank]
  split
  next => exact .malformed _ _ _
  next => exact .requirementsFrom (forall₂_trim_of_keyText_eq hkey) _ _

/-- A mark without a number is found at another place in each spelling. -/
theorem alike_of_keyText_eq_misplaced :
    Alike (requirements " BB -\u3000#x") (requirements "BB-#x\t") ∧
      keyText (keyText " BB -\u3000#x") = keyText " BB -\u3000#x" ∧
      requirements " BB -\u3000#x" ≠ requirements "BB-#x\t" := by
  obtain ⟨halike, hkey⟩ :=
    @alike_of_keyText_eq " BB -\u3000#x" "BB-#x\t" (by decide +kernel)
  exact ⟨halike, hkey, by decide +kernel⟩

end FleetComposition
