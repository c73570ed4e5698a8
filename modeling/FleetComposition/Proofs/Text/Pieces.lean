import Mathlib.Data.List.Infix
import Mathlib.Tactic.Lemma

/-!
# Pieces of a text

A mark of one or more characters splits a text into pieces. Texts in which the first
character of the mark does not occur are the pieces of what they are joined to.
-/
namespace FleetComposition.Text

/-- The pieces of a text between the occurrences of a mark, which are looked for from
the left and do not overlap. -/
def pieces (mark : List Char) : List Char → List (List Char)
  | [] => [[]]
  | c :: cs =>
    if mark.isPrefixOf (c :: cs) then [] :: pieces mark (cs.drop (mark.length - 1))
    else (pieces mark cs).modifyHead (c :: ·)
termination_by cs => cs.length
decreasing_by
  · simp only [List.length_drop, List.length_cons]
    omega
  · simp

/-- The texts between the occurrences of a mark. -/
def splitText (mark text : String) : List String :=
  (pieces mark.toList text.toList).map String.ofList

variable {c : Char} {cs piece : List Char}

lemma pieces_cons_of_ne {d : Char} (hd : d ≠ c) (rest : List Char) :
    pieces (c :: cs) (d :: rest) = (pieces (c :: cs) rest).modifyHead (d :: ·) := by
  have hprefix : ¬(c :: cs).isPrefixOf (d :: rest) := by
    rw [List.isPrefixOf_iff_prefix, List.cons_prefix_cons]
    exact fun h => hd h.1.symm
  rw [pieces, if_neg hprefix]

lemma pieces_mark_append (rest : List Char) :
    pieces (c :: cs) (c :: cs ++ rest) = [] :: pieces (c :: cs) rest := by
  have hprefix : (c :: cs).isPrefixOf (c :: (cs ++ rest)) :=
    List.isPrefixOf_iff_prefix.mpr (List.prefix_append (c :: cs) rest)
  rw [List.cons_append, pieces, if_pos hprefix, List.length_cons, Nat.add_sub_cancel,
    List.drop_left]

lemma pieces_append_mark (hpiece : c ∉ piece) (rest : List Char) :
    pieces (c :: cs) (piece ++ (c :: cs ++ rest)) = piece :: pieces (c :: cs) rest := by
  induction piece with
  | nil => exact pieces_mark_append rest
  | cons d piece ih =>
    have hd : d ≠ c := fun heq => hpiece (by simp [heq])
    rw [List.cons_append, pieces_cons_of_ne hd, ih fun hmem => hpiece (List.mem_cons_of_mem _ hmem),
      List.modifyHead_cons]

lemma pieces_of_not_mem (hpiece : c ∉ piece) : pieces (c :: cs) piece = [piece] := by
  induction piece with
  | nil => rw [pieces]
  | cons d piece ih =>
    have hd : d ≠ c := fun heq => hpiece (by simp [heq])
    rw [pieces_cons_of_ne hd, ih fun hmem => hpiece (List.mem_cons_of_mem _ hmem),
      List.modifyHead_cons]

theorem pieces_intercalate {xs : List (List Char)} (hne : xs ≠ []) (h : ∀ x ∈ xs, c ∉ x) :
    pieces (c :: cs) ((c :: cs).intercalate xs) = xs := by
  induction xs with
  | nil => exact absurd rfl hne
  | cons x xs ih =>
    obtain ⟨hx, hrest⟩ := List.forall_mem_cons.mp h
    cases xs with
    | nil => rw [List.intercalate_singleton, pieces_of_not_mem hx]
    | cons y ys =>
      rw [List.intercalate_cons_cons, List.append_assoc, pieces_append_mark hx,
        ih (List.cons_ne_nil y ys) hrest]

/-- Joined texts fall apart again if none of them holds the start of the mark. -/
theorem splitText_intercalate {mark : String} {xs : List String} (hmark : mark.toList = c :: cs)
    (hne : xs ≠ []) (h : ∀ x ∈ xs, c ∉ x.toList) : splitText mark (mark.intercalate xs) = xs := by
  have hpieces : pieces mark.toList (mark.intercalate xs).toList = xs.map String.toList := by
    rw [String.toList_intercalate, hmark]
    exact pieces_intercalate (by simpa using hne) (by simpa using h)
  rw [splitText, hpieces, List.map_map]
  simp

/-- Occurrences of a mark do not overlap. -/
example : splitText ", " "a,, b, " = ["a,", "b", ""] := by decide +kernel

/-- What is written behind the last of several texts lengthens that text. -/
lemma intercalate_concat_append (mark : List Char) (xs : List (List Char)) (x d : List Char) :
    mark.intercalate (xs ++ [x]) ++ d = mark.intercalate (xs ++ [x ++ d]) := by
  induction xs with
  | nil => simp
  | cons y xs ih =>
    have hcons : ∀ z, mark.intercalate (y :: (xs ++ [z])) =
        y ++ mark ++ mark.intercalate (xs ++ [z]) := by
      intro z
      cases xs <;> simp
    rw [List.cons_append, List.cons_append, hcons, hcons, List.append_assoc, ih]

end FleetComposition.Text
