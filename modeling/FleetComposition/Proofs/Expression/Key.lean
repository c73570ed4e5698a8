import FleetComposition.Proofs.Expression.Segments
import FleetComposition.SentenceStore

/-!
# Keys

The key of an expression is the list of its trimmed segments, written as one
text. No segment holds a separator, so the segments can be taken off the key
again, and expressions with the same key are read alike.
-/
namespace FleetComposition

open Text

/-- The segments of an expression without the blanks around them. -/
def trimmedSegments (text : String) : List (List Char) :=
  ((trim text.toList).splitOn separator).map trim

/-- The segments of a key are those of the expression. -/
theorem splitOn_keyText (text : String) :
    (keyText text).toList.splitOn separator = trimmedSegments text := by
  have hsep : ∀ segment ∈ trimmedSegments text, separator ∉ segment := by
    intro segment hsegment hmem
    obtain ⟨raw, hraw, rfl⟩ := List.mem_map.mp hsegment
    exact not_mem_of_mem_splitOn hraw ((trim_sublist raw).subset hmem)
  have hne : trimmedSegments text ≠ [] := fun hnil =>
    List.splitOn_ne_nil separator (trim text.toList) (List.map_eq_nil_iff.mp hnil)
  rw [keyText, String.toList_ofList]
  exact List.splitOn_intercalate separator hsep hne

/-- Two expressions share a key if and only if they have the same segments. -/
theorem keyText_eq_iff {text other : String} :
    keyText text = keyText other ↔ trimmedSegments text = trimmedSegments other := by
  constructor
  · intro h
    rw [← splitOn_keyText, ← splitOn_keyText, h]
  · intro h
    exact congrArg (fun segments => String.ofList ([separator].intercalate segments)) h

/-- What is demanded depends on the trimmed segments alone. -/
theorem requirements_eq_ok_iff_trimmedSegments {text : String} {rs : List Requirement} :
    requirements text = .ok rs ↔ List.Forall₂ States (trimmedSegments text) rs := by
  rw [requirements_eq_ok_iff, trimmedSegments, forall₂_states_map_trim]

theorem requirements_of_keyText_eq {text other : String} {rs : List Requirement}
    (hkey : keyText text = keyText other) (h : requirements text = .ok rs) :
    requirements other = .ok rs := by
  rw [requirements_eq_ok_iff_trimmedSegments] at h ⊢
  rwa [← keyText_eq_iff.mp hkey]

end FleetComposition
