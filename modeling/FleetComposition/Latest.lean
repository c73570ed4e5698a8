/-!
# Latest values

Lists of keyed values in which the latest record of a key replaces earlier ones
and stands in front of all others.
-/
namespace FleetComposition.Latest

variable {κ ν : Type} [DecidableEq κ]

/-- Puts a value in front and drops what was recorded under its key before. -/
def record (key : κ) (value : ν) (entries : List (κ × ν)) : List (κ × ν) :=
  (key, value) :: entries.filter fun e => e.1 ≠ key

theorem lookup_filter_ne {key other : κ} (entries : List (κ × ν)) (h : other ≠ key) :
    (entries.filter fun e => e.1 ≠ key).lookup other = entries.lookup other := by
  induction entries with
  | nil => rfl
  | cons e entries ih =>
    obtain ⟨k, v⟩ := e
    by_cases hk : k = key
    · have hb : (other == k) = false := by simpa [hk] using h
      rw [List.filter_cons_of_neg (by simpa using hk), List.lookup_cons, hb, ih]
    · rw [List.filter_cons_of_pos (by simpa using hk), List.lookup_cons, List.lookup_cons, ih]

/-- A record changes the value of its own key and of no other. -/
theorem lookup_record (key other : κ) (value : ν) (entries : List (κ × ν)) :
    (record key value entries).lookup other =
      if other = key then some value else entries.lookup other := by
  unfold record
  rw [List.lookup_cons]
  by_cases h : other = key
  · have hb : (other == key) = true := by simpa using h
    rw [hb, if_pos h]
  · have hb : (other == key) = false := by simpa using h
    rw [hb, if_neg h]
    exact lookup_filter_ne entries h

/-- The keys of a list in which every value is the latest of its key. -/
def Distinct (entries : List (κ × ν)) : Prop :=
  (entries.map Prod.fst).Nodup

theorem distinct_record (key : κ) (value : ν) {entries : List (κ × ν)} (h : Distinct entries) :
    Distinct (record key value entries) := by
  unfold Distinct record
  rw [List.map_cons, List.nodup_cons]
  constructor
  · intro hmem
    obtain ⟨e, he, hkey⟩ := List.mem_map.mp hmem
    have := (List.mem_filter.mp he).2
    simp [hkey] at this
  · exact h.sublist (List.filter_sublist.map _)

end FleetComposition.Latest
