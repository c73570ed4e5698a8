import FleetComposition.Latest

/-!
# Recency maps

A map that holds a bounded number of values. A use of a key, be it a write or a
successful look-up, makes it the most recent one, and where there is no room the
key whose last use is longest ago has to go.
-/
namespace FleetComposition

/-- The entries stand in the order of their last use, the most recent first. -/
structure Recency (κ ν : Type) where
  capacity : Nat
  entries : List (κ × ν)
  deriving DecidableEq, Repr

namespace Recency

variable {κ ν : Type} [DecidableEq κ]

def empty (capacity : Nat) : Recency κ ν := ⟨capacity, []⟩

def size (m : Recency κ ν) : Nat := m.entries.length

/-- Forgets all entries and keeps the capacity. -/
def clear (m : Recency κ ν) : Recency κ ν := empty m.capacity

/-- The value of a key, and the map after this use. A miss changes nothing. -/
def get (m : Recency κ ν) (key : κ) : Option ν × Recency κ ν :=
  match m.entries.lookup key with
  | some value => (some value, { m with entries := Latest.record key value m.entries })
  | none => (none, m)

/-- Writes the value of a key, for which the entry at the end goes if there is no
room. -/
def put (m : Recency κ ν) (key : κ) (value : ν) : Recency κ ν :=
  { m with entries := (Latest.record key value m.entries).take m.capacity }

@[simp] theorem capacity_get (m : Recency κ ν) (key : κ) :
    (m.get key).2.capacity = m.capacity := by
  unfold get
  split <;> rfl

@[simp] theorem capacity_put (m : Recency κ ν) (key : κ) (value : ν) :
    (m.put key value).capacity = m.capacity := rfl

@[simp] theorem fst_get (m : Recency κ ν) (key : κ) :
    (m.get key).1 = m.entries.lookup key := by
  unfold get
  split
  · next h => exact h.symm
  · next h => exact h.symm

theorem snd_get_of_none {m : Recency κ ν} {key : κ} (h : m.entries.lookup key = none) :
    (m.get key).2 = m := by
  simp [get, h]

theorem entries_get_of_some {m : Recency κ ν} {key : κ} {value : ν}
    (h : m.entries.lookup key = some value) :
    (m.get key).2.entries = Latest.record key value m.entries := by
  simp [get, h]

theorem size_put_le (m : Recency κ ν) (key : κ) (value : ν) :
    (m.put key value).size ≤ m.capacity := by
  unfold put size
  rw [List.length_take]
  exact Nat.min_le_left _ _

end Recency

end FleetComposition
