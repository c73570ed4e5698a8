import FleetComposition.Recency
import Mathlib.Tactic.Lemma

/-!
# Contents of recency maps

A use of a key brings no entry into the map but the one that is written. What
holds of all entries therefore survives every look-up and every write of an entry
of which it holds too.
-/
namespace FleetComposition

variable {κ ν : Type} [DecidableEq κ] {P : κ × ν → Prop}

lemma Latest.forall_mem_record {entries : List (κ × ν)} {key : κ} {value : ν}
    (h : ∀ e ∈ entries, P e) (hnew : P (key, value)) : ∀ e ∈ record key value entries, P e :=
  List.forall_mem_cons.mpr ⟨hnew, fun e he => h e (List.mem_filter.mp he).1⟩

lemma Latest.mem_of_lookup {entries : List (κ × ν)} {key : κ} {value : ν}
    (h : entries.lookup key = some value) : (key, value) ∈ entries := by
  obtain ⟨before, after, rfl, -⟩ := List.lookup_eq_some_iff.mp h
  simp

namespace Recency

variable {m : Recency κ ν}

theorem mem_of_get {key : κ} {value : ν} (h : (m.get key).1 = some value) :
    (key, value) ∈ m.entries := by
  rw [fst_get] at h
  exact Latest.mem_of_lookup h

theorem forall_mem_get (h : ∀ e ∈ m.entries, P e) (key : κ) : ∀ e ∈ (m.get key).2.entries, P e := by
  cases hlookup : m.entries.lookup key with
  | none =>
    rw [snd_get_of_none hlookup]
    exact h
  | some value =>
    rw [entries_get_of_some hlookup]
    exact Latest.forall_mem_record h (h _ (Latest.mem_of_lookup hlookup))

theorem forall_mem_put {key : κ} {value : ν} (h : ∀ e ∈ m.entries, P e) (hnew : P (key, value)) :
    ∀ e ∈ (m.put key value).entries, P e :=
  fun e he => Latest.forall_mem_record h hnew e (List.mem_of_mem_take he)

end Recency

end FleetComposition
