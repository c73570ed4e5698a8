import FleetComposition.Proofs.Distinct
import FleetComposition.Proofs.Recency.Contents

/-!
# Recency maps and the history of their uses

What a recency map holds can be told from the uses of its keys since it was last
cleared. The keys, ordered by their last use and without repetitions, are cut off at
the capacity, and each of them has the value that was written last.
-/
namespace FleetComposition

namespace Recency

variable {κ ν : Type}

/-! ## Runs and uses -/

inductive Call (κ ν : Type) where
  | get (key : κ)
  | put (key : κ) (value : ν)
  | clear

/-- A use of a key: a look-up that found something, or a write of a value. -/
structure Use (κ ν : Type) where
  key : κ
  written : Option ν
  deriving DecidableEq, Repr

variable [DecidableEq κ]

def after (m : Recency κ ν) : Call κ ν → Recency κ ν
  | .get key => (m.get key).2
  | .put key value => m.put key value
  | .clear => m.clear

def run (m : Recency κ ν) (calls : List (Call κ ν)) : Recency κ ν :=
  calls.foldl after m

/-- The uses so far with that of one more call in front. A look-up that misses is no
use, and clearing begins a new history. -/
def note (m : Recency κ ν) (uses : List (Use κ ν)) : Call κ ν → List (Use κ ν)
  | .get key => if (m.get key).1.isSome then ⟨key, none⟩ :: uses else uses
  | .put key value => ⟨key, some value⟩ :: uses
  | .clear => []

/-- The uses in a run since the last clearing, the most recent first, if it starts
with the given ones. -/
def usesFrom (m : Recency κ ν) (uses : List (Use κ ν)) : List (Call κ ν) → List (Use κ ν)
  | [] => uses
  | call :: calls => (m.after call).usesFrom (m.note uses call) calls

/-- The value that was written last under a key. -/
def lastWritten (key : κ) (uses : List (Use κ ν)) : Option ν :=
  uses.findSome? fun use => if use.key = key then use.written else none

/-- The other keys that were used since the last use of a key, each of them once. -/
def usedSince (key : κ) (uses : List (Use κ ν)) : List κ :=
  ((uses.map Use.key).takeWhile fun other => other ≠ key).eraseDups

/-- The used keys, ordered by their last use. -/
def byRecency (uses : List (Use κ ν)) : List κ :=
  (uses.map Use.key).eraseDups

/-! ## Histories -/

variable {uses : List (Use κ ν)}

lemma lastWritten_cons (key : κ) (use : Use κ ν) (uses : List (Use κ ν)) :
    lastWritten key (use :: uses) =
      if use.key = key then use.written.or (lastWritten key uses) else lastWritten key uses := by
  unfold lastWritten
  rw [List.findSome?_cons]
  by_cases h : use.key = key
  · rw [if_pos h, if_pos h]
    cases use.written <;> rfl
  · rw [if_neg h, if_neg h]

lemma exists_mem_of_lastWritten {key : κ} {value : ν} (h : lastWritten key uses = some value) :
    ⟨key, some value⟩ ∈ uses := by
  obtain ⟨use, huse, hvalue⟩ := List.exists_of_findSome?_eq_some h
  split at hvalue
  next hkey =>
    have heq : use = ⟨key, some value⟩ := by
      obtain ⟨k, w⟩ := use
      simp only at hkey hvalue
      rw [hkey, hvalue]
    exact heq ▸ huse
  next => cases hvalue

lemma byRecency_cons (use : Use κ ν) (uses : List (Use κ ν)) :
    byRecency (use :: uses) = use.key :: (byRecency uses).filter fun key => key ≠ use.key :=
  eraseDups_cons_eq use.key (uses.map Use.key)

lemma mem_byRecency {key : κ} : key ∈ byRecency uses ↔ ∃ use ∈ uses, use.key = key := by
  rw [byRecency, List.mem_eraseDups, List.mem_map]

/-! ## What a map holds -/

/-- The map holds the most recently used keys, as many as there is room for, with the
values that were written last. -/
structure Reflects (m : Recency κ ν) (uses : List (Use κ ν)) : Prop where
  keys : m.entries.map Prod.fst = (byRecency uses).take m.capacity
  values : ∀ e ∈ m.entries, lastWritten e.1 uses = some e.2
  written : ∀ use ∈ uses, ∃ value, lastWritten use.key uses = some value

lemma map_fst_record (key : κ) (value : ν) (entries : List (κ × ν)) :
    (Latest.record key value entries).map Prod.fst =
      key :: (entries.map Prod.fst).filter fun other => other ≠ key := by
  rw [Latest.record, List.map_cons, List.filter_map]
  rfl

namespace Reflects

variable {m : Recency κ ν}

theorem empty (capacity : Nat) : (empty capacity : Recency κ ν).Reflects [] where
  keys := by simp [Recency.empty, byRecency]
  values := List.forall_mem_nil _
  written := List.forall_mem_nil _

theorem size_le (h : m.Reflects uses) : m.size ≤ m.capacity := by
  have hlength := congrArg List.length h.keys
  rw [List.length_map, List.length_take] at hlength
  rw [size, hlength]
  exact Nat.min_le_left _ _

lemma take_cons_filter (h : m.Reflects uses) (key : κ) :
    (key :: (m.entries.map Prod.fst).filter fun other => other ≠ key).take m.capacity =
      (key :: (byRecency uses).filter fun other => other ≠ key).take m.capacity := by
  rw [h.keys]
  cases m.capacity with
  | zero => rfl
  | succ n =>
    have hnodup : (byRecency uses).Nodup := nodup_eraseDups _
    rw [List.take_succ_cons, List.take_succ_cons, take_filter_ne_take hnodup]

/-- A use of a key that has a value from then on leaves the other keys as they are. -/
lemma values_record (h : m.Reflects uses) {key : κ} {value : ν} {use : Use κ ν}
    (hkey : use.key = key) (hvalue : lastWritten key (use :: uses) = some value) :
    ∀ e ∈ Latest.record key value m.entries, lastWritten e.1 (use :: uses) = some e.2 := by
  refine List.forall_mem_cons.mpr ⟨hvalue, fun e he => ?_⟩
  obtain ⟨hmem, hne⟩ := List.mem_filter.mp he
  have hother : use.key ≠ e.1 := by
    rw [hkey]
    exact Ne.symm (by simpa using hne)
  rw [lastWritten_cons, if_neg hother]
  exact h.values e hmem

lemma written_cons (h : m.Reflects uses) {use : Use κ ν} {value : ν}
    (hvalue : lastWritten use.key (use :: uses) = some value) :
    ∀ other ∈ use :: uses, ∃ value, lastWritten other.key (use :: uses) = some value := by
  refine List.forall_mem_cons.mpr ⟨⟨value, hvalue⟩, fun other hother => ?_⟩
  by_cases hkey : use.key = other.key
  · exact ⟨value, hkey ▸ hvalue⟩
  · rw [lastWritten_cons, if_neg hkey]
    exact h.written other hother

theorem put (h : m.Reflects uses) (key : κ) (value : ν) :
    (m.put key value).Reflects (⟨key, some value⟩ :: uses) := by
  have hvalue : lastWritten key (⟨key, some value⟩ :: uses) = some value := by
    rw [lastWritten_cons, if_pos rfl, Option.some_or]
  refine ⟨?_, fun e he => h.values_record rfl hvalue e (List.mem_of_mem_take he),
    h.written_cons hvalue⟩
  rw [Recency.put, List.map_take, map_fst_record, h.take_cons_filter, byRecency_cons]

theorem get_of_some (h : m.Reflects uses) {key : κ} {value : ν}
    (hget : m.entries.lookup key = some value) :
    (m.get key).2.Reflects (⟨key, none⟩ :: uses) := by
  have hmem : (key, value) ∈ m.entries := Latest.mem_of_lookup hget
  have hvalue : lastWritten key (⟨key, none⟩ :: uses) = some value := by
    rw [lastWritten_cons, if_pos rfl, Option.none_or]
    exact h.values _ hmem
  refine ⟨?_, ?_, h.written_cons hvalue⟩
  · -- one key went to the front, so there is still room for all of them
    have hlength : (key :: (m.entries.map Prod.fst).filter fun other => other ≠ key).length ≤
        m.capacity := by
      have hlt : ((m.entries.map Prod.fst).filter fun other => other ≠ key).length <
          (m.entries.map Prod.fst).length :=
        List.length_filter_lt_length_iff_exists.mpr
          ⟨key, List.mem_map_of_mem hmem, by simp⟩
      have hsize := h.size_le
      rw [List.length_map] at hlt
      rw [List.length_cons]
      exact Nat.le_trans hlt hsize
    rw [entries_get_of_some hget, capacity_get, map_fst_record, byRecency_cons,
      ← h.take_cons_filter, List.take_of_length_le hlength]
  · rw [entries_get_of_some hget]
    exact h.values_record rfl hvalue

/-- The map after a call holds what the history with this call says. -/
theorem after (h : m.Reflects uses) (call : Call κ ν) :
    (m.after call).Reflects (m.note uses call) := by
  unfold Recency.after note
  cases call with
  | get key =>
    simp only [fst_get]
    cases hget : m.entries.lookup key with
    | none =>
      rw [snd_get_of_none hget]
      exact h
    | some value => exact h.get_of_some hget
  | put key value => exact h.put key value
  | clear => exact empty m.capacity

theorem run (h : m.Reflects uses) (calls : List (Call κ ν)) :
    (m.run calls).Reflects (m.usesFrom uses calls) := by
  induction calls generalizing m uses with
  | nil => exact h
  | cons call calls ih => exact ih (h.after call)

/-- A look-up finds something if and only if the key has been written and few enough
others were used since its own last use. -/
theorem isSome_get_iff (h : m.Reflects uses) (key : κ) :
    (m.get key).1.isSome ↔
      (∃ value, ⟨key, some value⟩ ∈ uses) ∧ (usedSince key uses).length < m.capacity := by
  have hheld : (m.get key).1.isSome ↔ key ∈ m.entries.map Prod.fst := by
    rw [fst_get, List.lookup_isSome_iff, List.mem_map]
    exact exists_congr fun e => and_congr_right fun _ => by rw [beq_iff_eq, eq_comm]
  have hwritten : key ∈ byRecency uses ↔ ∃ value, ⟨key, some value⟩ ∈ uses := by
    rw [mem_byRecency]
    constructor
    · rintro ⟨use, huse, rfl⟩
      obtain ⟨value, hvalue⟩ := h.written use huse
      exact ⟨value, exists_mem_of_lastWritten hvalue⟩
    · rintro ⟨value, hvalue⟩
      exact ⟨_, hvalue, rfl⟩
  rw [hheld, h.keys, mem_take_iff_length_takeWhile, hwritten, byRecency, takeWhile_ne_eraseDups]
  rfl

/-- What a look-up finds is the value that was written last. -/
theorem lastWritten_of_get (h : m.Reflects uses) {key : κ} {value : ν}
    (hget : (m.get key).1 = some value) : lastWritten key uses = some value :=
  h.values _ (mem_of_get hget)

end Reflects

@[simp] theorem capacity_run (m : Recency κ ν) (calls : List (Call κ ν)) :
    (m.run calls).capacity = m.capacity := by
  induction calls generalizing m with
  | nil => rfl
  | cons call calls ih =>
    rw [run, List.foldl_cons, ← run, ih]
    cases call with
    | get key => exact capacity_get m key
    | put key value => exact capacity_put m key value
    | clear => rfl

end Recency

end FleetComposition
