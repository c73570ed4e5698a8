import FleetComposition.Proofs.Recency.Sentences

/-!
# Recency maps of different capacities

Two recency maps that are used alike hold the same entries as long as both have room.
From then on the smaller one holds some of the entries of the larger one, in the same
order: a key that only the larger one still knows moves to its front alone, and where
the larger one has to drop an entry, the smaller one was full as well.
-/
namespace FleetComposition

variable {κ ν : Type} {small large : Recency κ ν} {entries others : List (κ × ν)} {key : κ}
  {value : ν}

/-! ## A smaller map inside a larger one -/

namespace Recency

/-- What is in the smaller map is in the larger one, in the same order, and as long as
the smaller one has room both hold the same. -/
structure Within (small large : Recency κ ν) : Prop where
  capacity_le : small.capacity ≤ large.capacity
  size_small : small.size ≤ small.capacity
  size_large : large.size ≤ large.capacity
  distinct : Latest.Distinct large.entries
  sublist : small.entries.Sublist large.entries
  eq_of_room : small.size < small.capacity → small.entries = large.entries

theorem Within.empty {m n : ℕ} (h : m ≤ n) :
    (empty m : Recency κ ν).Within (Recency.empty n) where
  capacity_le := h
  size_small := Nat.zero_le m
  size_large := Nat.zero_le n
  distinct := List.nodup_nil
  sublist := .slnil
  eq_of_room := fun _ => rfl

lemma Within.distinct_small (h : small.Within large) : Latest.Distinct small.entries :=
  h.distinct.sublist (h.sublist.map _)

lemma Within.mem_keys_large (h : small.Within large) (hkey : key ∈ small.entries.map Prod.fst) :
    key ∈ large.entries.map Prod.fst :=
  (h.sublist.map Prod.fst).subset hkey

end Recency

/-! ## Records in lists of entries -/

/-- Cutting off the ends keeps one list inside another if no more is cut from the
larger one. -/
lemma sublist_take_take {α : Type} {xs ys : List α} (h : xs.Sublist ys) {m n : ℕ}
    (hcut : ys.length - n ≤ xs.length - m) : (xs.take m).Sublist (ys.take n) := by
  rw [← List.reverse_sublist, List.reverse_take, List.reverse_take]
  exact (List.drop_sublist_drop_left _ hcut).trans (h.reverse.drop _)

variable [DecidableEq κ]

namespace Latest

lemma lookup_of_mem (h : Distinct entries) (hmem : (key, value) ∈ entries) :
    entries.lookup key = some value := by
  obtain ⟨before, behind, rfl⟩ := List.append_of_mem hmem
  refine List.lookup_eq_some_iff.mpr ⟨before, behind, rfl, fun e he => ?_⟩
  rw [Distinct, List.map_append, List.nodup_append] at h
  have hne : e.1 ≠ key := h.2.2 e.1 (List.mem_map_of_mem he) key (by simp)
  simpa using hne.symm

lemma not_mem_keys_of_lookup (h : entries.lookup key = none) : key ∉ entries.map Prod.fst := by
  intro hkey
  obtain ⟨e, he, rfl⟩ := List.mem_map.mp hkey
  have hne := List.lookup_eq_none_iff.mp h e he
  simp at hne

lemma mem_keys_of_lookup (h : entries.lookup key = some value) :
    key ∈ entries.map Prod.fst :=
  List.mem_map_of_mem (mem_of_lookup h)

lemma record_sublist_record (h : entries.Sublist others) (key : κ) (value : ν) :
    (record key value entries).Sublist (record key value others) :=
  (h.filter _).cons_cons _

lemma record_of_not_mem (hkey : key ∉ entries.map Prod.fst) (value : ν) :
    record key value entries = (key, value) :: entries := by
  rw [record, List.filter_eq_self.mpr]
  intro e he
  have hne : e.1 ≠ key := fun heq => hkey (heq ▸ List.mem_map_of_mem he)
  simpa using hne

/-- A record under a key that is held takes the place of the one entry of that key. -/
lemma length_record_of_mem (h : Distinct entries) (hkey : key ∈ entries.map Prod.fst) (value : ν) :
    (record key value entries).length = entries.length := by
  have hothers : ((entries.map Prod.fst).filter fun other => other ≠ key) =
      (entries.map Prod.fst).erase key := by
    rw [h.erase_eq_filter]
    exact List.filter_congr fun other _ => by simp [bne, beq_eq_decide]
  have hpos : 0 < (entries.map Prod.fst).length := List.length_pos_of_mem hkey
  have hlength := congrArg List.length (Recency.map_fst_record key value entries)
  rw [List.length_map, List.length_cons, hothers, List.length_erase_of_mem hkey] at hlength
  rw [hlength, Nat.sub_add_cancel hpos, List.length_map]

lemma length_le_length_record (h : Distinct entries) (key : κ) (value : ν) :
    entries.length ≤ (record key value entries).length := by
  by_cases hkey : key ∈ entries.map Prod.fst
  · exact Nat.le_of_eq (length_record_of_mem h hkey value).symm
  · rw [record_of_not_mem hkey, List.length_cons]
    exact Nat.le_succ _

end Latest

/-! ## The same uses of both maps -/

namespace Recency.Within

/-- What the smaller map finds the larger one finds as well. -/
theorem get_eq_some (h : small.Within large) (hget : (small.get key).1 = some value) :
    (large.get key).1 = some value := by
  rw [fst_get]
  exact Latest.lookup_of_mem h.distinct (h.sublist.subset (mem_of_get hget))

lemma size_get_large (h : small.Within large) (hlarge : large.entries.lookup key = some value) :
    (large.get key).2.size ≤ (large.get key).2.capacity := by
  rw [size, entries_get_of_some hlarge, capacity_get,
    Latest.length_record_of_mem h.distinct (Latest.mem_keys_of_lookup hlarge)]
  exact h.size_large

/-- A key that both know goes to the front of both. -/
lemma get_of_some (h : small.Within large) (hsmall : small.entries.lookup key = some value) :
    (small.get key).2.Within (large.get key).2 := by
  have hlarge : large.entries.lookup key = some value := by
    rw [← fst_get] at hsmall ⊢
    exact h.get_eq_some hsmall
  have hkey := Latest.mem_keys_of_lookup hsmall
  have hsize : (small.get key).2.size = small.size := by
    rw [size, entries_get_of_some hsmall, Latest.length_record_of_mem h.distinct_small hkey, size]
  refine ⟨?_, ?_, h.size_get_large hlarge, ?_, ?_, fun hroom => ?_⟩
  · rw [capacity_get, capacity_get]
    exact h.capacity_le
  · rw [hsize, capacity_get]
    exact h.size_small
  · rw [entries_get_of_some hlarge]
    exact Latest.distinct_record key value h.distinct
  · rw [entries_get_of_some hsmall, entries_get_of_some hlarge]
    exact Latest.record_sublist_record h.sublist key value
  · rw [hsize, capacity_get] at hroom
    rw [entries_get_of_some hsmall, entries_get_of_some hlarge, h.eq_of_room hroom]

/-- A key that only the larger map knows goes to its front. The smaller one has no room,
or it would know the key too. -/
lemma get_of_none (h : small.Within large) (hsmall : small.entries.lookup key = none)
    (hlarge : large.entries.lookup key = some value) : small.Within (large.get key).2 := by
  refine ⟨?_, h.size_small, h.size_get_large hlarge, ?_, ?_, fun hroom => ?_⟩
  · rw [capacity_get]
    exact h.capacity_le
  · rw [entries_get_of_some hlarge]
    exact Latest.distinct_record key value h.distinct
  · have hrecord := Latest.record_sublist_record h.sublist key value
    rw [Latest.record_of_not_mem (Latest.not_mem_keys_of_lookup hsmall)] at hrecord
    rw [entries_get_of_some hlarge]
    exact (List.sublist_cons_self _ _).trans hrecord
  · rw [h.eq_of_room hroom, hlarge] at hsmall
    cases hsmall

theorem get (h : small.Within large) (key : κ) : (small.get key).2.Within (large.get key).2 := by
  cases hsmall : small.entries.lookup key with
  | some value => exact h.get_of_some hsmall
  | none =>
    rw [snd_get_of_none hsmall]
    cases hlarge : large.entries.lookup key with
    | some value => exact h.get_of_none hsmall hlarge
    | none =>
      rw [snd_get_of_none hlarge]
      exact h

/-- A write drops no more entries of the larger map than of the smaller one. -/
lemma cut_le (h : small.Within large) (key : κ) (value : ν) :
    (Latest.record key value large.entries).length - large.capacity ≤
      (Latest.record key value small.entries).length - small.capacity := by
  have hle := h.capacity_le
  by_cases hroom : small.size < small.capacity
  · rw [h.eq_of_room hroom]
    omega
  · have hsize := h.size_large
    rw [size] at hroom hsize
    by_cases hlarge : key ∈ large.entries.map Prod.fst
    · rw [Latest.length_record_of_mem h.distinct hlarge]
      omega
    · have hsmall : key ∉ small.entries.map Prod.fst := fun hkey => hlarge (h.mem_keys_large hkey)
      rw [Latest.record_of_not_mem hlarge, Latest.record_of_not_mem hsmall, List.length_cons,
        List.length_cons]
      omega

/-- If there is still room after a write, there was room before and nothing was dropped. -/
lemma put_eq_of_room (h : small.Within large) (key : κ) (value : ν)
    (hroom : (small.put key value).size < small.capacity) :
    (small.put key value).entries = (large.put key value).entries := by
  have hle := h.capacity_le
  have hgrows := Latest.length_le_length_record h.distinct_small key value
  have hfits : (Latest.record key value small.entries).length < small.capacity := by
    rw [size, Recency.put, List.length_take] at hroom
    omega
  have hbefore : small.entries = large.entries := h.eq_of_room (Nat.lt_of_le_of_lt hgrows hfits)
  have hall := Nat.le_of_lt hfits
  rw [Recency.put, Recency.put, ← hbefore]
  simp only
  rw [List.take_of_length_le hall, List.take_of_length_le (Nat.le_trans hall hle)]

theorem put (h : small.Within large) (key : κ) (value : ν) :
    (small.put key value).Within (large.put key value) where
  capacity_le := h.capacity_le
  size_small := size_put_le small key value
  size_large := size_put_le large key value
  distinct := (Latest.distinct_record key value h.distinct).sublist
    ((List.take_sublist _ _).map _)
  sublist := sublist_take_take (Latest.record_sublist_record h.sublist key value)
    (h.cut_le key value)
  eq_of_room := h.put_eq_of_room key value

/-- No call lets anything into the smaller map that is not in the larger one. -/
theorem after (h : small.Within large) (call : Call κ ν) :
    (small.after call).Within (large.after call) := by
  cases call with
  | get key => exact h.get key
  | put key value => exact h.put key value
  | clear => exact empty h.capacity_le

theorem run (h : small.Within large) (calls : List (Call κ ν)) :
    (small.run calls).Within (large.run calls) := by
  induction calls generalizing small large with
  | nil => exact h
  | cons call calls ih => exact ih (h.after call)

end Recency.Within

/-! ## Sentences -/

namespace SentenceStore

/-- Room for more sentences never loses one. At any time in a run, what the smaller
cache holds is in the larger one, and what the smaller one remembers the larger one
remembers as well. -/
theorem run_subset_of_capacity_le {small large : UInt64}
    (h : (ofLimit small).capacity ≤ (ofLimit large).capacity) (calls : List Call) :
    (∀ e ∈ (run (ofLimit small) calls).entries, e ∈ (run (ofLimit large) calls).entries) ∧
      ∀ text language sentence,
        (get (run (ofLimit small) calls) text language).1 = some sentence →
          (get (run (ofLimit large) calls) text language).1 = some sentence := by
  have hwithin : Recency.Within (run (ofLimit small) calls) (run (ofLimit large) calls) := by
    rw [run_eq, run_eq]
    exact (Recency.Within.empty h).run _
  exact ⟨fun _ he => hwithin.sublist.subset he, fun _ _ _ hget => hwithin.get_eq_some hget⟩

/-- The larger cache alone still knows A and moves it to the front, so that the two
caches hold C in different places when it is asked for. -/
theorem run_subset_of_capacity_le_drifted :
    let calls := [.set "A" .english "a", .set "B" .english "b", .set "C" .english "c",
      .get "A" .english, .set "D" .english "d"]
    (get (run (ofLimit 2) calls) " C " .english).1 = some "c" ∧
      (get (run (ofLimit 3) calls) " C " .english).1 = some "c" ∧
      (get (run (ofLimit 2) calls) "A" .english).1 = none ∧
      (get (run (ofLimit 3) calls) "A" .english).1 = some "a" := by
  intro calls
  have hsmall : (get (run (ofLimit 2) calls) " C " .english).1 = some "c" := by decide +kernel
  have hcapacity : (ofLimit 2).capacity ≤ (ofLimit 3).capacity := by decide
  obtain ⟨-, hget⟩ := run_subset_of_capacity_le hcapacity calls
  exact ⟨hsmall, hget " C " .english "c" hsmall, by decide +kernel, by decide +kernel⟩

end SentenceStore

end FleetComposition
