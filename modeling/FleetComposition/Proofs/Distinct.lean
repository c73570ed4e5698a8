import Mathlib.Data.List.Nodup
import Mathlib.Tactic.Lemma

/-!
# Lists without repetitions

Dropping repetitions keeps the first occurrence of each member. It commutes with
taking members away, and it does not change which members stand in front of which.
-/
namespace FleetComposition

variable {α : Type} [DecidableEq α]

lemma eraseDups_filter (p : α → Bool) (xs : List α) :
    (xs.filter p).eraseDups = xs.eraseDups.filter p := by
  induction hn : xs.length using Nat.strongRecOn generalizing xs with
  | ind n ih =>
    cases xs with
    | nil => rfl
    | cons x xs =>
      have hlt : (xs.filter fun y => !y == x).length < n := by
        have hle := List.length_filter_le (fun y => !y == x) xs
        rw [← hn, List.length_cons]
        omega
      have hrest : ((xs.filter p).filter fun y => !y == x).eraseDups =
          (xs.filter fun y => !y == x).eraseDups.filter p := by
        rw [List.filter_filter, ← ih _ hlt _ rfl, List.filter_filter]
        simp only [Bool.and_comm]
      by_cases hx : p x
      · rw [List.filter_cons_of_pos hx, List.eraseDups_cons, List.eraseDups_cons,
          List.filter_cons_of_pos hx, hrest]
      · have hkeep : (xs.filter p).filter (fun y => !y == x) = xs.filter p := by
          refine List.filter_eq_self.mpr fun y hy => ?_
          have hne : y ≠ x := fun heq => hx (heq ▸ (List.mem_filter.mp hy).2)
          simpa using hne
        rw [List.filter_cons_of_neg hx, List.eraseDups_cons, List.filter_cons_of_neg hx, ← hrest,
          hkeep]

/-- The first occurrence of a member stays, and the others are dropped. -/
lemma eraseDups_cons_eq (x : α) (xs : List α) :
    (x :: xs).eraseDups = x :: xs.eraseDups.filter fun y => y ≠ x := by
  rw [List.eraseDups_cons, eraseDups_filter]
  simp only [ne_eq, decide_not]
  rfl

lemma nodup_eraseDups (xs : List α) : xs.eraseDups.Nodup := by
  induction xs with
  | nil => simp
  | cons x xs ih =>
    rw [eraseDups_cons_eq, List.nodup_cons]
    exact ⟨by simp, ih.filter _⟩

/-- What stands in front of the first `x` once repetitions are dropped. -/
lemma takeWhile_ne_eraseDups (x : α) (xs : List α) :
    xs.eraseDups.takeWhile (fun y => y ≠ x) = (xs.takeWhile fun y => y ≠ x).eraseDups := by
  induction xs with
  | nil => simp
  | cons y xs ih =>
    rw [eraseDups_cons_eq]
    by_cases hy : y = x
    · simp [hy]
    · have hkeep : ∀ z, (!(decide (z ≠ y)) || decide (z ≠ x)) = decide (z ≠ x) := by
        intro z
        by_cases hz : z = y
        · simp [hz, hy]
        · simp [hz]
      rw [List.takeWhile_cons_of_pos (by simpa using hy),
        List.takeWhile_cons_of_pos (by simpa using hy), eraseDups_cons_eq, List.takeWhile_filter]
      simp only [hkeep, ih]

/-- A member is among the first `n` if and only if fewer than `n` stand in front of it. -/
lemma mem_take_iff_length_takeWhile {x : α} {xs : List α} (n : Nat) :
    x ∈ xs.take n ↔ x ∈ xs ∧ (xs.takeWhile fun y => y ≠ x).length < n := by
  induction xs generalizing n with
  | nil => simp
  | cons y xs ih =>
    cases n with
    | zero => simp
    | succ n =>
      by_cases hy : y = x
      · simp [hy]
      · have hx : x ≠ y := fun heq => hy heq.symm
        rw [List.take_succ_cons, List.mem_cons, ih, List.mem_cons,
          List.takeWhile_cons_of_pos (by simpa using hy), List.length_cons]
        simp [hx]

/-- Without `x`, the first `n + 1` hold the first `n`. -/
lemma take_filter_ne_take {xs : List α} (h : xs.Nodup) (x : α) (n : Nat) :
    ((xs.take (n + 1)).filter fun y => y ≠ x).take n = (xs.filter fun y => y ≠ x).take n := by
  induction xs generalizing n with
  | nil => simp
  | cons y xs ih =>
    obtain ⟨hmem, hrest⟩ := List.nodup_cons.mp h
    rw [List.take_succ_cons]
    by_cases hy : y = x
    · have hall : ∀ z ∈ xs, decide (z ≠ x) := by
        intro z hz
        have hne : z ≠ x := fun heq => hmem (by rw [hy, ← heq]; exact hz)
        simpa using hne
      rw [List.filter_cons_of_neg (by simpa using hy), List.filter_cons_of_neg (by simpa using hy),
        List.filter_eq_self.mpr hall,
        List.filter_eq_self.mpr fun z hz => hall z (List.mem_of_mem_take hz), List.take_take,
        Nat.min_self]
    · rw [List.filter_cons_of_pos (by simpa using hy), List.filter_cons_of_pos (by simpa using hy)]
      cases n with
      | zero => rfl
      | succ n => rw [List.take_succ_cons, List.take_succ_cons, ih hrest]

end FleetComposition
