import FleetComposition.Text.Decimal
import FleetComposition.Text.WordChar
import Mathlib.Data.List.TakeWhile
import Mathlib.Tactic.Lemma

/-!
# Runs of characters

A reader takes the whole run of characters of a class, so what stands behind a
run has to stop it. These are the facts about runs and what stops them on which
the readers of numerals, words and parentheses rest.
-/
namespace FleetComposition.Text

/-- The text is at its end or goes on with a character outside the class. -/
def Stops (p : Char → Bool) (cs : List Char) : Prop :=
  ∀ c ∈ cs.head?, p c = false

instance (p : Char → Bool) (cs : List Char) : Decidable (Stops p cs) :=
  decidable_of_iff (cs.head?.all (fun c => !p c) = true) <| by
    cases cs <;> simp [Stops]

variable {p q : Char → Bool} {run rest : List Char}

@[simp] theorem stops_nil (p : Char → Bool) : Stops p [] := by simp [Stops]

@[simp] theorem stops_cons (p : Char → Bool) (c : Char) (cs : List Char) :
    Stops p (c :: cs) ↔ p c = false := by simp [Stops]

lemma Stops.mono (hpq : ∀ c, p c = false → q c = false) (h : Stops p rest) : Stops q rest :=
  fun c hc => hpq c (h c hc)

lemma stops_dropWhile (p : Char → Bool) (cs : List Char) : Stops p (cs.dropWhile p) := by
  intro c hc
  have h := List.head?_dropWhile_not p cs
  rw [Option.mem_def.mp hc] at h
  exact h

lemma takeWhile_of_stops (h : Stops p rest) : rest.takeWhile p = [] := by
  cases rest with
  | nil => rfl
  | cons c cs => rw [List.takeWhile_cons_of_neg (by simpa using h)]

lemma dropWhile_of_stops (h : Stops p rest) : rest.dropWhile p = rest := by
  cases rest with
  | nil => rfl
  | cons c cs => rw [List.dropWhile_cons_of_neg (by simpa using h)]

theorem takeWhile_run (hrun : ∀ c ∈ run, p c) (hrest : Stops p rest) :
    (run ++ rest).takeWhile p = run := by
  rw [List.takeWhile_append_of_pos hrun, takeWhile_of_stops hrest, List.append_nil]

theorem dropWhile_run (hrun : ∀ c ∈ run, p c) (hrest : Stops p rest) :
    (run ++ rest).dropWhile p = rest := by
  rw [List.dropWhile_append_of_pos hrun, dropWhile_of_stops hrest]

/-- What holds of all characters of a fixed text can be computed. -/
lemma forall_mem_of_all {P : Char → Prop} [DecidablePred P] {cs : List Char}
    (h : cs.all fun c => decide (P c)) : ∀ c ∈ cs, P c :=
  fun c hc => of_decide_eq_true (List.all_eq_true.mp h c hc)

lemma stops_digit_of_stops_word (h : Stops isWordChar rest) : Stops Char.isDigit rest := by
  refine h.mono fun c hc => ?_
  by_contra hd
  rw [isWordChar_of_isDigit (by simpa using hd)] at hc
  contradiction

end FleetComposition.Text
