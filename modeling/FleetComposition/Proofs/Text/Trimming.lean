import FleetComposition.Text.Blank
import Mathlib.Data.List.DropRight
import Mathlib.Tactic.Lemma

/-!
# Trimmed texts

A text without blanks at its ends is its own trimmed text. Trimming leaves such
a text, and texts between separators are trimmed together with their ends.
-/
namespace FleetComposition.Text

variable {cs ds : List Char}

lemma trimEnd_eq_rdropWhile (cs : List Char) : trimEnd cs = cs.rdropWhile isBlank := rfl

/-- A text is what is left of it and the blanks behind. -/
lemma trimEnd_append_rtakeWhile (cs : List Char) : trimEnd cs ++ cs.rtakeWhile isBlank = cs :=
  List.rdropWhile_append_rtakeWhile

/-- The text neither starts nor ends with a blank. -/
structure Trimmed (cs : List Char) : Prop where
  start : trimStart cs = cs
  finish : trimEnd cs = cs

lemma Trimmed.trim_eq (h : Trimmed cs) : trim cs = cs := by
  rw [trim, h.start, h.finish]

lemma trimStart_trimEnd (h : trimStart cs = cs) : trimStart (trimEnd cs) = trimEnd cs := by
  cases htrim : trimEnd cs with
  | nil => rfl
  | cons c rest =>
    have hprefix : c :: rest <+: cs := by
      rw [← htrim, trimEnd_eq_rdropWhile]
      exact List.rdropWhile_prefix isBlank cs
    obtain ⟨tail, rfl⟩ := hprefix
    apply trimStart_cons_of_not_blank
    by_contra hc
    rw [List.cons_append, trimStart, List.dropWhile_cons_of_pos (by simpa using hc)] at h
    have hlength := List.length_dropWhile_le isBlank (rest ++ tail)
    rw [h, List.length_cons] at hlength
    omega

theorem trimmed_trim (cs : List Char) : Trimmed (trim cs) where
  start := trimStart_trimEnd (List.dropWhile_idempotent isBlank cs)
  finish := List.rdropWhile_idempotent isBlank (trimStart cs)

@[simp] theorem trim_trim (cs : List Char) : trim (trim cs) = trim cs := (trimmed_trim cs).trim_eq

lemma trim_sublist (cs : List Char) : (trim cs).Sublist cs := by
  have hend : (trim cs).Sublist (trimStart cs) := (List.rdropWhile_prefix isBlank _).sublist
  exact hend.trans (List.dropWhile_sublist isBlank)

/-- Nothing is left of a text only if it is blank throughout. -/
lemma trim_eq_nil_iff : trim cs = [] ↔ ∀ c ∈ cs, isBlank c := by
  rw [trim, trimEnd_eq_rdropWhile, List.rdropWhile_eq_nil_iff]
  constructor
  · intro h
    have hstart : trimStart cs = [] := by
      cases htrim : trimStart cs with
      | nil => rfl
      | cons c rest =>
        have hc := List.head?_dropWhile_not isBlank cs
        rw [show cs.dropWhile isBlank = c :: rest from htrim] at hc
        have hblank := h c (by simp [htrim])
        simp [hblank] at hc
    exact List.dropWhile_eq_nil_iff.mp hstart
  · intro h c hc
    exact h c ((List.dropWhile_sublist isBlank).subset hc)

/-- Text without blanks keeps the start of what it stands in front of. -/
lemma trimStart_append (hne : cs ≠ []) (h : ∀ c ∈ cs, isBlank c = false) (ds : List Char) :
    trimStart (cs ++ ds) = cs ++ ds := by
  obtain ⟨c, cs, rfl⟩ := List.exists_cons_of_ne_nil hne
  exact trimStart_cons_of_not_blank _ (h c (by simp))

/-- Text without blanks keeps the end of what it stands behind. -/
lemma trimEnd_append (hne : ds ≠ []) (h : ∀ c ∈ ds, isBlank c = false) (cs : List Char) :
    trimEnd (cs ++ ds) = cs ++ ds := by
  obtain ⟨ds, c, rfl⟩ := (List.eq_nil_or_concat' ds).resolve_left hne
  rw [← List.append_assoc]
  exact trimEnd_append_of_not_blank _ (h c (by simp))

/-- Trimming leaves a text without blanks as it is. -/
lemma trim_of_not_blank (h : ∀ c ∈ cs, isBlank c = false) : trim cs = cs := by
  by_cases hne : cs = []
  · rw [hne, trim_nil]
  · have hstart : trimStart cs = cs := by simpa using trimStart_append hne h []
    rw [trim, hstart]
    simpa using trimEnd_append hne h []

lemma trim_append_left (h : ∀ c ∈ cs, isBlank c) (ds : List Char) : trim (cs ++ ds) = trim ds := by
  rw [trim, trimStart, List.dropWhile_append_of_pos h]
  rfl

lemma trimEnd_append_blanks (h : ∀ c ∈ ds, isBlank c) (cs : List Char) :
    trimEnd (cs ++ ds) = trimEnd cs := by
  have hreverse : ∀ c ∈ ds.reverse, isBlank c := fun c hc => h c (List.mem_reverse.mp hc)
  rw [trimEnd, List.reverse_append, List.dropWhile_append_of_pos hreverse]
  rfl

/-- Behind a character that is no blank the end of a text is trimmed on its own. -/
lemma trimEnd_append_cons {c : Char} (hc : isBlank c = false) (cs ds : List Char) :
    trimEnd (cs ++ c :: ds) = cs ++ c :: trimEnd ds := by
  have hstop : (c :: cs.reverse).dropWhile isBlank = c :: cs.reverse := by simp [hc]
  rw [trimEnd, trimEnd, List.reverse_append, List.reverse_cons, List.append_assoc,
    List.singleton_append, List.dropWhile_append]
  split
  next hnil =>
    rw [hstop, List.isEmpty_iff.mp hnil]
    simp
  next => simp

/-- In front of a text that is not blank nothing is trimmed from the end. -/
lemma trimEnd_append_of_ne_nil (h : trimEnd ds ≠ []) (cs : List Char) :
    trimEnd (cs ++ ds) = cs ++ trimEnd ds := by
  have hne : (ds.reverse.dropWhile isBlank).isEmpty = false := by simpa [trimEnd] using h
  rw [trimEnd, List.reverse_append, List.dropWhile_append, hne]
  simp [trimEnd]

lemma trim_append_right (h : ∀ c ∈ ds, isBlank c) (cs : List Char) : trim (cs ++ ds) = trim cs := by
  rw [trim, trimStart, List.dropWhile_append]
  split
  next hnil =>
    have hcs : trimStart cs = [] := List.isEmpty_iff.mp hnil
    rw [trim, hcs, List.dropWhile_eq_nil_iff.mpr h]
  next => rw [trimEnd_append_blanks h, trim, trimStart]

lemma takeWhile_append_trim_append (cs : List Char) :
    cs.takeWhile isBlank ++ (trim cs ++ (trimStart cs).rtakeWhile isBlank) = cs := by
  rw [trim, trimEnd_append_rtakeWhile]
  exact List.takeWhile_append_dropWhile

/-- A text is its trimmed text between blanks. -/
lemma exists_eq_append_trim (cs : List Char) : ∃ front back, cs = front ++ (trim cs ++ back) ∧
    (∀ c ∈ front, isBlank c) ∧ ∀ c ∈ back, isBlank c :=
  ⟨cs.takeWhile isBlank, (trimStart cs).rtakeWhile isBlank, (takeWhile_append_trim_append cs).symm,
    fun _ hc => List.mem_takeWhile_imp hc, fun _ hc => List.mem_rtakeWhile_imp hc⟩

lemma forall_mem_intercalate {P : Char → Prop} {mark : List Char} (hmark : ∀ d ∈ mark, P d)
    {xs : List (List Char)} (hxs : ∀ x ∈ xs, ∀ d ∈ x, P d) : ∀ d ∈ mark.intercalate xs, P d := by
  induction xs with
  | nil => simp
  | cons x xs ih =>
    obtain ⟨hx, hrest⟩ := List.forall_mem_cons.mp hxs
    cases xs with
    | nil => simpa using hx
    | cons y ys =>
      rw [List.intercalate_cons_cons]
      exact List.forall_mem_append.mpr ⟨List.forall_mem_append.mpr ⟨hx, hmark⟩, ih hrest⟩

lemma count_trimStart {c : Char} (hc : isBlank c = false) (cs : List Char) :
    (trimStart cs).count c = cs.count c := by
  have hblank : (cs.takeWhile isBlank).count c = 0 := by
    refine List.count_eq_zero.mpr fun hmem => ?_
    rw [List.mem_takeWhile_imp hmem] at hc
    contradiction
  have hsum := congrArg (List.count c) (List.takeWhile_append_dropWhile (p := isBlank) (l := cs))
  rw [List.count_append, hblank, Nat.zero_add] at hsum
  exact hsum

/-- Trimming loses nothing but blanks. -/
theorem count_trim {c : Char} (hc : isBlank c = false) (cs : List Char) :
    (trim cs).count c = cs.count c := by
  calc (trim cs).count c = (trimStart (trimStart cs).reverse).count c := List.count_reverse
    _ = (trimStart cs).reverse.count c := count_trimStart hc _
    _ = (trimStart cs).count c := List.count_reverse
    _ = cs.count c := count_trimStart hc cs

end FleetComposition.Text
