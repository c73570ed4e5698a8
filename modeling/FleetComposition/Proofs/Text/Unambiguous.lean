import FleetComposition.Proofs.Text.Run

/-!
# Unambiguous texts

Texts that are written one after the other can be told apart if each part shows where
it ends. A run of characters of a class ends where another character follows, a numeral
ends where no digit follows, and two texts neither of which starts the other differ
whatever stands behind them.
-/
namespace FleetComposition.Text

variable {a b x y : List Char}

/-! ## Texts that differ early -/

/-- Neither text is a start of the other. -/
def Apart (a b : List Char) : Prop := ¬a <+: b ∧ ¬b <+: a

instance (a b : List Char) : Decidable (Apart a b) := inferInstanceAs (Decidable (_ ∧ _))

lemma Apart.symm (h : Apart a b) : Apart b a := And.symm h

lemma Apart.ne_nil (h : Apart a b) : a ≠ [] := fun ha => h.1 (ha ▸ List.nil_prefix)

lemma Apart.not_start (h : Apart a b) (hb : b <+: x) : ¬a <+: x := fun ha =>
  (List.prefix_or_prefix_of_prefix ha hb).elim h.1 h.2

/-- What stands behind two texts does not make them alike. -/
theorem Apart.append_ne (h : Apart a b) (x y : List Char) : a ++ x ≠ b ++ y := fun heq =>
  h.not_start (heq ▸ List.prefix_append b y) (List.prefix_append a x)

/-! ## Runs and numerals -/

theorem run_cancel {p : Char → Bool} (ha : ∀ c ∈ a, p c) (hb : ∀ c ∈ b, p c) (hx : Stops p x)
    (hy : Stops p y) (h : a ++ x = b ++ y) : a = b ∧ x = y := by
  have htake := congrArg (List.takeWhile p) h
  have hdrop := congrArg (List.dropWhile p) h
  rw [takeWhile_run ha hx, takeWhile_run hb hy] at htake
  rw [dropWhile_run ha hx, dropWhile_run hb hy] at hdrop
  exact ⟨htake, hdrop⟩

lemma exists_numeral_cons (n : UInt32) : ∃ c cs, (numeral n).toList = c :: cs ∧ c.isDigit := by
  have hne : (numeral n).toList ≠ [] := by
    rw [toList_numeral]
    exact Nat.toDigits_ne_nil
  obtain ⟨c, cs, hcs⟩ := List.exists_cons_of_ne_nil hne
  exact ⟨c, cs, hcs, isDigit_of_mem_numeral (by rw [hcs]; exact List.mem_cons_self)⟩

/-- Different words have different numerals. -/
lemma toList_numeral_inj {m n : UInt32} : (numeral m).toList = (numeral n).toList ↔ m = n := by
  refine ⟨fun h => ?_, fun h => by rw [h]⟩
  have hword := congrArg word? h
  rw [word?_numeral, word?_numeral] at hword
  exact Option.some.inj hword

theorem numeral_cancel {m n : UInt32} (hx : Stops Char.isDigit x) (hy : Stops Char.isDigit y)
    (h : (numeral m).toList ++ x = (numeral n).toList ++ y) : m = n ∧ x = y := by
  obtain ⟨hnumeral, hrest⟩ := run_cancel (fun _ hc => isDigit_of_mem_numeral hc)
    (fun _ hc => isDigit_of_mem_numeral hc) hx hy h
  exact ⟨toList_numeral_inj.mp hnumeral, hrest⟩

/-- Text without digits ends where a numeral begins. -/
theorem cancel_before_numeral {m n : UInt32} (ha : ∀ c ∈ a, c.isDigit = false)
    (hb : ∀ c ∈ b, c.isDigit = false) (hx : Stops Char.isDigit x) (hy : Stops Char.isDigit y)
    (h : a ++ ((numeral m).toList ++ x) = b ++ ((numeral n).toList ++ y)) :
    a = b ∧ m = n ∧ x = y := by
  have hstops : ∀ (n : UInt32) (z : List Char),
      Stops (fun c => !c.isDigit) ((numeral n).toList ++ z) := by
    intro n z
    obtain ⟨c, cs, hcs, hc⟩ := exists_numeral_cons n
    rw [hcs, List.cons_append, stops_cons, hc]
    rfl
  obtain ⟨hfront, hrest⟩ := run_cancel (fun c hc => by simp [ha c hc])
    (fun c hc => by simp [hb c hc]) (hstops m x) (hstops n y) h
  exact ⟨hfront, numeral_cancel hx hy hrest⟩

/-! ## Lists of words -/

lemma stops_append {p : Char → Bool} (hne : a ≠ []) (h : Stops p a) (x : List Char) :
    Stops p (a ++ x) := by
  obtain ⟨c, cs, rfl⟩ := List.exists_cons_of_ne_nil hne
  simpa using h

/-- Words with a mark between them can be told apart if the mark is not made of word
characters and what stands behind the last word does not go on with either. -/
theorem intercalate_cancel {p : Char → Bool} {mark : List Char} (hne : mark ≠ [])
    (hmark : Stops p mark) (hx : Stops p x) (hxmark : ¬mark <+: x) (hy : Stops p y)
    (hymark : ¬mark <+: y) {v w : List Char} {vs ws : List (List Char)}
    (hvs : ∀ u ∈ v :: vs, ∀ c ∈ u, p c) (hws : ∀ u ∈ w :: ws, ∀ c ∈ u, p c)
    (h : mark.intercalate (v :: vs) ++ x = mark.intercalate (w :: ws) ++ y) :
    v :: vs = w :: ws ∧ x = y := by
  induction vs generalizing v w ws with
  | nil =>
    obtain ⟨hv, -⟩ := List.forall_mem_cons.mp hvs
    obtain ⟨hw, -⟩ := List.forall_mem_cons.mp hws
    cases ws with
    | nil =>
      rw [List.intercalate_singleton, List.intercalate_singleton] at h
      obtain ⟨rfl, rfl⟩ := run_cancel hv hw hx hy h
      exact ⟨rfl, rfl⟩
    | cons w' ws =>
      rw [List.intercalate_singleton, List.intercalate_cons_cons, List.append_assoc,
        List.append_assoc] at h
      obtain ⟨-, hrest⟩ := run_cancel hv hw hx (stops_append hne hmark _) h
      exact absurd (hrest ▸ List.prefix_append mark _) hxmark
  | cons v' vs ih =>
    obtain ⟨hv, hvs⟩ := List.forall_mem_cons.mp hvs
    obtain ⟨hw, hws⟩ := List.forall_mem_cons.mp hws
    rw [List.intercalate_cons_cons, List.append_assoc, List.append_assoc] at h
    cases ws with
    | nil =>
      rw [List.intercalate_singleton] at h
      obtain ⟨-, hrest⟩ := run_cancel hv hw (stops_append hne hmark _) hy h
      exact absurd (hrest ▸ List.prefix_append mark _) hymark
    | cons w' ws =>
      rw [List.intercalate_cons_cons, List.append_assoc, List.append_assoc] at h
      obtain ⟨hword, hrest⟩ :=
        run_cancel hv hw (stops_append hne hmark _) (stops_append hne hmark _) h
      obtain ⟨hwords, hend⟩ := ih hvs hws (List.append_cancel_left hrest)
      exact ⟨by rw [hword, hwords], hend⟩

/-- The words with marks between them, or the phrase that stands for none. -/
def listed (mark phrase : List Char) (words : List (List Char)) : List Char :=
  if words.isEmpty then phrase else mark.intercalate words

/-- The text goes on neither with a character of the class nor with one of the marks. -/
structure Ends (p : Char → Bool) (marks : List (List Char)) (x : List Char) : Prop where
  stops : Stops p x
  unmarked : ∀ mark ∈ marks, ¬mark <+: x

section Listed

variable {p : Char → Bool} {mark phrase : List Char}

lemma ends_nil {marks : List (List Char)} (hne : ∀ mark ∈ marks, mark ≠ []) : Ends p marks [] where
  stops := stops_nil p
  unmarked := fun mark hmark h => hne mark hmark (List.prefix_nil.mp h)

/-- Text that starts with another mark ends whatever stands before it. -/
lemma Ends.of_start {marks : List (List Char)} (hne : a ≠ []) (hstops : Stops p a)
    (h : ∀ mark ∈ marks, Apart mark a) (hx : a <+: x) : Ends p marks x where
  stops := by
    obtain ⟨rest, rfl⟩ := hx
    exact stops_append hne hstops rest
  unmarked := fun mark hmark => (h mark hmark).not_start hx

/-- A phrase with more than word characters in it is not the start of a list of words. -/
lemma append_ne_intercalate_append (hmark : Stops p mark)
    (hphrase : Apart mark (phrase.dropWhile p)) (hy : Ends p [mark, phrase.dropWhile p] y)
    {w : List Char} {ws : List (List Char)} (hw : ∀ c ∈ w, p c) :
    phrase ++ x ≠ mark.intercalate (w :: ws) ++ y := by
  have hbehind : ∃ behind, mark.intercalate (w :: ws) ++ y = w ++ behind ∧ Stops p behind ∧
      ¬phrase.dropWhile p <+: behind := by
    cases ws with
    | nil =>
      rw [List.intercalate_singleton]
      exact ⟨y, rfl, hy.stops, hy.unmarked _ (by simp)⟩
    | cons w' ws =>
      rw [List.intercalate_cons_cons, List.append_assoc, List.append_assoc]
      exact ⟨_, rfl, stops_append hphrase.ne_nil hmark _,
        hphrase.symm.not_start (List.prefix_append mark _)⟩
  obtain ⟨behind, heq, hbehind, hstart⟩ := hbehind
  rw [heq]
  intro h
  have hsplit : phrase.takeWhile p ++ (phrase.dropWhile p ++ x) = w ++ behind := by
    rw [← List.append_assoc, List.takeWhile_append_dropWhile, h]
  obtain ⟨-, hrest⟩ := run_cancel (fun _ hc => List.mem_takeWhile_imp hc) hw
    (stops_append hphrase.symm.ne_nil (stops_dropWhile p phrase) x) hbehind hsplit
  exact hstart (hrest ▸ List.prefix_append _ x)

theorem listed_cancel (hmark : Stops p mark) (hphrase : Apart mark (phrase.dropWhile p))
    (hx : Ends p [mark, phrase.dropWhile p] x) (hy : Ends p [mark, phrase.dropWhile p] y)
    {vs ws : List (List Char)} (hvs : ∀ u ∈ vs, ∀ c ∈ u, p c) (hws : ∀ u ∈ ws, ∀ c ∈ u, p c)
    (h : listed mark phrase vs ++ x = listed mark phrase ws ++ y) : vs = ws ∧ x = y := by
  cases vs with
  | nil =>
    cases ws with
    | nil => exact ⟨rfl, List.append_cancel_left h⟩
    | cons w ws =>
      exact absurd h (append_ne_intercalate_append hmark hphrase hy (hws w List.mem_cons_self))
  | cons v vs =>
    cases ws with
    | nil =>
      exact absurd h.symm
        (append_ne_intercalate_append hmark hphrase hx (hvs v List.mem_cons_self))
    | cons w ws =>
      exact intercalate_cancel hphrase.ne_nil hmark hx.stops (hx.unmarked mark (by simp)) hy.stops
        (hy.unmarked mark (by simp)) hvs hws h

end Listed

/-- What the images of two members tell apart is told apart by the images of the lists. -/
lemma map_eq_map_of_map_eq_map {α β γ : Type} {P : α → Prop} {f : α → β} {g : α → γ}
    (h : ∀ a b, P a → P b → f a = f b → g a = g b) {xs ys : List α} (hxs : ∀ a ∈ xs, P a)
    (hys : ∀ a ∈ ys, P a) (heq : xs.map f = ys.map f) : xs.map g = ys.map g := by
  induction xs generalizing ys with
  | nil =>
    cases ys with
    | nil => rfl
    | cons b ys => cases heq
  | cons a xs ih =>
    cases ys with
    | nil => cases heq
    | cons b ys =>
      obtain ⟨ha, hxs⟩ := List.forall_mem_cons.mp hxs
      obtain ⟨hb, hys⟩ := List.forall_mem_cons.mp hys
      obtain ⟨hhead, htail⟩ := List.cons.inj heq
      rw [List.map_cons, List.map_cons, h a b ha hb hhead, ih hxs hys htail]

end FleetComposition.Text
