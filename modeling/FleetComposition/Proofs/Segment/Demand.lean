import FleetComposition.Proofs.Expression.Segments
import FleetComposition.Proofs.Segment.Meaning
import FleetComposition.Proofs.Segment.Trimmed

/-!
# The meaning of the notation

Every text of the grammar is read as a single segment and demands what the rules
of the notation say: all its tokens once, the first quantity, the first slots and
the first level, with the wildcard and the defaults where something is left out.
-/
namespace FleetComposition

/-- A segment whose quantity leaves room for a number demands what its parts say. -/
lemma Segment.requirement_of_valid {s : Segment} (h : s.quantity.Valid) :
    s.requirement = .ok ⟨s.allTokens, s.quantity, s.slots, s.level, s.negated⟩ := by
  unfold Segment.requirement
  cases hmax : s.quantity.max with
  | none => simp only [hmax]
  | some max => simp only [hmax, if_neg (UInt32.not_lt.mpr (h max hmax))]

namespace Written

open Text

variable (w : Written)

/-! ## The rules on what is written and on what is read -/

lemma isEmpty_tokens_segment : w.segment.tokens.isEmpty = decide (w.tokens = []) := by
  cases h : w.tokens <;> simp [segment, h]

lemma starred_segment : w.segment.starred = w.starred := by
  have hstar : ∀ f : Field, f.field? = some .star ↔ f = .star := by
    intro f
    cases f <;> simp [Field.field?]
  rw [Bool.eq_iff_iff]
  simp only [Segment.starred, starred, segment, List.contains_iff_mem, List.mem_filterMap, hstar,
    exists_eq_right]

theorem allTokens_segment : w.segment.allTokens = w.demand.tokens := by
  unfold Segment.allTokens demand
  rw [isEmpty_tokens_segment, starred_segment]
  by_cases hany : ShipToken.wildcard ∈ w.named
  · simp [hany, show w.segment.tokens.eraseDups = w.named from rfl]
  · simp [hany, show w.segment.tokens.eraseDups = w.named from rfl]

theorem quantity_segment : w.segment.quantity = w.demand.quantity := by
  have hfind : w.segment.fields.findSome? FleetComposition.Field.quantity? =
      (w.fields.filterMap Field.quantity?).head? := by
    rw [← List.head?_filterMap, segment, List.filterMap_filterMap]
    congr 2
    funext f
    cases f <;> rfl
  unfold Segment.quantity demand
  rw [hfind, isEmpty_tokens_segment, starred_segment]
  cases (w.fields.filterMap Field.quantity?).head? with
  | some q => rfl
  | none => simp [Quantity.unbounded, Quantity.one, Quantity.atLeast, Quantity.exactly]

/-- The slots are those of the first list in brackets, in whatever order they stand there. -/
theorem mem_slots_demand {slot : UInt32} :
    slot ∈ w.demand.slots ↔ ∃ slots ∈ (w.fields.filterMap Field.slots?).head?, slot ∈ slots := by
  rw [demand, SlotSet.mem_ofList]
  cases (w.fields.filterMap Field.slots?).head? with
  | none => simp
  | some slots => simp

theorem slots_segment : w.segment.slots = w.demand.slots := by
  have hitem : ∀ i : Item, i.item.slot? = i.slot? := by
    intro i
    cases i <;> rfl
  have hfind : w.segment.fields.findSome? FleetComposition.Field.slots? =
      (w.fields.filterMap Field.slots?).head? := by
    rw [← List.head?_filterMap, segment, List.filterMap_filterMap]
    congr 2
    funext f
    cases f with
    | slots first others =>
      simp [Field.field?, FleetComposition.Field.slots?, Field.slots?, List.filterMap_map,
        List.filterMap_cons, hitem]
    | _ => rfl
  unfold Segment.slots demand
  rw [hfind]

theorem level_segment : w.segment.level = w.demand.level := by
  have hitem : ∀ i : Item, i.item.level? = i.level? := by
    intro i
    cases i <;> rfl
  have hlevels : ∀ fs : List Field,
      (fs.filterMap Field.field?).flatMap FleetComposition.Field.levels =
        fs.flatMap Field.levels := by
    intro fs
    induction fs with
    | nil => rfl
    | cons f fs ih =>
      cases f with
      | slots first others =>
        simp [Field.field?, FleetComposition.Field.levels, Field.levels, List.filterMap_map,
          List.filterMap_cons, hitem, ih]
      | filler c hc => exact ih
      | _ => simp [Field.field?, FleetComposition.Field.levels, Field.levels, ih]
  unfold Segment.level demand
  rw [segment, hlevels]

lemma requirement_segment_of_valid (h : w.demand.quantity.Valid) :
    w.segment.requirement = .ok w.demand := by
  have hdemand : (⟨w.segment.allTokens, w.segment.quantity, w.segment.slots, w.segment.level,
      w.segment.negated⟩ : Requirement) = w.demand := by
    rw [allTokens_segment, quantity_segment, slots_segment, level_segment]
    rfl
  rw [← quantity_segment] at h
  rw [Segment.requirement_of_valid h, hdemand]

lemma requirement_segment_of_lt {max : UInt32} (hmax : w.demand.quantity.max = some max)
    (hlt : max < w.demand.quantity.min) :
    w.segment.requirement = .error (.invalidQuantity w.demand.quantity.min max) := by
  have hquantity := w.quantity_segment
  unfold Segment.requirement
  simp only [hquantity, hmax, if_pos hlt]

/-! ## Texts of the grammar -/

/-- Blanks around a text of the grammar do not matter to its reading. -/
theorem read_trim_text (hfits : w.Fits) (hapart : w.LevelApart) :
    Segment.read (trim w.text) = .ok w.segment := by
  rw [← text_trimmed, ← segment_trimmed]
  exact Segment.Reader.read_text hfits.trimmed hapart.trimmed

lemma trim_text_ne_nil (hink : ∃ c ∈ w.text, isBlank c = false) : trim w.text ≠ [] := by
  obtain ⟨c, hc, hblank⟩ := hink
  intro hnil
  rw [trim_eq_nil_iff.mp hnil c hc] at hblank
  contradiction

theorem requirements_ofList_text (hfits : w.Fits) (hapart : w.LevelApart)
    (hink : ∃ c ∈ w.text, isBlank c = false) :
    requirements (String.ofList w.text) = w.segment.requirement.map fun r => [r] := by
  apply requirements_eq_of_read
  · rw [String.toList_ofList]
    exact w.separator_not_mem_text
  · rw [String.toList_ofList]
    exact w.trim_text_ne_nil hink
  · rw [String.toList_ofList]
    exact w.read_trim_text hfits hapart

/-- Every text of the grammar is read as a single segment that demands what the
rules of the notation say, unless its first quantity leaves no room for a number.
The slots are the members of the first list in brackets. -/
theorem requirements_of_grammar (hfits : w.Fits) (hapart : w.LevelApart)
    (hink : ∃ c ∈ w.text, isBlank c = false) :
    (w.demand.quantity.Valid → requirements (String.ofList w.text) = .ok [w.demand]) ∧
      (∀ max, w.demand.quantity.max = some max → max < w.demand.quantity.min →
        requirements (String.ofList w.text) =
          .error (.invalidQuantity w.demand.quantity.min max)) ∧
      ∀ slot, slot ∈ w.demand.slots ↔
        ∃ slots ∈ (w.fields.filterMap Field.slots?).head?, slot ∈ slots := by
  have hread := w.requirements_ofList_text hfits hapart hink
  refine ⟨?_, ?_, fun _ => w.mem_slots_demand⟩
  · intro hvalid
    rw [hread, w.requirement_segment_of_valid hvalid]
    rfl
  · intro max hmax hlt
    rw [hread, w.requirement_segment_of_lt hmax hlt]
    rfl

/-- A class with a leading zero, two quantities, two lists of slots, the first one out of
order and with a slot written twice, and a star behind a blank. -/
def crowded : Written where
  opening := ⟨['('], by simp⟩
  negated := true
  tokens := [
    ⟨⟨['('], by simp⟩, .word ⟨['B', 'B'], by simp, List.all_eq_true.mp (by decide)⟩, .none⟩,
    ⟨.none, .shipClass ⟨['0', '3'], by simp, by simp⟩, ⟨[')'], by simp⟩⟩]
  fields := [
    .slots (.slot ⟨['2'], by simp, by simp⟩) [.slot ⟨['0'], by simp, by simp⟩,
      .level ⟨['7', '0'], by simp, by simp⟩, .slot ⟨['0', '2'], by simp, by simp⟩],
    .between ⟨['1'], by simp, by simp⟩ ⟨['2'], by simp, by simp⟩, .filler ' ' (by decide), .star,
    .exactly ⟨['9'], by simp, by simp⟩, .slots (.slot ⟨['1'], by simp, by simp⟩) []]

/-- The first quantity and the first list of slots count, and the star lets in all other
ships. Of the listed slots neither the order nor the repetition matters. -/
theorem requirements_of_grammar_crowded :
    let slots := SlotSet.ofList [0, 2]
    requirements "(!(BB|@03)[2,0,level>70,02]{1,2} *{9}[1]" =
        .ok [⟨[.code "BB", .shipClass 3, .wildcard], .between 1 2, slots, 70, true⟩] ∧
      ∀ slot, slot ∈ slots ↔ slot = 0 ∨ slot = 2 := by
  intro slots
  have hapart : crowded.LevelApart := by
    intro t n _ _
    simp [crowded]
  have hdemand : crowded.demand =
      ⟨[.code "BB", .shipClass 3, .wildcard], .between 1 2, slots, 70, true⟩ := by
    decide +kernel
  have hlisted : (crowded.fields.filterMap Field.slots?).head? = some [2, 0, 2] := by
    decide +kernel
  obtain ⟨hread, -, hslots⟩ := crowded.requirements_of_grammar (by decide) hapart
    ⟨'!', by decide, by decide⟩
  have hanswer := hread (by decide)
  rw [hdemand] at hanswer hslots
  refine ⟨hanswer, fun slot => (hslots slot).trans ?_⟩
  rw [hlisted]
  simp only [Option.mem_some_iff, exists_eq_left', List.mem_cons, List.not_mem_nil]
  tauto

end Written
end FleetComposition
