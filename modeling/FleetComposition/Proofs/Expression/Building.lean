import FleetComposition.Proofs.Distinct
import FleetComposition.Proofs.Segment.Canonical

/-!
# Requirements built step by step

A requirement can be built from a list of tokens and changed step by step instead of being
read. Its text then states all that it demands. Only the tokens are taken as they are given:
if one of them is listed twice, the text is read as a requirement that lists it once, and
this is another one.
-/
namespace FleetComposition
namespace Requirement

/-- A change of one part of a requirement. -/
inductive Step where
  | quantity (quantity : Quantity)
  | slots (slots : List UInt32)
  | level (level : UInt32)
  | forbidden

def Step.Valid : Step → Prop
  | quantity q => q.Valid
  | _ => True

instance : (s : Step) → Decidable s.Valid
  | .quantity q => inferInstanceAs (Decidable q.Valid)
  | .slots _ => .isTrue trivial
  | .level _ => .isTrue trivial
  | .forbidden => .isTrue trivial

def step (r : Requirement) : Step → Requirement
  | .quantity q => r.withQuantity q
  | .slots slots => r.withSlots slots
  | .level level => r.withLevel level
  | .forbidden => r.forbidden

def build (tokens : List ShipToken) (steps : List Step) : Requirement :=
  steps.foldl step (ofTokens tokens)

/-- All that is required of a requirement that a segment can state, except that a token may
be listed more than once. -/
structure Spellable (r : Requirement) : Prop where
  nonempty : r.tokens ≠ []
  tokens : ∀ token ∈ r.tokens, token.WellFormed
  quantity : r.quantity.Valid

/-- The requirement with every token listed once. -/
def withoutRepetitions (r : Requirement) : Requirement :=
  { r with tokens := r.tokens.eraseDups }

variable {r : Requirement}

lemma Spellable.wellFormed (h : r.Spellable) : r.withoutRepetitions.WellFormed where
  nonempty := fun hnil => h.nonempty <| List.eq_nil_iff_forall_not_mem.mpr fun token htoken => by
    have hmem : token ∈ r.tokens.eraseDups := List.mem_eraseDups.mpr htoken
    rw [show r.tokens.eraseDups = [] from hnil] at hmem
    cases hmem
  distinct := nodup_eraseDups _
  tokens := fun token htoken => h.tokens token (List.mem_eraseDups.mp htoken)
  quantity := h.quantity

lemma withoutRepetitions_eq_iff : r.withoutRepetitions = r ↔ r.tokens.Nodup := by
  constructor
  · intro h
    rw [← h]
    exact nodup_eraseDups _
  · intro h
    rw [withoutRepetitions, Written.eraseDups_of_nodup h]

end Requirement

/-! ## Texts with repeated tokens -/

namespace Written

variable {r : Requirement} (h : r.Spellable)

/-- The canonical spelling, in which tokens are repeated as they are listed. -/
def ofSpellable (r : Requirement) (h : r.Spellable) : Written :=
  { ofRequirement r.withoutRepetitions h.wellFormed with
    tokens := r.tokens.pmap Token.ofToken h.tokens }

lemma text_ofSpellable : (ofSpellable r h).text = r.text.toList :=
  text_of_canonical_parts rfl rfl (text_pmap_ofToken h.tokens)
    (text_fields_ofRequirement h.wellFormed)

/-- Read by the rules, a repeated token counts once. -/
lemma demand_ofSpellable : (ofSpellable r h).demand = r.withoutRepetitions := by
  have hnamed : (ofSpellable r h).named =
      (ofRequirement r.withoutRepetitions h.wellFormed).named := by
    rw [named, named, tokens_ofRequirement, ofSpellable, token_pmap_ofToken]
    exact (eraseDups_of_nodup (nodup_eraseDups _)).symm
  have hsome : (ofSpellable r h).tokens ≠ [] := by
    simpa [ofSpellable] using h.nonempty
  have hsome' : (ofRequirement r.withoutRepetitions h.wellFormed).tokens ≠ [] := by
    simpa [ofRequirement] using h.wellFormed.nonempty
  rw [← demand_ofRequirement h.wellFormed, demand, demand, hnamed]
  simp only [hsome, hsome']
  rfl

lemma fits_ofSpellable : (ofSpellable r h).Fits := by
  refine ⟨fun t ht => ?_, (fits_ofRequirement h.wellFormed).2⟩
  obtain ⟨s, hs, rfl⟩ := List.mem_pmap.mp ht
  exact Name.fits_ofToken _

lemma levelApart_ofSpellable : (ofSpellable r h).LevelApart := levelApart_of_quantity rfl

/-- A quantity is always written. -/
lemma exists_not_isBlank_ofSpellable : ∃ c ∈ (ofSpellable r h).text, Text.isBlank c = false := by
  have hfield : (Field.ofQuantity r.quantity).field? ≠ none := by
    rw [Field.field?_ofQuantity]
    exact Option.some_ne_none _
  obtain ⟨c, hc⟩ := List.exists_mem_of_ne_nil _ (Field.text_ne_nil (.ofQuantity r.quantity))
  have hmem : c ∈ (ofSpellable r h).fields.flatMap Field.text :=
    List.mem_flatMap.mpr ⟨_, List.mem_cons_self, hc⟩
  exact ⟨c, List.mem_append_right _ hmem, isBlank_of_isSolid (Field.isSolid hfield c hc)⟩

end Written

namespace Requirement

variable {r : Requirement}

/-- The text of a requirement states the requirement with every token listed once. -/
theorem Spellable.requirements_text (h : r.Spellable) :
    requirements r.text = .ok [r.withoutRepetitions] := by
  have hread := (Written.ofSpellable r h).requirements_ofList_text (Written.fits_ofSpellable h)
    (Written.levelApart_ofSpellable h) (Written.exists_not_isBlank_ofSpellable h)
  have hdemand := Written.demand_ofSpellable h
  have hvalid : (Written.ofSpellable r h).demand.quantity.Valid := by
    rw [hdemand]
    exact h.quantity
  rw [Written.text_ofSpellable, String.ofList_toList,
    Written.requirement_segment_of_valid _ hvalid, hdemand] at hread
  exact hread

/-! ## Runs of steps -/

lemma tokens_step (r : Requirement) (s : Step) : (r.step s).tokens = r.tokens := by
  cases s <;> rfl

lemma Spellable.step (h : r.Spellable) {s : Step} (hs : s.Valid) : (r.step s).Spellable where
  nonempty := by
    rw [tokens_step]
    exact h.nonempty
  tokens := by
    rw [tokens_step]
    exact h.tokens
  quantity := by
    cases s with
    | quantity q => exact hs
    | _ => exact h.quantity

lemma Spellable.ofTokens {tokens : List ShipToken} (h : ∀ token ∈ tokens, token.WellFormed) :
    (ofTokens tokens).Spellable := by
  have hquantity : (Requirement.ofTokens tokens).quantity.Valid := by
    rw [show (Requirement.ofTokens tokens).quantity = .one from rfl]
    decide
  cases tokens with
  | nil => exact ⟨List.cons_ne_nil _ _, List.forall_mem_singleton.mpr trivial, hquantity⟩
  | cons token tokens => exact ⟨List.cons_ne_nil _ _, h, hquantity⟩

/-- Without any token the wildcard stands alone. -/
lemma nodup_ofTokens {tokens : List ShipToken} :
    (ofTokens tokens).tokens.Nodup ↔ tokens.Nodup := by
  cases tokens with
  | nil => simp [ofTokens]
  | cons token tokens => rfl

section Run

variable {tokens : List ShipToken} {steps : List Step}

lemma foldl_step (h : r.Spellable) (hsteps : ∀ s ∈ steps, s.Valid) :
    (steps.foldl step r).Spellable ∧ (steps.foldl step r).tokens = r.tokens := by
  induction steps generalizing r with
  | nil => exact ⟨h, rfl⟩
  | cons s steps ih =>
    obtain ⟨hs, hrest⟩ := List.forall_mem_cons.mp hsteps
    obtain ⟨hspellable, htokens⟩ := ih (h.step hs) hrest
    exact ⟨hspellable, htokens.trans (tokens_step r s)⟩

/-- A requirement that is built in valid steps lists the tokens it was given, and any ship if
there were none. Its text is read as the requirement that lists every token once, so it is
read back as it is just if no token was given twice. -/
theorem requirements_text_build (htokens : ∀ token ∈ tokens, token.WellFormed)
    (hsteps : ∀ s ∈ steps, s.Valid) :
    let r := build tokens steps
    r.tokens ≠ [] ∧ r.tokens = (if tokens.isEmpty then [.wildcard] else tokens) ∧
      requirements r.text = .ok [{ r with tokens := r.tokens.eraseDups }] ∧
      (r.WellFormed ∧ requirements r.text = .ok [r] ↔ tokens.Nodup) := by
  intro r
  obtain ⟨hr, hlisted⟩ : r.Spellable ∧ r.tokens = (ofTokens tokens).tokens :=
    foldl_step (.ofTokens htokens) hsteps
  have hread := hr.requirements_text
  refine ⟨hr.nonempty, hlisted, hread, fun ⟨hr', _⟩ => ?_, fun hnodup => ?_⟩
  · rw [← nodup_ofTokens, ← hlisted]
    exact hr'.distinct
  · rw [← nodup_ofTokens, ← hlisted] at hnodup
    have hsame : r.withoutRepetitions = r := withoutRepetitions_eq_iff.mpr hnodup
    rw [hsame] at hread
    exact ⟨hsame ▸ hr.wellFormed, hread⟩

end Run

/-- The last step of a kind counts, and the slots are put in order. -/
theorem requirements_text_build_overruled :
    let r := build [.ship 543, .code "DD", .wildcard]
      [.quantity (.atLeast 2), .slots [1], .level 70, .forbidden, .slots [3, 0, 3],
        .quantity (.between 1 2)]
    r.text = "!#543|DD|ANY\x7b1,2\x7d[0,3,level>70]" ∧ r.WellFormed ∧
      requirements "!#543|DD|ANY\x7b1,2\x7d[0,3,level>70]" = .ok [r] := by
  intro r
  have htext : r.text = "!#543|DD|ANY\x7b1,2\x7d[0,3,level>70]" := by decide +kernel
  have hbuild : r.WellFormed ∧ requirements r.text = .ok [r] :=
    (requirements_text_build (by decide) (by decide)).2.2.2.mpr (by decide)
  exact ⟨htext, hbuild.1, htext ▸ hbuild.2⟩

/-- A token that is given twice is listed twice, and so the text is read as another
requirement. -/
theorem build_repeats_token :
    let r := build [.code "BB", .code "BB"] []
    (∀ token ∈ [ShipToken.code "BB", .code "BB"], token.WellFormed) ∧ ¬r.tokens.Nodup ∧
      requirements r.text = .ok [⟨[.code "BB"], .one, .empty, 0, false⟩] ∧
      requirements r.text ≠ .ok [r] := by
  decide +kernel

end Requirement
end FleetComposition
