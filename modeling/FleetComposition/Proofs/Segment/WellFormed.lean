import FleetComposition.Proofs.Distinct
import FleetComposition.Proofs.Expression.Segments
import FleetComposition.Proofs.Text.Run
import Mathlib.Data.List.Nodup

/-!
# Well-formed requirements

Whatever text is read, the tokens that come out are words or references that an
expression can spell, and the rules of a segment keep the requirement well
formed. So every requirement of an expression that can be read is well formed,
and there is one for each of its segments.
-/
namespace FleetComposition

open Text

/-! ## Tokens that are read -/

lemma ShipToken.wellFormed_ofWord {letters : List Char} (hne : letters ≠ [])
    (hletters : ∀ c ∈ letters, isWordChar c) :
    (ShipToken.ofWord (String.ofList letters)).WellFormed := by
  unfold ShipToken.ofWord
  split
  next => trivial
  next hkey => exact ⟨by simpa using hne, by simpa using hletters, hkey⟩

namespace Segment.Reader

theorem wellFormed_of_word {cs rest : List Char} {t : ShipToken} (h : word cs = .found t rest) :
    t.WellFormed := by
  unfold word at h
  split at h
  next => cases h
  next hne =>
    obtain ⟨rfl, -⟩ := Reading.found.inj h
    exact ShipToken.wellFormed_ofWord hne fun c hc => List.mem_takeWhile_imp hc

theorem wellFormed_of_bareToken {cs rest : List Char} {t : ShipToken}
    (h : bareToken cs = .found t rest) : t.WellFormed := by
  unfold bareToken at h
  split at h
  next =>
    obtain ⟨id, -, rfl⟩ := Reading.map_eq_found h
    trivial
  next =>
    obtain ⟨id, -, rfl⟩ := Reading.map_eq_found h
    trivial
  next => exact wellFormed_of_word h

theorem wellFormed_of_token {cs rest : List Char} {t : ShipToken} (h : token cs = .found t rest) :
    t.WellFormed := by
  unfold token closedToken at h
  split at h
  next => cases h
  next => cases h
  next =>
    obtain ⟨s, left, hs, hfound⟩ := Reading.andThen_eq_found h
    obtain ⟨rfl, -⟩ := Reading.found.inj hfound
    exact wellFormed_of_bareToken hs

/-- What holds of every item that is read holds of all items of a repetition. -/
theorem forall_mem_of_further {α : Type} {P : α → Prop} {item : Reader α}
    {progress : item.Progresses} {separator : Char}
    (hitem : ∀ cs a rest, item cs = .found a rest → P a) {cs left : List Char} {items : List α}
    (h : further item progress separator cs = .ok (items, left)) : ∀ a ∈ items, P a := by
  fun_induction further item progress separator cs generalizing items left with
  | case1 => cases h; simp
  | case2 behind a rest hfound more last hrec ih =>
    cases h
    exact List.forall_mem_cons.mpr ⟨hitem _ _ _ hfound, ih hrec⟩
  | case3 => cases h
  | case4 => cases h; simp
  | case5 => cases h
  | case6 => cases h; simp

theorem forall_mem_of_separated {α : Type} {P : α → Prop} {item : Reader α}
    {progress : item.Progresses} {separator : Char}
    (hitem : ∀ cs a rest, item cs = .found a rest → P a) {cs left : List Char} {items : List α}
    (h : separated item progress separator cs = .found items left) : ∀ a ∈ items, P a := by
  unfold separated at h
  split at h
  next a rest hfound =>
    split at h
    next more last hrec =>
      obtain ⟨rfl, -⟩ := Reading.found.inj h
      exact List.forall_mem_cons.mpr ⟨hitem _ _ _ hfound, forall_mem_of_further hitem hrec⟩
    next => cases h
  next => cases h
  next => cases h

theorem wellFormed_of_tokens {cs rest : List Char} {ts : List ShipToken}
    (h : tokens cs = .ok (ts, rest)) : ∀ t ∈ ts, t.WellFormed := by
  unfold tokens at h
  split at h
  next hfound =>
    cases h
    exact forall_mem_of_separated (fun _ _ _ => wellFormed_of_token) hfound
  next => cases h; simp
  next => cases h

end Segment.Reader

theorem Segment.wellFormed_of_read {cs : List Char} {s : Segment} (h : Segment.read cs = .ok s) :
    ∀ t ∈ s.tokens, t.WellFormed := by
  unfold Segment.read at h
  simp only at h
  split at h
  next ts rest htokens =>
    cases hfields : Reader.fields rest with
    | error e => rw [hfields] at h; cases h
    | ok fs =>
      rw [hfields] at h
      cases h
      exact Reader.wellFormed_of_tokens htokens
  next => cases h

/-! ## Requirements of segments -/

namespace Segment

variable (s : Segment)

lemma nodup_allTokens : s.allTokens.Nodup := by
  unfold allTokens
  simp only
  split
  next h =>
    have hany : ShipToken.wildcard ∉ s.tokens.eraseDups := by
      simpa using (Bool.and_eq_true_iff.mp h).2
    exact List.nodup_append.mpr ⟨nodup_eraseDups _, by simp, by
      rintro t ht _ hw rfl
      obtain rfl := List.mem_singleton.mp hw
      exact hany ht⟩
  next => exact nodup_eraseDups _

lemma allTokens_ne_nil : s.allTokens ≠ [] := by
  unfold allTokens
  simp only
  split
  next => simp
  next h =>
    intro hnil
    have hnone : s.tokens = [] := by
      refine List.eq_nil_iff_forall_not_mem.mpr fun t ht => ?_
      rw [← List.mem_eraseDups, hnil] at ht
      cases ht
    simp [hnone] at h

lemma wellFormed_allTokens (h : ∀ t ∈ s.tokens, t.WellFormed) :
    ∀ t ∈ s.allTokens, t.WellFormed := by
  have hdistinct : ∀ t ∈ s.tokens.eraseDups, t.WellFormed :=
    fun t ht => h t (List.mem_eraseDups.mp ht)
  unfold allTokens
  simp only
  split
  next => exact List.forall_mem_append.mpr ⟨hdistinct, by simp [ShipToken.WellFormed]⟩
  next => exact hdistinct

variable {s}

theorem wellFormed_of_requirement {r : Requirement} (hs : ∀ t ∈ s.tokens, t.WellFormed)
    (h : s.requirement = .ok r) : r.WellFormed := by
  have hr : r = ⟨s.allTokens, s.quantity, s.slots, s.level, s.negated⟩ ∧ s.quantity.Valid := by
    unfold requirement at h
    simp only at h
    split at h
    next max hmax =>
      split at h
      next => cases h
      next hle =>
        refine ⟨(Except.ok.inj h).symm, fun m hm => ?_⟩
        rw [hmax] at hm
        obtain rfl := Option.some.inj hm
        exact UInt32.not_lt.mp hle
    next hmax =>
      refine ⟨(Except.ok.inj h).symm, fun m hm => ?_⟩
      rw [hmax] at hm
      cases hm
  obtain ⟨rfl, hvalid⟩ := hr
  exact ⟨s.allTokens_ne_nil, s.nodup_allTokens, s.wellFormed_allTokens hs, hvalid⟩

end Segment

/-! ## Requirements of expressions -/

lemma States.wellFormed {raw : List Char} {r : Requirement} (h : States raw r) : r.WellFormed := by
  obtain ⟨-, s, hread, hs⟩ := h
  exact Segment.wellFormed_of_requirement (Segment.wellFormed_of_read hread) hs

lemma wellFormed_of_states {raws : List (List Char)} {rs : List Requirement}
    (h : List.Forall₂ States raws rs) : ∀ r ∈ rs, r.WellFormed := by
  induction h with
  | nil => simp
  | cons hr _ ih => exact List.forall_mem_cons.mpr ⟨hr.wellFormed, ih⟩

/-- An expression that can be read has one well-formed requirement for each of
its segments. -/
theorem wellFormed_of_requirements {text : String} {rs : List Requirement}
    (h : requirements text = .ok rs) :
    rs.length = ((trim text.toList).splitOn separator).length ∧
      rs.length = text.toList.count separator + 1 ∧
      ∀ r ∈ rs, r.WellFormed ∧ r.tokens.count .wildcard ≤ 1 := by
  have hstates := requirements_eq_ok_iff.mp h
  have hlength := hstates.length_eq
  refine ⟨hlength.symm, ?_, fun r hr => ?_⟩
  · rw [← hlength, length_splitOn, count_trim (by decide)]
  · have hr' := wellFormed_of_states hstates r hr
    exact ⟨hr', List.nodup_iff_count_le_one.mp hr'.distinct .wildcard⟩

/-- The wildcard of a star and a listed one are the same token. -/
theorem wellFormed_of_requirements_starred :
    ∃ rs, requirements "ANY|DD|DD*-@3\x7b2\x7d" = .ok rs ∧ rs.length = 2 ∧
      ∀ r ∈ rs, r.WellFormed ∧ r.tokens.count .wildcard ≤ 1 := by
  have hreads : (requirements "ANY|DD|DD*-@3\x7b2\x7d").isOk := by decide +kernel
  cases h : requirements "ANY|DD|DD*-@3\x7b2\x7d" with
  | error e =>
    rw [h] at hreads
    cases hreads
  | ok rs =>
    obtain ⟨-, hlength, hrs⟩ := wellFormed_of_requirements h
    exact ⟨rs, rfl, hlength.trans (by decide), hrs⟩

end FleetComposition
