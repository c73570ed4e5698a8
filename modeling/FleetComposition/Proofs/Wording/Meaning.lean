import FleetComposition.Proofs.Describer.Transparency
import FleetComposition.Proofs.Wording.Splitting
import FleetComposition.Proofs.Wording.Unambiguous

/-!
# What a sentence means

A sentence says whether other ships are welcome and what each visible requirement
provides for, and nothing else. In English it always says so unambiguously, and in
Chinese it does so as long as type codes are plain ASCII.
-/
namespace FleetComposition

open Text

/-- The requirements that provide for nothing but other ships. -/
def placeholders : List Requirement :=
  [⟨[.wildcard], .one, .empty, 0, false⟩, ⟨[.wildcard], .unbounded, .empty, 0, false⟩]

lemma mem_placeholders {r : Requirement} : r ∈ placeholders ↔ r.isPlaceholder = true := by
  rw [Requirement.isPlaceholder_iff]
  simp [placeholders]

/-- What requirements say together: whether other ships are welcome, and what each of
the visible ones provides for. -/
@[ext] structure Meaning where
  welcoming : Bool
  provisions : List Provision
  deriving DecidableEq

/-- Other ships are welcome as soon as one requirement lists the wildcard, be it visible
or not. -/
def meaning (rs : List Requirement) : Meaning where
  welcoming := decide (∃ r ∈ rs, .wildcard ∈ r.tokens)
  provisions := (rs.filter (· ∉ placeholders)).map Requirement.provision

section Reading

variable (rs : List Requirement)

lemma welcoming_meaning : (meaning rs).welcoming = rs.any Requirement.hasWildcard := by
  rw [Bool.eq_iff_iff, List.any_eq_true]
  simp only [meaning, decide_eq_true_eq, Requirement.hasWildcard_iff]

lemma provisions_meaning :
    (meaning rs).provisions = (rs.filter fun r => !r.isPlaceholder).map Requirement.provision := by
  have hvisible : ∀ r ∈ rs, decide (r ∉ placeholders) = !r.isPlaceholder := by
    intro r _
    rw [Bool.eq_iff_iff]
    simp [mem_placeholders]
  rw [meaning, List.filter_congr hvisible]

end Reading

section Sentence

variable {naming : Naming} {language : Language} {rs ss : List Requirement}

/-- The clauses of requirements are those that are neither the closing clause nor the
sentence that restricts nothing. -/
lemma filter_clauses :
    ((clauses naming language rs).filter fun clause =>
      decide (clause ∉ [(Lexicon.ofLanguage language).unrestricted,
        (Lexicon.ofLanguage language).noOtherTypes])) = statedClauses naming language rs := by
  have hstated : ((statedClauses naming language rs).filter fun clause =>
      decide (clause ∉ [(Lexicon.ofLanguage language).unrestricted,
        (Lexicon.ofLanguage language).noOtherTypes])) = statedClauses naming language rs := by
    refine List.filter_eq_self.mpr fun clause hclause => ?_
    obtain ⟨r, -, rfl⟩ := List.mem_map.mp hclause
    simp [r.clause_ne_unrestricted naming language, r.clause_ne_noOtherTypes naming language]
  rw [clauses_eq]
  split
  next =>
    split
    next hempty => simp [List.isEmpty_iff.mp hempty]
    next => exact hstated
  next => rw [List.filter_append, hstated]; simp

/-- A sentence says whether other ships are welcome and has the clauses of the
requirements in order, and nothing else makes a difference to it. -/
theorem sentence_eq_iff (hrs : ∀ r ∈ rs, r.WellFormed) (hss : ∀ s ∈ ss, s.WellFormed)
    (hnaming : naming.CommaFree) :
    sentence naming language rs = sentence naming language ss ↔
      rs.any Requirement.hasWildcard = ss.any Requirement.hasWildcard ∧
        statedClauses naming language rs = statedClauses naming language ss := by
  constructor
  · intro heq
    have hclauses : clauses naming language rs = clauses naming language ss := by
      rw [← splitText_sentence hrs hnaming, ← splitText_sentence hss hnaming, heq]
    have hclosing : rs.any Requirement.hasWildcard = false ↔
        ss.any Requirement.hasWildcard = false := by
      rw [← @noOtherTypes_mem_clauses_iff naming language rs, hclauses,
        noOtherTypes_mem_clauses_iff]
    constructor
    · rw [Bool.eq_iff_iff, ← Bool.not_eq_false, ← Bool.not_eq_false, hclosing]
    · rw [← filter_clauses, ← filter_clauses, hclauses]
  · rintro ⟨hwelcoming, hstated⟩
    rw [sentence, sentence, clauses_eq, clauses_eq, hwelcoming, hstated]

variable {p : Char → Bool}

/-- In a legible language, sentences are alike just if the requirements mean the same. -/
theorem Language.Legible.sentence_eq_iff_meaning_eq (h : language.Legible p)
    (hrs : ∀ r ∈ rs, r.WellFormed ∧ r.Spelt p) (hss : ∀ r ∈ ss, r.WellFormed ∧ r.Spelt p) :
    sentence .verbatim language rs = sentence .verbatim language ss ↔ meaning rs = meaning ss := by
  rw [sentence_eq_iff (fun r hr => (hrs r hr).1) (fun s hs => (hss s hs).1)
    Naming.commaFree_verbatim, ← welcoming_meaning, ← welcoming_meaning, Meaning.ext_iff,
    provisions_meaning, provisions_meaning]
  refine and_congr_right fun _ => ⟨fun hstated => ?_, fun hprovisions => ?_⟩
  · exact map_eq_map_of_map_eq_map (g := Requirement.provision)
      (fun _ _ => h.provision_eq_of_clause_eq)
      (fun r hr => (hrs r (List.mem_filter.mp hr).1).2)
      (fun s hs => (hss s (List.mem_filter.mp hs).1).2) hstated
  · exact map_eq_map_of_map_eq_map (P := fun _ => True)
      (fun _ _ _ _ heq => Requirement.clause_eq_of_provision_eq heq .verbatim language)
      (fun _ _ => trivial) (fun _ _ => trivial) hprovisions

end Sentence

/-! ## Names in plain ASCII -/

/-- The token is no type code, or one in plain ASCII. -/
def ShipToken.HasAsciiCode : ShipToken → Prop
  | .code word => ∀ c ∈ word.toList, c.toNat < 128
  | _ => True

instance ShipToken.decidableHasAsciiCode : (token : ShipToken) → Decidable token.HasAsciiCode
  | .code word =>
    decidable_of_iff (word.toList.all fun c => decide (c.toNat < 128)) <| by
      simp only [List.all_eq_true, decide_eq_true_eq, HasAsciiCode]
  | .shipClass _ => .isTrue trivial
  | .ship _ => .isTrue trivial
  | .wildcard => .isTrue trivial

lemma ShipToken.toNat_lt_of_mem_text {token : ShipToken} (h : token.HasAsciiCode) :
    ∀ c ∈ token.text.toList, c.toNat < 128 := by
  have hreference : ∀ (sign : String) (id : UInt32), (∀ c ∈ sign.toList, c.toNat < 128) →
      ∀ c ∈ (sign ++ numeral id).toList, c.toNat < 128 := by
    intro sign id hsign
    rw [String.toList_append]
    refine List.forall_mem_append.mpr ⟨hsign, Stems.forall_mem_numeral (fun c hc => ?_) id⟩
    have hle := (Char.isDigit_iff_toNat.mp hc).2
    exact Nat.lt_of_le_of_lt hle (by decide)
  cases token with
  | code word => exact h
  | shipClass id => exact hreference "@" id (List.forall_mem_singleton.mpr (by decide))
  | ship id => exact hreference "#" id (List.forall_mem_singleton.mpr (by decide))
  | wildcard => exact forall_mem_of_all (by decide)

namespace Requirement.WellFormed

variable {r : Requirement} (h : r.WellFormed)
include h

lemma spelt : r.Spelt Written.Name.isStart := fun token htoken =>
  have htoken := h.tokens token htoken
  ⟨htoken, ShipToken.isStart_of_mem_text htoken⟩

lemma spelt_ascii (hascii : ∀ token ∈ r.tokens, token.HasAsciiCode) :
    r.Spelt isAsciiNameChar := fun token htoken => by
  refine ⟨h.tokens token htoken, fun c hc => ?_⟩
  have hstart := ShipToken.isStart_of_mem_text (h.tokens token htoken) c hc
  have hsmall := ShipToken.toNat_lt_of_mem_text (hascii token htoken) c hc
  simp [isAsciiNameChar, hstart, hsmall]

end Requirement.WellFormed

/-! ## Answers -/

namespace Describer

lemma describeAfresh_of_requirements {text : String} {rs : List Requirement}
    (h : requirements text = .ok rs) (naming : Naming) (language : Language) :
    describeAfresh naming text language = .ok (sentence naming language rs) := by
  rw [describeAfresh, Expression.parse, h]
  rfl

/-- A text that can be read gets the sentence of its requirements, with a cache or without. -/
lemma describeInTag_of_requirements {text tag : String} {rs : List Requirement}
    {language : Language} (h : requirements text = .ok rs)
    (htag : Language.ofTag tag = .ok language) (settings : Settings) (naming : Naming) :
    ((ofSettings settings naming).describeInTag text tag).1 =
      .ok (sentence naming language rs) := by
  have hdescribe := ((Faithful.ofSettings settings naming).describeInTag text tag).1
  rw [htag] at hdescribe
  exact hdescribe.trans (describeAfresh_of_requirements h naming language)

/-- Two texts that can be read get the same answer just if they mean the same. In
Chinese this needs type codes in plain ASCII, or else a code might end in what looks
like the rest of the clause. -/
theorem describeInTag_agrees_iff_meaning_eq (settings : Settings) {text other tag : String}
    {rs ss : List Requirement} (hrs : requirements text = .ok rs)
    (hss : requirements other = .ok ss)
    (htag : tag = "en" ∨ (tag = "zh_Hans" ∨ tag = "zh_Hant") ∧
      ∀ r ∈ rs ++ ss, ∀ token ∈ r.tokens, token.HasAsciiCode) :
    let answer := fun text => ((ofSettings settings .verbatim).describeInTag text tag).1
    ∃ said otherSaid, answer text = .ok said ∧ answer other = .ok otherSaid ∧
      (said = otherSaid ↔ meaning rs = meaning ss) := by
  intro answer
  have hwellFormed : ∀ r ∈ rs ++ ss, r.WellFormed :=
    List.forall_mem_append.mpr ⟨wellFormed_of_states (requirements_eq_ok_iff.mp hrs),
      wellFormed_of_states (requirements_eq_ok_iff.mp hss)⟩
  have hlegible : ∃ language p, Language.ofTag tag = .ok language ∧ language.Legible p ∧
      ∀ r ∈ rs ++ ss, r.Spelt p := by
    rcases htag with rfl | ⟨rfl | rfl, hascii⟩
    · exact ⟨.english, _, rfl, legible_english, fun r hr => (hwellFormed r hr).spelt⟩
    · exact ⟨.simplifiedChinese, _, rfl, legible_of_ne_japanese (by decide),
        fun r hr => (hwellFormed r hr).spelt_ascii (hascii r hr)⟩
    · exact ⟨.traditionalChinese, _, rfl, legible_of_ne_japanese (by decide),
        fun r hr => (hwellFormed r hr).spelt_ascii (hascii r hr)⟩
  obtain ⟨language, p, hlanguage, hlegible, hspelt⟩ := hlegible
  have hanswer : ∀ {text rs}, requirements text = .ok rs →
      answer text = .ok (sentence .verbatim language rs) :=
    fun hrs => describeInTag_of_requirements hrs hlanguage settings .verbatim
  have hgood : ∀ r ∈ rs ++ ss, r.WellFormed ∧ r.Spelt p :=
    fun r hr => ⟨hwellFormed r hr, hspelt r hr⟩
  obtain ⟨hgoodRs, hgoodSs⟩ := List.forall_mem_append.mp hgood
  exact ⟨_, _, hanswer hrs, hanswer hss, hlegible.sentence_eq_iff_meaning_eq hgoodRs hgoodSs⟩

/-- A star and a listed wildcard mean the same, whatever the codes look like. Without the
slot of the flagship the meaning is another, and so it is without the wildcard. -/
theorem describeInTag_agrees_iff_meaning_eq_starred :
    let answer := fun text tag => ((ofSettings .standard .verbatim).describeInTag text tag).1
    answer "ANY|or|as[4,0]" "en" = answer "or|as*[0]" "en" ∧
      answer "or|as*[4]" "zh_Hans" ≠ answer "or|as*[0]" "zh_Hans" ∧
      answer "or|as[0]" "zh_Hant" ≠ answer "or|as*[0]" "zh_Hant" := by
  intro answer
  have hstarred : requirements "or|as*[0]" =
      .ok [⟨[.code "or", .code "as", .wildcard], .one, .ofList [0], 0, false⟩] := by
    decide +kernel
  have hlisted : requirements "ANY|or|as[4,0]" =
      .ok [⟨[.wildcard, .code "or", .code "as"], .one, .ofList [0, 4], 0, false⟩] := by
    decide +kernel
  have helsewhere : requirements "or|as*[4]" =
      .ok [⟨[.code "or", .code "as", .wildcard], .one, .ofList [4], 0, false⟩] := by
    decide +kernel
  have hclosed : requirements "or|as[0]" =
      .ok [⟨[.code "or", .code "as"], .one, .ofList [0], 0, false⟩] := by
    decide +kernel
  refine ⟨?_, ?_, ?_⟩
  · obtain ⟨said, otherSaid, hsaid, hother, hagrees⟩ :=
      describeInTag_agrees_iff_meaning_eq .standard hlisted hstarred (.inl rfl)
    rw [show answer _ _ = _ from hsaid, show answer _ _ = _ from hother,
      hagrees.mpr (by decide)]
  · obtain ⟨said, otherSaid, hsaid, hother, hagrees⟩ :=
      describeInTag_agrees_iff_meaning_eq .standard helsewhere hstarred
        (.inr ⟨.inl rfl, by decide⟩)
    rw [show answer _ _ = _ from hsaid, show answer _ _ = _ from hother]
    intro hsame
    exact absurd (hagrees.mp (Except.ok.inj hsame)) (by decide)
  · obtain ⟨said, otherSaid, hsaid, hother, hagrees⟩ :=
      describeInTag_agrees_iff_meaning_eq .standard hclosed hstarred
        (.inr ⟨.inr rfl, by decide⟩)
    rw [show answer _ _ = _ from hsaid, show answer _ _ = _ from hother]
    intro hsame
    exact absurd (hagrees.mp (Except.ok.inj hsame)) (by decide)

end Describer

end FleetComposition
