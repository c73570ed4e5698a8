import FleetComposition.Proofs.Segment.WellFormed
import FleetComposition.Proofs.Text.Pieces
import FleetComposition.Proofs.Wording.Clauses

/-!
# Splitting a sentence

A sentence splits at its clause separators into the clauses of the visible requirements,
in order, and the closing clause if there is one. The closing clause and the sentence
that restricts nothing are never the clause of a requirement.
-/
namespace FleetComposition

open Text

namespace Lexicon

variable (language : Language)

/-- The texts that stand for no requirement have neither commas nor digits. -/
lemma plain_closing : ∀ c ∈ (ofLanguage language).noOtherTypes.toList ++
    (ofLanguage language).unrestricted.toList, c ∉ commas ∧ c.isDigit = false := by
  cases language <;> exact forall_mem_of_all (by decide +kernel)

lemma noOtherTypes_ne_unrestricted :
    (ofLanguage language).noOtherTypes ≠ (ofLanguage language).unrestricted := by
  cases language <;> decide

lemma clauseSeparator_eq : ∃ c cs, (ofLanguage language).clauseSeparator.toList = c :: cs ∧
    c ∈ commas := by
  cases language with
  | simplifiedChinese => exact ⟨'，', [], by decide, by decide⟩
  | traditionalChinese => exact ⟨'，', [], by decide, by decide⟩
  | japanese => exact ⟨'、', [], by decide, by decide⟩
  | english => exact ⟨',', [' '], by decide, by decide⟩

end Lexicon

lemma not_mem_commas_of_mem_fixedText {language : Language} :
    ∀ c ∈ fixedText language, c ∉ commas := by
  cases language <;> exact forall_mem_of_all (by decide +kernel)

namespace Requirement

variable (r : Requirement) (naming : Naming) (language : Language)

/-- A text without digits is no clause. -/
lemma clause_ne_of_not_isDigit {text : String} (h : ∀ c ∈ text.toList, c.isDigit = false) :
    r.clause naming language ≠ text := by
  rintro rfl
  obtain ⟨c, hc, hdigit⟩ := r.exists_isDigit_clause naming language
  rw [h c hc] at hdigit
  contradiction

theorem clause_ne_noOtherTypes :
    r.clause naming language ≠ (Lexicon.ofLanguage language).noOtherTypes :=
  r.clause_ne_of_not_isDigit naming language fun c hc =>
    (Lexicon.plain_closing language c (List.mem_append_left _ hc)).2

theorem clause_ne_unrestricted :
    r.clause naming language ≠ (Lexicon.ofLanguage language).unrestricted :=
  r.clause_ne_of_not_isDigit naming language fun c hc =>
    (Lexicon.plain_closing language c (List.mem_append_right _ hc)).2

variable {r naming}

theorem WellFormed.not_mem_commas (h : r.WellFormed) (hnaming : naming.CommaFree) :
    ∀ c ∈ (r.clause naming language).toList, c ∉ commas :=
  forall_mem_clause not_mem_commas_of_mem_fixedText (fun _ => not_mem_commas_of_isDigit)
    fun token htoken hne => hnaming token (h.tokens token htoken) hne language

end Requirement

/-! ## Sentences -/

section Sentence

variable {naming : Naming} {language : Language} {rs : List Requirement}

/-- The clauses of the requirements that a sentence mentions. -/
def statedClauses (naming : Naming) (language : Language) (rs : List Requirement) : List String :=
  (rs.filter fun r => !r.isPlaceholder).map fun r => r.clause naming language

lemma clauses_eq : clauses naming language rs =
    if rs.any Requirement.hasWildcard then
      if (statedClauses naming language rs).isEmpty then
        [(Lexicon.ofLanguage language).unrestricted]
      else statedClauses naming language rs
    else statedClauses naming language rs ++ [(Lexicon.ofLanguage language).noOtherTypes] :=
  rfl

lemma clauses_ne_nil : clauses naming language rs ≠ [] := by
  rw [clauses_eq]
  split
  next =>
    split
    next => simp
    next h => simpa using h
  next => simp

lemma mem_clauses {clause : String} (h : clause ∈ clauses naming language rs) :
    clause ∈ statedClauses naming language rs ∨
      clause = (Lexicon.ofLanguage language).unrestricted ∨
        clause = (Lexicon.ofLanguage language).noOtherTypes := by
  rw [clauses_eq] at h
  split at h
  next =>
    split at h
    next => exact .inr (.inl (by simpa using h))
    next => exact .inl h
  next =>
    rcases List.mem_append.mp h with h | h
    · exact .inl h
    · exact .inr (.inr (by simpa using h))

/-- A sentence splits into the clauses that it was joined from. -/
theorem splitText_sentence (hrs : ∀ r ∈ rs, r.WellFormed) (hnaming : naming.CommaFree) :
    splitText (Lexicon.ofLanguage language).clauseSeparator (sentence naming language rs) =
      clauses naming language rs := by
  obtain ⟨c, cs, hseparator, hcomma⟩ := Lexicon.clauseSeparator_eq language
  refine splitText_intercalate hseparator clauses_ne_nil fun clause hclause hmem => ?_
  have hplain := Lexicon.plain_closing language
  rcases mem_clauses hclause with hstated | rfl | rfl
  · obtain ⟨r, hr, rfl⟩ := List.mem_map.mp hstated
    have hr : r.WellFormed := hrs r (List.mem_filter.mp hr).1
    exact hr.not_mem_commas language hnaming c hmem hcomma
  · exact (hplain c (List.mem_append_right _ hmem)).1 hcomma
  · exact (hplain c (List.mem_append_left _ hmem)).1 hcomma

lemma not_mem_statedClauses {text : String}
    (h : ∀ r : Requirement, r.clause naming language ≠ text) :
    text ∉ statedClauses naming language rs := by
  intro hmem
  obtain ⟨r, -, hr⟩ := List.mem_map.mp hmem
  exact h r hr

/-- The closing clause tells whether other ships are ruled out. -/
theorem noOtherTypes_mem_clauses_iff :
    (Lexicon.ofLanguage language).noOtherTypes ∈ clauses naming language rs ↔
      rs.any Requirement.hasWildcard = false := by
  have hstated : (Lexicon.ofLanguage language).noOtherTypes ∉ statedClauses naming language rs :=
    not_mem_statedClauses fun r => r.clause_ne_noOtherTypes naming language
  rw [clauses_eq]
  cases rs.any Requirement.hasWildcard with
  | true =>
    simp only [if_true, Bool.true_eq_false, iff_false]
    split
    next => simpa using Lexicon.noOtherTypes_ne_unrestricted language
    next => exact hstated
  | false => simp

theorem clauses_eq_unrestricted_iff :
    clauses naming language rs = [(Lexicon.ofLanguage language).unrestricted] ↔
      rs.any Requirement.hasWildcard = true ∧ rs.filter (fun r => !r.isPlaceholder) = [] := by
  have hstated : (Lexicon.ofLanguage language).unrestricted ∉ statedClauses naming language rs :=
    not_mem_statedClauses fun r => r.clause_ne_unrestricted naming language
  have hnil : statedClauses naming language rs = [] ↔
      rs.filter (fun r => !r.isPlaceholder) = [] := List.map_eq_nil_iff
  rw [clauses_eq, ← hnil]
  cases rs.any Requirement.hasWildcard with
  | true =>
    simp only [if_true, true_and]
    split
    next h => simpa using h
    next h =>
      refine ⟨fun heq => ?_, fun heq => absurd (List.isEmpty_iff.mpr heq) h⟩
      rw [heq] at hstated
      simp at hstated
  | false =>
    simp only [Bool.false_eq_true, if_false, false_and, iff_false]
    intro heq
    have hlast : (Lexicon.ofLanguage language).noOtherTypes ∈
        [(Lexicon.ofLanguage language).unrestricted] := by
      rw [← heq]
      simp
    exact Lexicon.noOtherTypes_ne_unrestricted language (by simpa using hlast)

lemma sentence_ne_empty (hrs : ∀ r ∈ rs, r.WellFormed) (hnaming : naming.CommaFree) :
    sentence naming language rs ≠ "" := by
  intro hempty
  have hsplit : clauses naming language rs = [""] := by
    rw [← splitText_sentence hrs hnaming, hempty, splitText, String.toList_empty, pieces]
    rfl
  have hne : ∀ language, (Lexicon.ofLanguage language).noOtherTypes ≠ "" ∧
      (Lexicon.ofLanguage language).unrestricted ≠ "" := by
    intro language
    cases language <;> decide
  have hmem : "" ∈ clauses naming language rs := by simp [hsplit]
  rcases mem_clauses hmem with hstated | hlast | hlast
  · exact not_mem_statedClauses (fun r => r.clause_ne_of_not_isDigit naming language (by simp))
      hstated
  · exact (hne language).2 hlast.symm
  · exact (hne language).1 hlast.symm

end Sentence

/-! ## Sentences of expressions -/

lemma wellFormed_of_parse {text : String} {language : Language} {e : Expression}
    (h : Expression.parse text language = .ok e) :
    e.language = language ∧ ∀ r ∈ e.requirements, r.WellFormed := by
  unfold Expression.parse at h
  cases hread : requirements text with
  | error error =>
    rw [hread] at h
    cases h
  | ok rs =>
    rw [hread] at h
    cases h
    exact ⟨rfl, wellFormed_of_states (requirements_eq_ok_iff.mp hread)⟩

/-- A sentence splits into one clause for each visible requirement, and the closing
clause unless other ships are welcome. Without any clause it is the one sentence that
restricts nothing. No clause is mistaken for either of these. -/
theorem splitText_sentence_of_parse {text : String} {language : Language} {e : Expression}
    {naming : Naming} (hparse : Expression.parse text language = .ok e)
    (hnaming : naming = .verbatim ∨ ∃ table : NameTable, naming = table.naming ∧
      ∀ entry ∈ table.entries, ∀ c ∈ entry.2.toList, c ∉ commas) :
    let lexicon := Lexicon.ofLanguage language
    let parts := splitText lexicon.clauseSeparator (e.sentence naming)
    parts = (e.visible.map fun r => r.clause naming language) ++
        (if e.hasWildcard then if e.visible.isEmpty then [lexicon.unrestricted] else []
          else [lexicon.noOtherTypes]) ∧
      (lexicon.noOtherTypes ∈ parts ↔ e.hasWildcard = false) ∧
      (parts = [lexicon.unrestricted] ↔ e.hasWildcard = true ∧ e.visible = []) ∧
      (∀ r : Requirement, r.clause naming language ≠ lexicon.noOtherTypes ∧
        r.clause naming language ≠ lexicon.unrestricted) ∧
      e.sentence naming ≠ "" := by
  intro lexicon parts
  obtain ⟨rfl, hrs⟩ := wellFormed_of_parse hparse
  have hcommaFree : naming.CommaFree := by
    rcases hnaming with rfl | ⟨table, rfl, htable⟩
    · exact Naming.commaFree_verbatim
    · exact NameTable.commaFree_naming htable
  have hparts : parts = clauses naming e.language e.requirements :=
    splitText_sentence hrs hcommaFree
  rw [hparts]
  refine ⟨?_, noOtherTypes_mem_clauses_iff, clauses_eq_unrestricted_iff,
    fun r => ⟨r.clause_ne_noOtherTypes naming _, r.clause_ne_unrestricted naming _⟩,
    sentence_ne_empty hrs hcommaFree⟩
  rw [clauses_eq]
  unfold Expression.hasWildcard Expression.visible statedClauses
  cases e.requirements.any Requirement.hasWildcard with
  | true => cases e.requirements.filter fun r => !r.isPlaceholder <;> simp [lexicon]
  | false => rfl

/-- A ship class may have the closing clause for a name. -/
theorem splitText_sentence_of_parse_mimicked :
    let table := NameTable.empty.insert (.shipClass 30) (some .japanese) "他の艦種は不可"
    ∃ e, Expression.parse "!@30\x7b2\x7d-CL" .japanese = .ok e ∧
      splitText "、" (e.sentence table.naming) =
        ["他の艦種は不可2隻不可", "CL1隻必要", "他の艦種は不可"] := by
  intro table
  have hparse : Expression.parse "!@30\x7b2\x7d-CL" .japanese =
      .ok ⟨"!@30\x7b2\x7d-CL", .japanese, [⟨[.shipClass 30], .exactly 2, .empty, 0, true⟩,
        ⟨[.code "CL"], .one, .empty, 0, false⟩]⟩ := by
    decide +kernel
  have hnames : ∀ entry ∈ table.entries, ∀ c ∈ entry.2.toList, c ∉ commas :=
    List.forall_mem_singleton.mpr (forall_mem_of_all (by decide))
  obtain ⟨hsplit, -⟩ := splitText_sentence_of_parse hparse (.inr ⟨table, rfl, hnames⟩)
  exact ⟨_, hparse, hsplit.trans (by decide +kernel)⟩

end FleetComposition
