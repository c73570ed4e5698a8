import FleetComposition.Proofs.Describer.Memory
import FleetComposition.Proofs.Expression.Joining
import FleetComposition.Proofs.Wording.Meaning

/-!
# Placeholders

A placeholder says only that other ships are welcome. Wherever it stands in an expression,
it has no clause of its own, and all it does to the sentence is to take the closing clause
away if there was one.
-/
namespace FleetComposition

namespace Requirement

variable {r : Requirement}

lemma hasWildcard_of_isPlaceholder (h : r.isPlaceholder) : r.hasWildcard := by
  obtain rfl | rfl := isPlaceholder_iff.mp h <;> rfl

end Requirement

section Sentence

variable {naming : Naming} {language : Language} {r : Requirement} {before after : List Requirement}

lemma statedClauses_insert (h : r.isPlaceholder) :
    statedClauses naming language (before ++ r :: after) =
      statedClauses naming language (before ++ after) := by
  have hhidden : (r :: after).filter (fun r => !r.isPlaceholder) =
      after.filter fun r => !r.isPlaceholder := List.filter_cons_of_neg (by simp [h])
  rw [statedClauses, statedClauses, List.filter_append, hhidden, ← List.filter_append]

/-- Without the wildcard no requirement is a placeholder. -/
lemma statedClauses_ne_nil {rs : List Requirement} (hne : rs ≠ [])
    (h : rs.any Requirement.hasWildcard = false) : statedClauses naming language rs ≠ [] := by
  obtain ⟨first, others, rfl⟩ := List.exists_cons_of_ne_nil hne
  rw [List.any_eq_false] at h
  have hvisible : first.isPlaceholder = false := by
    have hfirst := h first List.mem_cons_self
    exact Bool.eq_false_iff.mpr fun hplaceholder =>
      hfirst (Requirement.hasWildcard_of_isPlaceholder hplaceholder)
  rw [statedClauses, List.filter_cons_of_pos (by simp [hvisible])]
  exact List.cons_ne_nil _ _

/-- A placeholder lifts the closing clause and changes nothing else. -/
theorem sentence_insert (hr : r.isPlaceholder) (hne : before ++ after ≠ []) :
    sentence naming language (before ++ after) =
      if (before ++ after).any Requirement.hasWildcard then
        sentence naming language (before ++ r :: after)
      else sentence naming language (before ++ r :: after) ++
        (Lexicon.ofLanguage language).clauseSeparator ++
        (Lexicon.ofLanguage language).noOtherTypes := by
  have hwelcoming : (before ++ r :: after).any Requirement.hasWildcard = true := by
    simp [Requirement.hasWildcard_of_isPlaceholder hr]
  rw [sentence, sentence, clauses_eq, clauses_eq, hwelcoming, statedClauses_insert hr]
  cases hany : (before ++ after).any Requirement.hasWildcard with
  | true => rfl
  | false =>
    have hstated : statedClauses naming language (before ++ after) ≠ [] :=
      statedClauses_ne_nil hne hany
    rw [if_neg Bool.false_ne_true, if_neg Bool.false_ne_true, if_pos rfl,
      if_neg (by simpa using hstated),
      String.intercalate_append_of_ne_nil hstated (List.cons_ne_nil _ _),
      String.intercalate_singleton]

end Sentence

/-! ## Inserted segments -/

/-- `joined` is the text with one more segment, at one of its ends or between two parts of
it that can be read. -/
inductive Inserted (segment text : String) : String → Prop
  | front : Inserted segment text (segment ++ "-" ++ text)
  | back : Inserted segment text (text ++ "-" ++ segment)
  | between {a b : String} {ra rb : List Requirement} (htext : text = a ++ "-" ++ b)
      (ha : requirements a = .ok ra) (hb : requirements b = .ok rb) :
      Inserted segment text (a ++ "-" ++ segment ++ "-" ++ b)

theorem Inserted.requirements_eq {segment text joined : String} {r : Requirement}
    {rs : List Requirement} (h : Inserted segment text joined)
    (hsegment : requirements segment = .ok [r]) (htext : requirements text = .ok rs) :
    ∃ before after, rs = before ++ after ∧ requirements joined = .ok (before ++ r :: after) := by
  cases h with
  | front =>
    have hjoined := requirements_append_of_ok hsegment htext
    exact ⟨[], rs, rfl, hjoined⟩
  | back => exact ⟨rs, [], (List.append_nil rs).symm, requirements_append_of_ok htext hsegment⟩
  | @between a b ra rb heq ha hb =>
    have hparts : requirements text = .ok (ra ++ rb) := heq ▸ requirements_append_of_ok ha hb
    have hrs : rs = ra ++ rb := Except.ok.inj (htext.symm.trans hparts)
    refine ⟨ra, rb, hrs, ?_⟩
    have hjoined := requirements_append_of_ok (requirements_append_of_ok ha hsegment) hb
    rwa [List.append_assoc] at hjoined

lemma ne_nil_of_requirements {text : String} {rs : List Requirement}
    (h : requirements text = .ok rs) : rs ≠ [] := by
  rintro rfl
  have hnone := (requirements_eq_ok_iff.mp h).length_eq
  exact List.splitOn_ne_nil _ _ (List.length_eq_zero_iff.mp hnone)

namespace Describer

/-- With a placeholder put into it anywhere, a text that can be read still gets an answer,
whatever was asked before. It is the same as without the placeholder if other ships were
welcome already, and otherwise only the closing clause is gone. -/
theorem describe_inserted_placeholder (settings : Settings) (naming : Naming) (calls : List Call)
    (language : Language) {text placeholder joined : String} {rs : List Requirement}
    {r : Requirement} (htext : requirements text = .ok rs)
    (hplaceholder : requirements placeholder = .ok [r]) (hr : r.isPlaceholder)
    (hjoined : Inserted placeholder text joined) :
    let lexicon := Lexicon.ofLanguage language
    let d := ((ofSettings settings naming).run calls).2
    ∃ said, (d.describe joined language).1 = .ok said ∧
      (d.describe text language).1 = .ok (if rs.any Requirement.hasWildcard then said
        else said ++ lexicon.clauseSeparator ++ lexicon.noOtherTypes) := by
  intro lexicon d
  have hd : d.Faithful settings naming := (Faithful.ofSettings settings naming).run calls
  have hanswer : ∀ {text rs}, requirements text = .ok rs →
      (d.describe text language).1 = .ok (sentence naming language rs) := fun {text _} h =>
    (hd.describe text language).1.trans (describeAfresh_of_requirements h naming language)
  obtain ⟨before, after, rfl, hread⟩ := hjoined.requirements_eq hplaceholder htext
  refine ⟨_, hanswer hread, ?_⟩
  rw [hanswer htext, sentence_insert hr (ne_nil_of_requirements htext)]

/-- A placeholder in the middle, spelt with a star, a quantity and fillers. -/
theorem describe_inserted_placeholder_between :
    let calls : List Call := [.describeInDefault "CL- BB\x7b2\x7d"]
    let d := ((ofSettings ⟨.english, some ⟨2⟩⟩ .verbatim).run calls).2
    let joined := "CL" ++ "-" ++ "(ANY) *\x7b0,\x7d" ++ "-" ++ " BB\x7b2\x7d"
    ∃ said, (d.describe joined .english).1 = .ok said ∧
      (d.describe "CL- BB\x7b2\x7d" .english).1 =
        .ok (said ++ ", " ++ "No other ship types allowed") := by
  intro calls d joined
  have hfront : requirements "CL" = .ok [⟨[.code "CL"], .one, .empty, 0, false⟩] := by
    decide +kernel
  have hback : requirements " BB\x7b2\x7d" =
      .ok [⟨[.code "BB"], .exactly 2, .empty, 0, false⟩] := by decide +kernel
  have htext : requirements "CL- BB\x7b2\x7d" = .ok [⟨[.code "CL"], .one, .empty, 0, false⟩,
      ⟨[.code "BB"], .exactly 2, .empty, 0, false⟩] := by decide +kernel
  have hplaceholder : requirements "(ANY) *\x7b0,\x7d" =
      .ok [⟨[.wildcard], .unbounded, .empty, 0, false⟩] := by decide +kernel
  exact describe_inserted_placeholder ⟨.english, some ⟨2⟩⟩ .verbatim calls .english htext
    hplaceholder (by decide) (.between rfl hfront hback)

end Describer

end FleetComposition
