import FleetComposition.Proofs.Recency.History
import FleetComposition.SentenceStore

/-!
# What the sentence cache remembers

The sentence cache is a recency map from keys and languages, so what it holds can be
told from the history of its uses. Texts with the same key share their uses.
-/
namespace FleetComposition.SentenceStore

open Recency (Use lastWritten usedSince)

inductive Call where
  | get (text : String) (language : Language)
  | set (text : String) (language : Language) (sentence : String)
  | clear

def after (cache : SentenceStore) : Call → SentenceStore
  | .get text language => (SentenceStore.get cache text language).2
  | .set text language sentence => SentenceStore.set cache text language sentence
  | .clear => Recency.clear cache

def run (cache : SentenceStore) (calls : List Call) : SentenceStore :=
  calls.foldl after cache

/-- The call as the recency map sees it. -/
def Call.keyed : Call → Recency.Call (String × Language) String
  | .get text language => .get (keyText text, language)
  | .set text language sentence => .put (keyText text, language) sentence
  | .clear => .clear

/-- The uses in a run since the last clearing, the most recent first. -/
def uses (cache : SentenceStore) (calls : List Call) : List (Use (String × Language) String) :=
  Recency.usesFrom cache [] (calls.map Call.keyed)

theorem after_eq (cache : SentenceStore) (call : Call) :
    after cache call = Recency.after cache call.keyed := by
  cases call <;> rfl

theorem run_eq (cache : SentenceStore) (calls : List Call) :
    run cache calls = Recency.run cache (calls.map Call.keyed) := by
  induction calls generalizing cache with
  | nil => rfl
  | cons call calls ih =>
    rw [run, List.foldl_cons, ← run, ih, after_eq]
    rfl

/-- After any run a text is remembered if and only if a sentence was set for it since
the last clearing and fewer others were used since its last use than there is room
for. What is remembered is the sentence that was set last, a text that is not
remembered leaves the cache as it is, and there are never too many sentences. -/
theorem get_run_exact (limit : UInt64) (calls : List Call) (text : String) (language : Language) :
    let cache := run (ofLimit limit) calls
    let uses := uses (ofLimit limit) calls
    let key := (keyText text, language)
    ((get cache text language).1.isSome ↔
        (∃ sentence, ⟨key, some sentence⟩ ∈ uses) ∧
          (usedSince key uses).length < max 1 limit.toNat) ∧
      (∀ sentence, (get cache text language).1 = some sentence →
        lastWritten key uses = some sentence) ∧
      ((get cache text language).1 = none → (get cache text language).2 = cache) ∧
      cache.size ≤ max 1 limit.toNat := by
  intro cache uses key
  have hreflects : Recency.Reflects cache uses := by
    rw [show cache = _ from run_eq _ _]
    exact (Recency.Reflects.empty _).run _
  have hcapacity : cache.capacity = max 1 limit.toNat := by
    rw [show cache = _ from run_eq _ _, Recency.capacity_run]
    rfl
  rw [← hcapacity]
  refine ⟨hreflects.isSome_get_iff key, fun sentence => hreflects.lastWritten_of_get,
    fun hmiss => ?_, hreflects.size_le⟩
  rw [SentenceStore.get, Recency.fst_get] at hmiss
  exact Recency.snd_get_of_none hmiss

/-- Looking up the older of two sentences makes the other one go. -/
theorem get_run_exact_promoted :
    let cache := run (ofLimit 2) [.set "A" .english "a", .set "B" .english "b",
      .get " A " .english, .set "C" .english "c"]
    (get cache "A" .english).1.isSome ∧ ¬(get cache "B" .english).1.isSome ∧ cache.size ≤ 2 := by
  have hroom : max 1 (2 : UInt64).toNat = 2 := rfl
  obtain ⟨hheld, -, -, hsize⟩ := get_run_exact 2 [.set "A" .english "a", .set "B" .english "b",
      .get " A " .english, .set "C" .english "c"] "A" .english
  obtain ⟨hgone, -, -, -⟩ := get_run_exact 2 [.set "A" .english "a", .set "B" .english "b",
      .get " A " .english, .set "C" .english "c"] "B" .english
  refine ⟨hheld.mpr ⟨⟨"a", by decide +kernel⟩, by decide +kernel⟩, fun h => ?_, hsize⟩
  exact absurd (hgone.mp h).2 (by decide +kernel)

end FleetComposition.SentenceStore
