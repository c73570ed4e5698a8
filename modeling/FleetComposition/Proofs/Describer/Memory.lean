import FleetComposition.Proofs.Describer.Transparency
import FleetComposition.Proofs.Recency.History

/-!
# What a describer remembers

The cache of a describer can be told from the sentences it has given. It holds the keys
of the texts that were given one since it was last cleared, ordered by the latest time
and cut off at the limit. Texts that were given none have left no trace in it, wherever
they stand in a run.
-/
namespace FleetComposition.Describer

open Recency (Use)

/-! ## Sentences that are given -/

/-- The texts for which a call asks a sentence, with its language. Behind an unknown
tag there is nothing to ask for. -/
def Call.requests (settings : Settings) : Call → List (String × Language)
  | .describe text language => [(text, language)]
  | .describeInDefault text => [(text, settings.language)]
  | .describeInTag text tag =>
    match Language.ofTag tag with
    | .ok language => [(text, language)]
    | .error _ => []
  | .describeAll texts language => texts.map fun text => (text, language)
  | .describeExpression _ => []
  | .remembered text language => [(text, language)]
  | .clearCache => []

/-- The sentences in an answer, and the gaps where there is none. -/
def Answer.sentences : Answer → List (Option String)
  | .result r => [r.toOption]
  | .results rs => rs.map Except.toOption
  | .memory kept => [kept]
  | .nothing => []

/-- The keys of the requests for which there is a sentence, the last one first. -/
def givenKeys (requests : List (String × Language)) (sentences : List (Option String)) :
    List (String × Language) :=
  ((requests.zip sentences).filterMap fun p => p.2.map fun _ => (keyText p.1.1, p.1.2)).reverse

/-- The keys so far with those of one more call in front. Clearing begins a new
history. -/
def note (d : Describer) (keys : List (String × Language)) : Call → List (String × Language)
  | .clearCache => []
  | call => givenKeys (call.requests d.settings) (d.respond call).1.sentences ++ keys

/-- The keys that were given a sentence in a run since the cache was last cleared, the
latest first, if it starts with the given ones. -/
def keysFrom (d : Describer) (keys : List (String × Language)) :
    List Call → List (String × Language)
  | [] => keys
  | call :: calls => (d.respond call).2.keysFrom (d.note keys call) calls

lemma givenKeys_cons (request : String × Language) (sentence : Option String)
    (requests : List (String × Language)) (sentences : List (Option String)) :
    givenKeys (request :: requests) (sentence :: sentences) =
      givenKeys requests sentences ++ givenKeys [request] [sentence] := by
  cases sentence <;> simp [givenKeys]

/-! ## Texts that are found and texts that are not -/

variable {d : Describer} {cache : SentenceStore} {text sentence : String} {language : Language}

lemma withCache_self (hcache : d.cache = some cache) : { d with cache := some cache } = d := by
  rw [← hcache]

lemma get_of_missing (hmissing : (cache.get text language).1 = none) :
    cache.get text language = (none, cache) := by
  refine Prod.ext hmissing (Recency.snd_get_of_none ?_)
  rwa [SentenceStore.get, Recency.fst_get] at hmissing

lemma describe_of_found (hcache : d.cache = some cache)
    (hfound : (cache.get text language).1 = some sentence) :
    d.describe text language =
      (.ok sentence, { d with cache := some (cache.get text language).2 }) := by
  have hget : cache.get text language = (some sentence, (cache.get text language).2) :=
    Prod.ext hfound rfl
  rw [describe, hcache]
  simp only
  rw [hget]

lemma describe_of_missing (hcache : d.cache = some cache)
    (hmissing : (cache.get text language).1 = none) :
    d.describe text language =
      match describeAfresh d.naming text language with
      | .ok sentence => (.ok sentence, { d with cache := some (cache.set text language sentence) })
      | .error e => (.error e, d) := by
  rw [describe, hcache]
  simp only
  rw [get_of_missing hmissing]
  cases describeAfresh d.naming text language with
  | ok sentence => rfl
  | error e => exact congrArg (Prod.mk _) (withCache_self hcache)

/-- A text that cannot be described leaves no trace. -/
theorem describe_eq_of_error {error : Error} (h : (d.describe text language).1 = .error error) :
    (d.describe text language).2 = d := by
  cases hcache : d.cache with
  | none => simp only [describe, hcache]
  | some cache =>
    cases hget : (cache.get text language).1 with
    | some sentence =>
      rw [describe_of_found hcache hget] at h
      cases h
    | none =>
      rw [describe_of_missing hcache hget] at h ⊢
      cases hfresh : describeAfresh d.naming text language with
      | ok sentence =>
        rw [hfresh] at h
        cases h
      | error e => rfl

/-- A call with an error for an answer leaves no trace. -/
theorem respond_eq_of_error {call : Call} {error : Error}
    (h : (d.respond call).1 = .result (.error error)) : (d.respond call).2 = d := by
  cases call with
  | describe text language => exact describe_eq_of_error (Answer.result.inj h)
  | describeInDefault text => exact describe_eq_of_error (Answer.result.inj h)
  | describeInTag text tag =>
    simp only [respond, describeInTag, Answer.result.injEq] at h ⊢
    cases hlanguage : Language.ofTag tag with
    | ok language =>
      rw [hlanguage] at h
      exact describe_eq_of_error h
    | error e => rfl
  | describeAll texts language => cases h
  | describeExpression e => cases h
  | remembered text language => cases h
  | clearCache => cases h

/-! ## The cache and its history -/

variable {capacity : ℕ} {keys : List (String × Language)}

/-- The describer has a cache of this capacity in which just these keys were used, the
latest first. -/
def Holds (d : Describer) (capacity : ℕ) (keys : List (String × Language)) : Prop :=
  ∃ cache uses, d.cache = some cache ∧ cache.capacity = capacity ∧
    Recency.Reflects cache uses ∧ uses.map Use.key = keys

namespace Holds

/-- A sentence that is found has its key used again. -/
lemma get (hcapacity : cache.capacity = capacity) {uses : List (Use (String × Language) String)}
    (hreflects : Recency.Reflects cache uses) (hkeys : uses.map Use.key = keys)
    (hfound : (cache.get text language).1 = some sentence) :
    Holds { d with cache := some (cache.get text language).2 } capacity
      ((keyText text, language) :: keys) := by
  rw [SentenceStore.get, Recency.fst_get] at hfound
  exact ⟨_, _, rfl, (Recency.capacity_get _ _).trans hcapacity, hreflects.get_of_some hfound,
    congrArg _ hkeys⟩

/-- A text that is given a sentence has its key used, whether the sentence was found or
is new. -/
theorem describe (h : d.Holds capacity keys) (text : String) (language : Language) :
    (d.describe text language).2.Holds capacity
      (givenKeys [(text, language)] [(d.describe text language).1.toOption] ++ keys) := by
  obtain ⟨cache, uses, hcache, hcapacity, hreflects, hkeys⟩ := id h
  cases hget : (cache.get text language).1 with
  | some sentence =>
    rw [describe_of_found hcache hget]
    exact get hcapacity hreflects hkeys hget
  | none =>
    rw [describe_of_missing hcache hget]
    cases describeAfresh d.naming text language with
    | ok sentence =>
      exact ⟨_, _, rfl, hcapacity, hreflects.put (keyText text, language) sentence,
        congrArg _ hkeys⟩
    | error e => exact h

theorem describeAll (h : d.Holds capacity keys) (texts : List String) (language : Language) :
    (d.describeAll texts language).2.Holds capacity
      (givenKeys (texts.map fun text => (text, language))
        ((d.describeAll texts language).1.map Except.toOption) ++ keys) := by
  induction texts generalizing d keys with
  | nil => exact h
  | cons text texts ih =>
    have hrest := ih (h.describe text language)
    rw [← List.append_assoc, ← givenKeys_cons] at hrest
    exact hrest

theorem remembered (h : d.Holds capacity keys) (text : String) (language : Language) :
    (d.remembered text language).2.Holds capacity
      (givenKeys [(text, language)] [(d.remembered text language).1] ++ keys) := by
  obtain ⟨cache, uses, hcache, hcapacity, hreflects, hkeys⟩ := id h
  rw [remembered_of_cache hcache]
  cases hget : (cache.get text language).1 with
  | some sentence => exact get hcapacity hreflects hkeys hget
  | none =>
    rw [get_of_missing hget, withCache_self hcache]
    exact h

theorem clearCache (h : d.Holds capacity keys) : d.clearCache.Holds capacity [] := by
  obtain ⟨cache, uses, hcache, hcapacity, -, -⟩ := h
  refine ⟨cache.clear, [], ?_, hcapacity, Recency.Reflects.empty _, rfl⟩
  rw [Describer.clearCache, hcache]
  rfl

/-- Every call uses the keys for which it gives a sentence. -/
theorem respond (h : d.Holds capacity keys) (call : Call) :
    (d.respond call).2.Holds capacity (d.note keys call) := by
  cases call with
  | describe text language =>
    simpa only [note, Describer.respond, Call.requests, Answer.sentences] using
      h.describe text language
  | describeInDefault text =>
    simpa only [note, Describer.respond, Call.requests, Answer.sentences, describeInDefault] using
      h.describe text d.settings.language
  | describeInTag text tag =>
    simp only [note, Describer.respond, Call.requests, Answer.sentences, describeInTag]
    cases Language.ofTag tag with
    | ok language => exact h.describe text language
    | error e => exact h
  | describeAll texts language =>
    simpa only [note, Describer.respond, Call.requests, Answer.sentences] using
      h.describeAll texts language
  | describeExpression e => exact h
  | remembered text language =>
    simpa only [note, Describer.respond, Call.requests, Answer.sentences] using
      h.remembered text language
  | clearCache => exact h.clearCache

theorem run (h : d.Holds capacity keys) (calls : List Call) :
    (d.run calls).2.Holds capacity (d.keysFrom keys calls) := by
  induction calls generalizing d keys with
  | nil => exact h
  | cons call calls ih => exact ih (h.respond call)

theorem ofSettings (language : Language) (limits : CacheSettings) (naming : Naming) :
    (ofSettings ⟨language, some limits⟩ naming).Holds (max 1 limits.limit.toNat) [] :=
  ⟨_, [], rfl, rfl, Recency.Reflects.empty _, rfl⟩

end Holds

theorem Faithful.run {settings : Settings} {naming : Naming} (h : d.Faithful settings naming)
    (calls : List Call) : (d.run calls).2.Faithful settings naming := by
  induction calls generalizing d with
  | nil => exact h
  | cons call calls ih => exact ih (h.respond call)

/-- After any run the cache holds the keys that were given a sentence since it was last
cleared, each of them once, in the order of the latest time and as many as there is room
for, with the sentences that a describer without a cache gives. An error leaves the
describer as it is, and so does an expression that has been read already. -/
theorem cache_run_exact (language : Language) (limits : CacheSettings) (naming : Naming)
    (calls : List Call) :
    let d := ofSettings ⟨language, some limits⟩ naming
    let plain := ofSettings ⟨language, none⟩ naming
    let keys := (d.keysFrom [] calls).eraseDups
    let after := (d.run calls).2
    ∃ cache, after.cache = some cache ∧
      cache.entries.map Prod.fst = keys.take (max 1 limits.limit.toNat) ∧
      (∀ e ∈ cache.entries, ∀ text, keyText text = e.1.1 →
        (plain.describe text e.1.2).1 = .ok e.2) ∧
      cache.size = min (max 1 limits.limit.toNat) keys.length ∧
      (∀ call error, (after.respond call).1 = .result (.error error) →
        (after.respond call).2 = after) ∧
      ∀ e, (after.respond (.describeExpression e)).2 = after := by
  intro d plain keys after
  obtain ⟨cache, uses, hcache, hcapacity, hreflects, hkeys⟩ :=
    (Holds.ofSettings language limits naming).run calls
  have hentries : cache.entries.map Prod.fst = keys.take (max 1 limits.limit.toNat) := by
    -- repetitions of keys are found by the same test, whichever instance it comes from
    have htest : (instBEqOfDecidableEq : BEq (String × Language)) = instBEqProd :=
      lawful_beq_subsingleton _ _
    rw [hreflects.keys, hcapacity, Recency.byRecency, hkeys, htest]
  have hfaithful := (Faithful.ofSettings ⟨language, some limits⟩ naming).run calls
  have hplain := Faithful.ofSettings ⟨language, none⟩ naming
  refine ⟨cache, hcache, hentries, fun e he text hkey => ?_, ?_,
    fun call error => respond_eq_of_error, fun e => rfl⟩
  · rw [(hplain.describe text e.1.2).1]
    exact hfaithful.sound cache hcache e he text hkey
  · rw [Recency.size, ← List.length_map Prod.fst, hentries, List.length_take]

/-- Of the three texts of a batch the faulty one is passed over, an unknown tag asks for
nothing, and a spelling of a text that is kept makes it the latest one again. -/
theorem cache_run_exact_batch :
    let calls := [.describe "DD-*" .english, .describeAll ["BB", "CV-#x", "CL"] .english,
      .describeInTag "SS" "fr", .describeInDefault " BB\t"]
    ∃ cache, ((ofSettings ⟨.english, some ⟨2⟩⟩ .verbatim).run calls).2.cache = some cache ∧
      cache.entries.map Prod.fst = [("BB", .english), ("CL", .english)] ∧ cache.size = 2 := by
  intro calls
  obtain ⟨cache, hcache, hentries, -, hsize, -, -⟩ :=
    cache_run_exact .english ⟨2⟩ .verbatim calls
  have hkeys : (keysFrom (ofSettings ⟨.english, some ⟨2⟩⟩ .verbatim) [] calls).eraseDups =
      [("BB", .english), ("CL", .english), ("DD-*", .english)] := by decide +kernel
  rw [hkeys] at hentries hsize
  exact ⟨cache, hcache, hentries, hsize⟩

end FleetComposition.Describer
