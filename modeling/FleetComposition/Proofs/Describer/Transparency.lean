import FleetComposition.Proofs.Describer.Runs
import FleetComposition.Proofs.Expression.Key
import FleetComposition.Proofs.Recency.Contents

/-!
# Transparency of the cache

A kept sentence is the sentence of every expression with its key, because
expressions with the same key are read alike. All uses of a describer preserve
this, so its answers are those of a describer without a cache.
-/
namespace FleetComposition

/-- A sentence depends on the key of its expression alone. -/
theorem Describer.describeAfresh_of_keyText_eq {naming : Naming} {text other sentence : String}
    {language : Language} (hkey : keyText text = keyText other)
    (h : describeAfresh naming text language = .ok sentence) :
    describeAfresh naming other language = .ok sentence := by
  unfold describeAfresh Expression.parse at h ⊢
  cases hread : requirements text with
  | error e =>
    rw [hread] at h
    cases h
  | ok rs =>
    rw [hread] at h
    rw [requirements_of_keyText_eq hkey hread]
    exact h

/-- Every kept sentence is the one that any text with its key would get anew. -/
def SentenceStore.Sound (naming : Naming) (cache : SentenceStore) : Prop :=
  ∀ e ∈ cache.entries, ∀ text, keyText text = e.1.1 →
    Describer.describeAfresh naming text e.1.2 = .ok e.2

namespace SentenceStore.Sound

variable {naming : Naming} {cache : SentenceStore} {text sentence : String} {language : Language}

theorem describeAfresh (h : cache.Sound naming)
    (hget : (cache.get text language).1 = some sentence) :
    Describer.describeAfresh naming text language = .ok sentence :=
  h _ (Recency.mem_of_get hget) text rfl

theorem get (h : cache.Sound naming) (text : String) (language : Language) :
    (cache.get text language).2.Sound naming :=
  Recency.forall_mem_get h _

theorem set (h : cache.Sound naming)
    (hnew : Describer.describeAfresh naming text language = .ok sentence) :
    (cache.set text language sentence).Sound naming :=
  Recency.forall_mem_put h fun _ hkey => Describer.describeAfresh_of_keyText_eq hkey.symm hnew

theorem empty (capacity : Nat) : SentenceStore.Sound naming (Recency.empty capacity) :=
  List.forall_mem_nil _

end SentenceStore.Sound

namespace Describer

lemma remembered_of_cache {d : Describer} {cache : SentenceStore} (hcache : d.cache = some cache)
    (text : String) (language : Language) :
    d.remembered text language =
      ((cache.get text language).1, { d with cache := some (cache.get text language).2 }) := by
  simp only [remembered, hcache]

/-- The describer works with these settings and names, and all it remembers is
sound. -/
structure Faithful (settings : Settings) (naming : Naming) (d : Describer) : Prop where
  settings_eq : d.settings = settings
  naming_eq : d.naming = naming
  sound : ∀ cache, d.cache = some cache → cache.Sound naming

namespace Faithful

variable {settings : Settings} {naming : Naming} {d : Describer}

lemma withCache (h : d.Faithful settings naming) {cache : SentenceStore}
    (hcache : cache.Sound naming) :
    ({ d with cache := some cache } : Describer).Faithful settings naming where
  settings_eq := h.settings_eq
  naming_eq := h.naming_eq
  sound := fun _ hsome => Option.some.inj hsome ▸ hcache

/-- A describer starts without any sentence. -/
theorem ofSettings (settings : Settings) (naming : Naming) :
    (ofSettings settings naming).Faithful settings naming where
  settings_eq := rfl
  naming_eq := rfl
  sound := by
    intro cache hcache
    obtain ⟨limits, -, rfl⟩ := Option.map_eq_some_iff.mp hcache
    exact SentenceStore.Sound.empty _

theorem describe (h : d.Faithful settings naming) (text : String) (language : Language) :
    (d.describe text language).1 = describeAfresh naming text language ∧
      (d.describe text language).2.Faithful settings naming := by
  obtain rfl := h.naming_eq
  unfold Describer.describe
  cases hcache : d.cache with
  | none => exact ⟨rfl, h⟩
  | some cache =>
    have hsound := h.sound cache hcache
    cases hget : cache.get text language with
    | mk kept used =>
      have hused : used.Sound d.naming := by
        have hleft := hsound.get text language
        rwa [hget] at hleft
      simp only [hget]
      cases kept with
      | some sentence =>
        have hfresh : describeAfresh d.naming text language = .ok sentence :=
          hsound.describeAfresh (by rw [hget])
        exact ⟨hfresh.symm, h.withCache hused⟩
      | none =>
        cases hfresh : describeAfresh d.naming text language with
        | ok sentence => exact ⟨rfl, h.withCache (hused.set hfresh)⟩
        | error e => exact ⟨rfl, h.withCache hused⟩

theorem describeInDefault (h : d.Faithful settings naming) (text : String) :
    (d.describeInDefault text).1 = describeAfresh naming text settings.language ∧
      (d.describeInDefault text).2.Faithful settings naming := by
  rw [Describer.describeInDefault, h.settings_eq]
  exact h.describe text settings.language

theorem describeInTag (h : d.Faithful settings naming) (text tag : String) :
    (d.describeInTag text tag).1 =
        (Language.ofTag tag).bind (fun language => describeAfresh naming text language) ∧
      (d.describeInTag text tag).2.Faithful settings naming := by
  unfold Describer.describeInTag
  cases Language.ofTag tag with
  | ok language => exact h.describe text language
  | error e => exact ⟨rfl, h⟩

theorem describeAll (h : d.Faithful settings naming) (texts : List String) (language : Language) :
    (d.describeAll texts language).1 = texts.map (fun text => describeAfresh naming text language) ∧
      (d.describeAll texts language).2.Faithful settings naming := by
  induction texts generalizing d with
  | nil => exact ⟨rfl, h⟩
  | cons text texts ih =>
    obtain ⟨hfirst, hnext⟩ := h.describe text language
    obtain ⟨hrest, hlast⟩ := ih hnext
    refine ⟨?_, hlast⟩
    rw [List.map_cons, ← hfirst, ← hrest]
    rfl

theorem remembered (h : d.Faithful settings naming) (text : String) (language : Language) :
    (∀ sentence, (d.remembered text language).1 = some sentence →
        describeAfresh naming text language = .ok sentence) ∧
      (d.remembered text language).2.Faithful settings naming := by
  cases hcache : d.cache with
  | none =>
    have hremembered : d.remembered text language = (none, d) := by
      simp only [Describer.remembered, hcache]
    rw [hremembered]
    exact ⟨fun _ hkept => absurd hkept (by simp), h⟩
  | some cache =>
    have hsound := h.sound cache hcache
    rw [remembered_of_cache hcache]
    exact ⟨fun _ hkept => hsound.describeAfresh hkept, h.withCache (hsound.get text language)⟩

theorem clearCache (h : d.Faithful settings naming) : d.clearCache.Faithful settings naming where
  settings_eq := h.settings_eq
  naming_eq := h.naming_eq
  sound := by
    intro cache hcache
    obtain ⟨old, -, rfl⟩ := Option.map_eq_some_iff.mp hcache
    exact SentenceStore.Sound.empty _

/-- The next describer is as faithful as the one that is asked. -/
theorem respond (h : d.Faithful settings naming) (call : Call) :
    (d.respond call).2.Faithful settings naming := by
  unfold Describer.respond
  cases call with
  | describe text language => exact (h.describe text language).2
  | describeInDefault text => exact (h.describeInDefault text).2
  | describeInTag text tag => exact (h.describeInTag text tag).2
  | describeAll texts language => exact (h.describeAll texts language).2
  | describeExpression e => exact h
  | remembered text language => exact (h.remembered text language).2
  | clearCache => exact h.clearCache

end Faithful

end Describer

end FleetComposition
