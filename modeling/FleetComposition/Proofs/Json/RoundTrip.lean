import FleetComposition.Json.Model
import FleetComposition.Proofs.Json.Values
import Mathlib.Data.List.Nodup

/-!
# The data model read back

Each type of the data model has a JSON form that its reader takes back, and the forms are
values whose texts can be read. So all data, also what no expression can state, survives
being written and read.
-/
namespace FleetComposition

open Json

namespace Json.Value

/-! ## Simple data -/

lemma wellFormed_of_tokens {v : Value} {t : Token} (hv : v.tokens = [t]) (ht : t.WellFormed) :
    v.WellFormed := by
  unfold WellFormed
  rw [hv]
  exact List.forall_mem_singleton.mpr ht

lemma wellFormed_ofText (text : String) : (ofText text).WellFormed :=
  wellFormed_of_tokens rfl (CodePoint.wellFormed_ofText text)

lemma wellFormed_ofNat (n : Nat) : (ofNat n).WellFormed :=
  wellFormed_of_tokens rfl (isNumber_toDigits n)

lemma wellFormed_null : WellFormed .null :=
  wellFormed_of_tokens rfl trivial

lemma wellFormed_bool (b : Bool) : WellFormed (.bool b) :=
  wellFormed_of_tokens rfl trivial

@[simp] theorem text?_ofText (text : String) : (ofText text).text? = some text :=
  CodePoint.text?_ofText text

@[simp] theorem variant?_ofText (text : String) : (ofText text).variant? = some text :=
  CodePoint.text?_ofText text

@[simp] theorem uint32?_ofNat (n : UInt32) : (ofNat n.toNat).uint32? = some n := by
  simp [uint32?, nat?, ofNat, n.toNat_lt_size]

@[simp] theorem uint64?_ofNat (n : UInt64) : (ofNat n.toNat).uint64? = some n := by
  simp [uint64?, nat?, ofNat, n.toNat_lt_size]

/-! ## Lists, records and what may be missing -/

section Compound

variable {α : Type} {toJson : α → Value} {read? : Value → Option α}

theorem listOf?_map (h : ∀ a, read? (toJson a) = some a) (items : List α) :
    listOf? read? (.array (items.map toJson)) = some items := by
  have hread : read? ∘ toJson = fun a => pure (id a) := funext h
  rw [listOf?, List.mapM_map, hread, List.mapM_pure, List.map_id]
  rfl

theorem optional?_getD (h : ∀ a, read? (toJson a) = some a) (hnull : ∀ a, toJson a ≠ .null)
    (o : Option α) : optional? read? (some ((o.map toJson).getD .null)) = some o := by
  cases o with
  | none => rfl
  | some a =>
    rw [Option.map_some, Option.getD_some, optional?, h a]
    · rfl
    · exact hnull a

lemma wellFormed_map (h : ∀ a, (toJson a).WellFormed) (items : List α) :
    WellFormed (.array (items.map toJson)) :=
  wellFormed_array.mpr (List.forall_mem_map.mpr fun a _ => h a)

lemma wellFormed_getD (h : ∀ a, (toJson a).WellFormed) (o : Option α) :
    ((o.map toJson).getD .null).WellFormed := by
  cases o with
  | none => exact wellFormed_null
  | some a => exact h a

end Compound

lemma wellFormed_record {fields : List (String × Value)} (h : ∀ f ∈ fields, f.2.WellFormed) :
    (record fields).WellFormed :=
  wellFormed_object.mpr (List.forall_mem_map.mpr fun f hf =>
    ⟨CodePoint.wellFormed_ofText f.1, h f hf⟩)

lemma members?_record (fields : List (String × Value)) :
    members? (fields.map fun (name, v) => (CodePoint.ofText name, v)) = some fields := by
  induction fields with
  | nil => rfl
  | cons f fields ih =>
    obtain ⟨name, v⟩ := f
    rw [members?, List.map_cons, List.mapM_cons, ← members?, ih]
    dsimp only
    rw [CodePoint.text?_ofText]
    rfl

/-- The fields of a record are found under their names. -/
theorem fields?_record {fields : List (String × Value)} (h : (fields.map Prod.fst).Nodup)
    (names : List String) :
    (record fields).fields? names = some (names.map fun name => fields.lookup name) := by
  have honce : (names.all fun name => fields.countP (·.1 = name) ≤ 1) = true := by
    rw [List.all_eq_true]
    intro name _
    have hcount := List.nodup_iff_count_le_one.mp h name
    rw [List.count, List.countP_map] at hcount
    exact decide_eq_true hcount
  rw [record, fields?, members?_record]
  simp only [Option.bind_eq_bind, Option.bind_some]
  rw [if_pos honce]

end Json.Value

open Json.Value

/-! ## Types read from their forms -/

theorem ShipToken.ofJson?_toJson (token : ShipToken) : ofJson? token.toJson = some token := by
  have hkind : ∀ kind value, ofJson? (.record [("kind", .ofText kind), ("value", value)]) =
      ofKind? kind (some value) := by
    intro kind value
    have hfields : (Value.record [("kind", .ofText kind), ("value", value)]).fields?
        ["kind", "value"] = some [some (.ofText kind), some value] :=
      fields?_record (by simp) _
    rw [Value.record] at hfields ⊢
    simp only [ofJson?, hfields, variant?_ofText, Option.bind_some]
  cases token with
  | code text =>
    rw [toJson, hkind, ofKind?, Option.bind_some, text?_ofText]
    rfl
  | shipClass id =>
    rw [toJson, hkind, ofKind?, Option.bind_some, uint32?_ofNat]
    rfl
  | ship id =>
    rw [toJson, hkind, ofKind?, Option.bind_some, uint32?_ofNat]
    rfl
  -- the wildcard has no content, and so its record is another one
  | wildcard => decide +kernel

theorem Quantity.ofJson?_toJson (q : Quantity) : ofJson? q.toJson = some q := by
  have hfields : q.toJson.fields? ["min", "max"] = some [some (.ofNat q.min.toNat),
      some ((q.max.map fun m => Value.ofNat m.toNat).getD .null)] := fields?_record (by simp) _
  have hmax := optional?_getD uint32?_ofNat (fun _ => nofun) q.max
  simp only [ofJson?, hfields, uint32?_ofNat, hmax]
  rfl

theorem Language.ofJson?_toJson (language : Language) :
    ofJson? language.toJson = some language := by
  unfold ofJson? toJson
  rw [variant?_ofText]
  cases language <;> decide

theorem Requirement.ofJson?_toJson (r : Requirement) : ofJson? r.toJson = some r := by
  have hfields : r.toJson.fields?
      ["ship_types", "quantity", "positions", "level_condition", "negated"] =
      some [some (.array (r.tokens.map ShipToken.toJson)), some r.quantity.toJson,
        some (.array (r.slots.toList.map fun slot => Value.ofNat slot.toNat)),
        some (.ofNat r.level.toNat), some (.bool r.negated)] := fields?_record (by simp) _
  have htokens := listOf?_map ShipToken.ofJson?_toJson r.tokens
  have hslots := listOf?_map uint32?_ofNat r.slots.toList
  simp only [ofJson?, hfields, htokens, hslots, Quantity.ofJson?_toJson, uint32?_ofNat, bool?,
    Option.bind_eq_bind, Option.bind_some, SlotSet.ofList_toList]
  rfl

theorem Expression.ofJson?_toJson (e : Expression) : ofJson? e.toJson = some e := by
  have hfields : e.toJson.fields? ["source", "language", "components"] =
      some [some (.ofText e.source), some e.language.toJson,
        some (.array (e.requirements.map Requirement.toJson))] := fields?_record (by simp) _
  have hrequirements := listOf?_map Requirement.ofJson?_toJson e.requirements
  simp only [ofJson?, hfields, hrequirements, text?_ofText, Language.ofJson?_toJson,
    Option.bind_eq_bind, Option.bind_some]
  rfl

theorem CacheSettings.ofJson?_toJson (s : CacheSettings) : ofJson? s.toJson = some s := by
  have hfields : s.toJson.fields? ["max_entries"] = some [some (.ofNat s.limit.toNat)] :=
    fields?_record (by simp) _
  simp only [ofJson?, hfields, uint64?_ofNat, Option.map_some]

theorem Settings.ofJson?_toJson (s : Settings) : ofJson? s.toJson = some s := by
  have hfields : s.toJson.fields? ["default_language", "cache"] =
      some [some s.language.toJson, some ((s.cache.map CacheSettings.toJson).getD .null)] :=
    fields?_record (by simp) _
  have hcache := optional?_getD CacheSettings.ofJson?_toJson (fun _ => nofun) s.cache
  simp only [ofJson?, hfields, Language.ofJson?_toJson, hcache, Option.bind_eq_bind,
    Option.bind_some]
  rfl

/-! ## Forms whose texts can be read -/

lemma ShipToken.wellFormed_toJson (token : ShipToken) : token.toJson.WellFormed := by
  cases token <;> exact wellFormed_record (by simp [wellFormed_ofText, wellFormed_ofNat])

lemma Quantity.wellFormed_toJson (q : Quantity) : q.toJson.WellFormed := by
  have hmax := wellFormed_getD (fun m : UInt32 => wellFormed_ofNat m.toNat) q.max
  exact wellFormed_record (by simp [wellFormed_ofNat, hmax])

lemma Language.wellFormed_toJson (language : Language) : language.toJson.WellFormed :=
  wellFormed_ofText language.tag

lemma Requirement.wellFormed_toJson (r : Requirement) : r.toJson.WellFormed := by
  have htokens := wellFormed_map ShipToken.wellFormed_toJson r.tokens
  have hslots := wellFormed_map (fun slot : UInt32 => wellFormed_ofNat slot.toNat) r.slots.toList
  exact wellFormed_record
    (by simp [htokens, hslots, r.quantity.wellFormed_toJson, wellFormed_ofNat, wellFormed_bool])

lemma Expression.wellFormed_toJson (e : Expression) : e.toJson.WellFormed := by
  have hrequirements := wellFormed_map Requirement.wellFormed_toJson e.requirements
  exact wellFormed_record
    (by simp [hrequirements, e.language.wellFormed_toJson, wellFormed_ofText])

lemma CacheSettings.wellFormed_toJson (s : CacheSettings) : s.toJson.WellFormed :=
  wellFormed_record (by simp [wellFormed_ofNat])

lemma Settings.wellFormed_toJson (s : Settings) : s.toJson.WellFormed := by
  have hcache := wellFormed_getD CacheSettings.wellFormed_toJson s.cache
  exact wellFormed_record (by simp [hcache, s.language.wellFormed_toJson])

/-! ## Texts read back -/

/-- What has a form that is read back is read back from the text of its form. -/
lemma ofText?_write_bind {α : Type} {toJson : α → Value} {ofJson? : Value → Option α}
    (hread : ∀ a, ofJson? (toJson a) = some a) (hwellFormed : ∀ a, (toJson a).WellFormed) (a : α) :
    (ofText? (toJson a).write).bind ofJson? = some a := by
  rw [ofText?_write (hwellFormed a), Option.bind_some, hread]

/-- All data of the model is read back from its JSON text: any tokens, quantities, languages
and requirements, whether or not an expression states them, and all settings. -/
theorem read_json_text :
    (∀ token : ShipToken, (ofText? token.toJson.write).bind ShipToken.ofJson? = some token) ∧
    (∀ q : Quantity, (ofText? q.toJson.write).bind Quantity.ofJson? = some q) ∧
    (∀ language : Language,
      (ofText? language.toJson.write).bind Language.ofJson? = some language) ∧
    (∀ r : Requirement, (ofText? r.toJson.write).bind Requirement.ofJson? = some r) ∧
    (∀ e : Expression, (ofText? e.toJson.write).bind Expression.ofJson? = some e) ∧
    (∀ s : CacheSettings, (ofText? s.toJson.write).bind CacheSettings.ofJson? = some s) ∧
    ∀ s : Settings, (ofText? s.toJson.write).bind Settings.ofJson? = some s :=
  ⟨ofText?_write_bind ShipToken.ofJson?_toJson ShipToken.wellFormed_toJson,
    ofText?_write_bind Quantity.ofJson?_toJson Quantity.wellFormed_toJson,
    ofText?_write_bind Language.ofJson?_toJson Language.wellFormed_toJson,
    ofText?_write_bind Requirement.ofJson?_toJson Requirement.wellFormed_toJson,
    ofText?_write_bind Expression.ofJson?_toJson Expression.wellFormed_toJson,
    ofText?_write_bind CacheSettings.ofJson?_toJson CacheSettings.wellFormed_toJson,
    ofText?_write_bind Settings.ofJson?_toJson Settings.wellFormed_toJson⟩

/-- A name without content, and a code that no expression can state. -/
example : (Value.array ([.wildcard, .code "長\"\t"].map ShipToken.toJson)).write =
    "[\x7b\"kind\":\"any\"\x7d,\x7b\"kind\":\"type\",\"value\":\"長\\\"\\t\"\x7d]" := by
  decide +kernel

end FleetComposition
