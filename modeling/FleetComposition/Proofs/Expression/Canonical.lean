import FleetComposition.Proofs.Segment.Canonical

/-!
# Canonical expressions

The canonical text of well-formed requirements is read back as the same
requirements. No character of a canonical segment is a blank or a separator, so
the text falls apart into the very segments it was joined from.
-/
namespace FleetComposition

open Text

namespace Requirement.WellFormed

variable {r : Requirement}

lemma isSolid_text (h : r.WellFormed) : ∀ c ∈ r.text.toList, Written.isSolid c := by
  rw [← Written.text_ofRequirement h]
  refine List.forall_mem_append.mpr ⟨Written.isSolid_headText _, fun c hc => ?_⟩
  obtain ⟨f, hf, hmem⟩ := List.mem_flatMap.mp hc
  exact Written.Field.isSolid (Written.field?_ofRequirement h f hf) c hmem

lemma text_ne_nil (h : r.WellFormed) : r.text.toList ≠ [] := by
  intro hnil
  rw [← Written.text_ofRequirement h] at hnil
  have hfields := (List.append_eq_nil_iff.mp hnil).2
  rw [Written.ofRequirement, List.flatMap_cons] at hfields
  exact Written.Field.text_ne_nil _ (List.append_eq_nil_iff.mp hfields).1

/-- The canonical text of a requirement states it. -/
theorem states (h : r.WellFormed) : States r.text.toList r := by
  have htrim : trim r.text.toList = r.text.toList :=
    trim_of_not_blank fun c hc => Written.isBlank_of_isSolid (h.isSolid_text c hc)
  have hread : Segment.read r.text.toList = .ok (Written.ofRequirement r h).segment := by
    rw [← Written.text_ofRequirement h]
    exact Segment.Reader.read_text (Written.fits_ofRequirement h)
      (Written.levelApart_ofRequirement h)
  have hdemand := Written.demand_ofRequirement h
  have hvalid : (Written.ofRequirement r h).demand.quantity.Valid := by
    rw [hdemand]
    exact h.quantity
  rw [States, htrim]
  refine ⟨h.text_ne_nil, (Written.ofRequirement r h).segment, hread, ?_⟩
  rw [Written.requirement_segment_of_valid _ hvalid, hdemand]

end Requirement.WellFormed

/-- The canonical text of well-formed requirements is read back as exactly these
requirements. -/
theorem requirements_canonical {rs : List Requirement} (hne : rs ≠ [])
    (h : ∀ r ∈ rs, r.WellFormed) : requirements (canonical rs) = .ok rs := by
  have hsolid : ∀ cs ∈ rs.map fun r => r.text.toList, ∀ c ∈ cs, Written.isSolid c := by
    intro cs hcs
    obtain ⟨r, hr, rfl⟩ := List.mem_map.mp hcs
    exact (h r hr).isSolid_text
  have htext : (canonical rs).toList = [separator].intercalate (rs.map fun r => r.text.toList) := by
    rw [canonical, String.toList_intercalate, List.map_map]
    rfl
  have htrim : trim (canonical rs).toList = (canonical rs).toList := by
    rw [htext]
    have hmark : ∀ c ∈ [separator], isBlank c = false := List.forall_mem_singleton.mpr (by decide)
    refine trim_of_not_blank (forall_mem_intercalate hmark fun cs hcs c hc => ?_)
    exact Written.isBlank_of_isSolid (hsolid cs hcs c hc)
  have hsplit : (trim (canonical rs).toList).splitOn separator = rs.map fun r => r.text.toList := by
    rw [htrim, htext]
    refine List.splitOn_intercalate separator (fun cs hcs hmem => ?_) (by simpa using hne)
    exact Written.ne_separator_of_isSolid (hsolid cs hcs _ hmem) rfl
  rw [requirements_eq_ok_iff, hsplit, List.forall₂_map_left_iff, List.forall₂_same]
  exact fun r hr => (h r hr).states

/-- Words that look like a level or a number are codes like any other. -/
theorem requirements_canonical_words :
    requirements "!level|007|ANY\x7b2,5\x7d[0,3,level>70]-@3\x7b0,\x7d" =
      .ok [⟨[.code "level", .code "007", .wildcard], .between 2 5, .ofList [3, 0], 70, true⟩,
        ⟨[.shipClass 3], .unbounded, .empty, 0, false⟩] := by
  have hread := @requirements_canonical
    [⟨[.code "level", .code "007", .wildcard], .between 2 5, .ofList [3, 0], 70, true⟩,
      ⟨[.shipClass 3], .unbounded, .empty, 0, false⟩] (by decide) (by decide)
  have htext : canonical
      [⟨[.code "level", .code "007", .wildcard], .between 2 5, .ofList [3, 0], 70, true⟩,
        ⟨[.shipClass 3], .unbounded, .empty, 0, false⟩] =
      "!level|007|ANY\x7b2,5\x7d[0,3,level>70]-@3\x7b0,\x7d" := by
    decide +kernel
  rw [htext] at hread
  exact hread

end FleetComposition
