import Mathlib.Data.List.Infix
import QueryShape.Proofs.Typed.Visited

/-!
# Records are the coarsest partition that keeps visited selections apart

After every step through a selection set the records of its type case partition the possible types
in order. Two types share a record exactly if everything visited so far applies to both or to
neither of them, so that no coarser partition would do and none that is finer was made.
-/

set_option autoImplicit false

namespace QueryShape.Typed

/-- The records divide the types as coarsely as what was visited over them allows. Each of them
lists its types in the given order, and they are in the order of their first types. Two types are
together exactly if nothing that was visited applies to only one of them. -/
structure IsCoarsestPartition (types : List String) (visited : List Visited)
    (records : List Record) : Prop where
  partition : Partition types records
  listed : ∀ record ∈ records, record.possibleTypes.Sublist types
  ordered : (records.map (·.possibleTypes.head?)).Sublist (types.map some)
  together : ∀ type ∈ types, ∀ other ∈ types,
    (∃ record ∈ records, type ∈ record.possibleTypes ∧ other ∈ record.possibleTypes) ↔
      ∀ member ∈ visited, member.AppliesTo type ↔ member.AppliesTo other

namespace TypeCase

theorem sublist_head?_ordered (types : List String) (records : List Record) :
    ((ordered types records).map (·.possibleTypes.head?)).Sublist (types.map some) := by
  rw [ordered, List.map_filterMap]
  apply List.Sublist.trans _ ((distinct_sublist types).map some)
  induction distinct types with
  | nil => exact .slnil
  | cons type rest ih =>
    rw [List.filterMap_cons, List.map_cons]
    cases hfound : records.find? (·.possibleTypes.head? == some type) with
    | none => exact ih.cons _
    | some record =>
      have hhead : record.possibleTypes.head? = some type := by simpa using List.find?_some hfound
      rw [Option.map_some, hhead]
      exact ih.cons_cons _

theorem isCoarsestPartition_of_sorts {typeCase : TypeCase} {types : List String}
    {visited : List Visited}
    (hsorts : typeCase.Sorts types (visited.map (Visited.occurrence types)))
    (harranges : typeCase.Arranges types (visited.map (Visited.occurrence types))) :
    IsCoarsestPartition types visited typeCase.records where
  partition := hsorts.partition
  listed record hrecord := by
    rw [← harranges.listed record hrecord]
    exact List.filter_sublist
  ordered := by
    rw [← harranges.ordered]
    exact sublist_head?_ordered types typeCase.records
  together type htype other hother := by
    rw [← Visited.alike_map_occurrence types visited htype hother]
    constructor
    · rintro ⟨record, hrecord, hin, hin'⟩ occurrence hoccurrence
      exact ⟨hsorts.uniform record hrecord type hin other hin' occurrence hoccurrence,
        hsorts.uniform record hrecord other hin' type hin occurrence hoccurrence⟩
    · intro halike
      obtain ⟨record, hrecord, hin⟩ := hsorts.partition.covered type htype
      exact ⟨record, hrecord, hin, harranges.coarse record hrecord type hin other hother halike⟩

theorem isCoarsestPartition_ofOccurrences (types : List String) (visited : List Visited) :
    IsCoarsestPartition types visited
      (ofOccurrences types (visited.map (Visited.occurrence types))).records :=
  have hwithin := Visited.within_map_occurrence types visited
  isCoarsestPartition_of_sorts (sorts_ofOccurrences hwithin) (arranges_ofOccurrences hwithin)

end TypeCase

namespace SelectionSet

def upTo (set : SelectionSet) (count : Nat) : SelectionSet :=
  { set with selections := set.selections.take count }

theorem isPrefix_occurrences_upTo (set : SelectionSet) (count : Nat) :
    (set.upTo count).occurrences <+: set.occurrences := by
  rw [occurrences, occurrences, upTo, Selection.allOccurrences_eq_flatMap,
    Selection.allOccurrences_eq_flatMap]
  exact (List.IsPrefix.flatMap (List.take_prefix count set.selections) _).filter _

theorem typeCases_getElem? {set : SelectionSet} {count : Nat} {typeCase : TypeCase}
    (h : set.typeCases[count]? = some typeCase) : typeCase = (set.upTo count).typeCase := by
  rw [typeCases, List.getElem?_map] at h
  obtain ⟨index, hindex, rfl⟩ := Option.map_eq_some_iff.mp h
  obtain ⟨_, rfl⟩ := List.getElem?_eq_some_iff.mp hindex
  rw [List.getElem_range]
  rfl

theorem isCoarsestPartition_typeCase (set : SelectionSet) :
    IsCoarsestPartition set.possibleTypes set.visited set.typeCase.records := by
  rw [typeCase_eq]
  exact TypeCase.isCoarsestPartition_ofOccurrences set.possibleTypes set.visited

/-- The records of a selection set are a coarsest partition when all of it has been visited, and so
they are after every step on the way. The type case of its first selections is that after one of
these steps, whatever their number. -/
theorem coarsest_after_every_step (set : SelectionSet) :
    IsCoarsestPartition set.possibleTypes set.visited set.typeCase.records ∧
    (∀ steps, IsCoarsestPartition set.possibleTypes (set.visited.take steps)
      (TypeCase.ofOccurrences set.possibleTypes (set.occurrences.take steps)).records) ∧
    ∀ count typeCase, set.typeCases[count]? = some typeCase →
      IsCoarsestPartition set.possibleTypes (set.upTo count).visited typeCase.records ∧
        ∃ steps, typeCase =
          TypeCase.ofOccurrences set.possibleTypes (set.occurrences.take steps) := by
  refine ⟨set.isCoarsestPartition_typeCase, fun steps => ?_, fun count typeCase htypeCase => ?_⟩
  · rw [occurrences_eq, ← List.map_take]
    exact TypeCase.isCoarsestPartition_ofOccurrences set.possibleTypes (set.visited.take steps)
  · rw [typeCases_getElem? htypeCase]
    refine ⟨(set.upTo count).isCoarsestPartition_typeCase, (set.upTo count).occurrences.length, ?_⟩
    rw [← List.prefix_iff_eq_take.mp (set.isPrefix_occurrences_upTo count)]
    rfl

end SelectionSet

theorem coarsest_after_every_step_petNames :
    ∃ typeCase, petNames.typeCases[1]? = some typeCase ∧
      typeCase.records.map (·.possibleTypes) = [["Dog"], ["Cat"], ["Bird"]] ∧
      IsCoarsestPartition petNames.possibleTypes (petNames.upTo 1).visited typeCase.records := by
  refine ⟨(petNames.upTo 1).typeCase, rfl, by decide, ?_⟩
  obtain ⟨_, _, hfirst⟩ := petNames.coarsest_after_every_step
  exact (hfirst 1 _ rfl).1

end QueryShape.Typed
