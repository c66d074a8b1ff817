import QueryShape.Proofs.Typed.Coarsest
import QueryShape.Typed.Spreads

/-!
# Spreads that apply to the types of a record

The names collected for types are those of the visited spreads that apply to all of the types. As
what is visited applies to all types of a record or to none of them, the same names are collected
for any types of a record, in the same order.
-/

set_option autoImplicit false

namespace QueryShape.Typed

def Visited.spread? : Visited → Option String
  | field _ _ => none
  | spread name _ => some name

theorem Selection.allSpreadsFor_eq_filterMap (types : List String) (conditions : List (List String))
    (checks : List Check) (selections : List Selection) :
    ((allVisited conditions checks selections).filter fun member =>
        ∀ type ∈ types, member.AppliesTo type).filterMap Visited.spread? =
      if ∀ type ∈ types, ∀ narrowed ∈ conditions, type ∈ narrowed then
        allSpreadsFor types selections
      else [] := by
  induction selections using listInduction generalizing conditions checks with
  | nil => simp [allVisited, allSpreadsFor]
  | leaf head rest ih | composite head nestedTypes nested rest _ ih =>
    rw [allSpreadsFor, spreadsFor, List.nil_append, ← ih conditions checks, allVisited,
      List.filter_append, List.filterMap_append, visited, List.filter_cons, List.filter_nil]
    split <;> rfl
  | typeCondition condition narrowed inner rest ihInner ih =>
    -- All types satisfy one condition more exactly if they are contained in what it narrows to.
    have hconditions : (∀ type ∈ types, ∀ other ∈ conditions ++ [narrowed], type ∈ other) ↔
        (∀ type ∈ types, ∀ other ∈ conditions, type ∈ other) ∧
          PossibleTypes.contained types narrowed = true := by
      rw [PossibleTypes.contained_eq_true, ← forall₂_and]
      simp only [List.forall_mem_append, List.forall_mem_singleton]
    rw [allVisited, List.filter_append, List.filterMap_append, ih, visited, ihInner, allSpreadsFor,
      spreadsFor, if_congr hconditions rfl rfl]
    by_cases happlies : ∀ type ∈ types, ∀ other ∈ conditions, type ∈ other
    · rw [if_pos happlies, if_pos happlies, if_congr (and_iff_right happlies) rfl rfl]
    · rw [if_neg happlies, if_neg happlies, if_neg fun h => happlies h.1, List.append_nil]
  | booleanCondition check innerTypes inner rest ihInner ih =>
    rw [allVisited, List.filter_append, List.filterMap_append, ih, visited, ihInner, allSpreadsFor,
      spreadsFor]
    split <;> simp
  | fragmentSpread name rest ih =>
    rw [allVisited, List.filter_append, List.filterMap_append, ih, visited, allSpreadsFor,
      spreadsFor]
    by_cases happlies : ∀ type ∈ types, ∀ narrowed ∈ conditions, type ∈ narrowed
    · have hkept : ∀ type ∈ types, (Visited.spread name conditions).AppliesTo type := happlies
      rw [List.filter_cons_of_pos (by rwa [decide_eq_true_eq]), if_pos happlies, if_pos happlies]
      rfl
    · have hdropped : ¬∀ type ∈ types, (Visited.spread name conditions).AppliesTo type := happlies
      rw [List.filter_cons_of_neg (by rwa [decide_eq_true_eq]), if_neg happlies, if_neg happlies]
      rfl

namespace SelectionSet

theorem spreadsFor_eq_filterMap (set : SelectionSet) (types : List String) :
    set.spreadsFor types = ((Selection.allVisited [] [] set.selections).filter fun member =>
      ∀ type ∈ types, member.AppliesTo type).filterMap Visited.spread? := by
  rw [Selection.allSpreadsFor_eq_filterMap, spreadsFor]
  simp only [List.not_mem_nil, false_implies, implies_true, if_true]

/-- What is collected for some types of a record is collected for each of them. -/
theorem spreadsFor_record {set : SelectionSet} {record : Record}
    (hrecord : record ∈ set.typeCase.records) {types : List String}
    (htypes : ∀ type ∈ types, type ∈ record.possibleTypes) {type : String} (htype : type ∈ types) :
    set.spreadsFor types = set.spreadsFor [type] := by
  have hcoarsest := set.isCoarsestPartition_typeCase
  have hwithin := hcoarsest.partition.within record hrecord
  have hin := htypes type htype
  rw [spreadsFor_eq_filterMap, spreadsFor_eq_filterMap]
  congr 1
  apply List.filter_congr
  intro member hmember
  rw [decide_eq_decide, List.forall_mem_singleton]
  refine ⟨fun happlies => happlies type htype, fun happlies other hother => ?_⟩
  have hvisited : member ∈ set.visited :=
    List.mem_filter.mpr ⟨hmember, decide_eq_true ⟨type, hwithin type hin, happlies⟩⟩
  have hother := htypes other hother
  have halike := (hcoarsest.together type (hwithin type hin) other (hwithin other hother)).mp
    ⟨record, hrecord, hin, hother⟩
  exact (halike member hvisited).mp happlies

theorem spreadNamesFor_record {set : SelectionSet} {record : Record}
    (hrecord : record ∈ set.typeCase.records) {types : List String}
    (htypes : ∀ type ∈ types, type ∈ record.possibleTypes) {type : String} (htype : type ∈ types) :
    set.spreadNamesFor types = set.spreadNamesFor [type] := by
  rw [spreadNamesFor, spreadNamesFor, spreadsFor_record hrecord htypes htype]

end SelectionSet

end QueryShape.Typed
