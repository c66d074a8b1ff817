import Mathlib.Data.List.Basic
import QueryShape.Proofs.Typed.Selected

/-!
# The type case of a selection set

The occurrences in a selection set are for some of its possible types each, so that its type case
holds for every type what they select for it: under each key the fields that the set selects for the
type, merged in order.
-/

set_option autoImplicit false

namespace QueryShape.Typed

namespace Selection

theorem allOccurrences_eq_flatMap (types : List String) (checks : List Check)
    (selections : List Selection) :
    allOccurrences types checks selections = selections.flatMap (occurrences types checks) := by
  induction selections with
  | nil => rfl
  | cons selection rest ih => rw [allOccurrences, ih, List.flatMap_cons]

theorem within_allOccurrences {types narrowed : List String}
    (h : PossibleTypes.intersect types narrowed = narrowed) (checks : List Check)
    (selections : List Selection) :
    ∀ occurrence ∈ allOccurrences narrowed checks selections,
      PossibleTypes.intersect types occurrence.types = occurrence.types := by
  induction selections using Selection.listInduction generalizing narrowed checks with
  | nil => simp [allOccurrences]
  | leaf head rest ih =>
    intro occurrence hmem
    rcases List.mem_cons.mp hmem with rfl | hmem
    · exact h
    · exact ih h checks occurrence hmem
  | composite head nestedTypes nested rest _ ih =>
    intro occurrence hmem
    rcases List.mem_cons.mp hmem with rfl | hmem
    · exact h
    · exact ih h checks occurrence hmem
  | typeCondition condition others inner rest ihInner ih =>
    intro occurrence hmem
    rcases List.mem_append.mp hmem with hmem | hmem
    · exact ihInner (PossibleTypes.intersect_intersect others h) checks occurrence hmem
    · exact ih h checks occurrence hmem
  | booleanCondition check innerTypes inner rest ihInner ih =>
    intro occurrence hmem
    rcases List.mem_append.mp hmem with hmem | hmem
    · exact ihInner h (checks ++ [check]) occurrence hmem
    · exact ih h checks occurrence hmem
  | fragmentSpread name rest ih =>
    intro occurrence hmem
    rcases List.mem_cons.mp hmem with rfl | hmem
    · exact h
    · exact ih h checks occurrence hmem

theorem fieldsFor_append (type key : String) (first second : List Occurrence) :
    fieldsFor type key (first ++ second) = fieldsFor type key first ++ fieldsFor type key second :=
  List.filterMap_append

theorem fieldsFor_field (type key : String) (field : Field) (types : List String) :
    fieldsFor type key [.field field types] =
      if type ∈ types then [field].filter (·.responseKey = key) else [] := by
  by_cases htype : type ∈ types <;> by_cases hkey : field.responseKey = key <;>
    simp [fieldsFor, fieldsWhere, htype, hkey]

theorem fieldsFor_spread (type key name : String) (types : List String) :
    fieldsFor type key [.spread name types] = [] :=
  rfl

theorem fieldsFor_allOccurrences (type key : String) (types : List String) (checks : List Check)
    (selections : List Selection) :
    fieldsFor type key (allOccurrences types checks selections) =
      if type ∈ types then
        ((allSelectedFor type checks selections).map Selected.conditional).filter
          (·.responseKey = key)
      else [] := by
  induction selections using Selection.listInduction generalizing types checks with
  | nil => simp [allOccurrences, fieldsFor, fieldsWhere, allSelectedFor]
  | leaf head rest ih =>
    rw [allOccurrences, fieldsFor_append, ih, occurrences, fieldsFor_field, allSelectedFor,
      selectedFor, List.map_append, List.map_singleton, Selected.conditional_eq]
    by_cases htype : type ∈ types
    · simp only [htype, if_true, ← List.filter_append]
    · simp [htype]
  | composite head nestedTypes nested rest _ ih =>
    rw [allOccurrences, fieldsFor_append, ih, occurrences, fieldsFor_field, allSelectedFor,
      selectedFor, List.map_append, List.map_singleton, Selected.conditional_eq]
    by_cases htype : type ∈ types
    · simp only [htype, if_true, ← List.filter_append]
    · simp [htype]
  | typeCondition condition others inner rest ihInner ih =>
    rw [allOccurrences, fieldsFor_append, ih, occurrences, ihInner]
    by_cases htype : type ∈ types <;> by_cases hothers : type ∈ others <;>
      simp [allSelectedFor, selectedFor, htype, hothers]
  | booleanCondition check innerTypes inner rest ihInner ih =>
    rw [allOccurrences, fieldsFor_append, ih, occurrences, ihInner]
    by_cases htype : type ∈ types <;> simp [allSelectedFor, selectedFor, htype]
  | fragmentSpread name rest ih =>
    rw [allOccurrences, fieldsFor_append, ih, occurrences, fieldsFor_spread, List.nil_append]
    rfl

end Selection

namespace SelectionSet

variable (set : SelectionSet)

/-- The fields that apply to a type, apart from those in fragments. -/
def selectedFor (type : String) : List Selected :=
  Selection.allSelectedFor type [] set.selections

def fieldsUnder (type key : String) : List Field :=
  ((set.selectedFor type).map Selected.conditional).filter (·.responseKey = key)

theorem fieldsFor_occurrences (type key : String) :
    fieldsFor type key set.occurrences =
      fieldsFor type key (Selection.allOccurrences set.possibleTypes [] set.selections) := by
  rw [occurrences, fieldsFor, fieldsWhere, List.filterMap_filter]
  apply List.filterMap_congr
  intro occurrence _
  cases occurrence with
  | field field types => cases types <;> simp [Occurrence.types]
  | spread name types => simp

theorem within_occurrences : ∀ occurrence ∈ set.occurrences,
    PossibleTypes.intersect set.possibleTypes occurrence.types = occurrence.types :=
  fun occurrence hmem => Selection.within_allOccurrences (PossibleTypes.intersect_self _) []
    set.selections occurrence (List.mem_filter.mp hmem).1

theorem sorts_typeCase : set.typeCase.Sorts set.possibleTypes set.occurrences :=
  TypeCase.sorts_ofOccurrences set.within_occurrences

/-- The type case of a selection set holds for a type, in its record or else in the default record,
the fields under a key that are selected for the type, merged in order. -/
theorem field_typeCase {record : Record} (hrecord : record ∈ set.typeCase.records) {type : String}
    (htype : type ∈ record.possibleTypes) (key : String) :
    (record.field? key).or (set.typeCase.defaultRecord.field? key) =
      Field.mergeAll (set.fieldsUnder type key) := by
  have hmem := set.sorts_typeCase.partition.within record hrecord type htype
  rw [set.sorts_typeCase.field record hrecord type htype, fieldsFor_occurrences,
    Selection.fieldsFor_allOccurrences, if_pos hmem]
  rfl

end SelectionSet

end QueryShape.Typed
