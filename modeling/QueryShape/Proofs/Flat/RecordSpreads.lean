import QueryShape.Proofs.Flat.Listed
import QueryShape.Proofs.Typed.RecordSpreads

/-!
# One decision for all types of a record

If fragments are not merged in, the same fragments apply to all types of a record, which are those
that apply to any one of them. If moreover empty inline fragments are left out, all types of a
record have inline fragments or none of them has one, as would be decided for any one type alone.
-/

set_option autoImplicit false

namespace QueryShape.Flat

open Typed (SelectionSet Record)

section

variable {options : Options} {set : SelectionSet} {record : Record}

/-- If empty inline fragments are left out, some types of a record need inline fragments for the
fields of the record, and for fragments that apply to one of the types but not to all possible
types. -/
theorem needsInlineFragments_iff (homit : options.omitEmptyInlineFragments = true)
    (hrecord : record ∈ set.typeCase.records) {types : List String}
    (htypes : ∀ type ∈ types, type ∈ record.possibleTypes) {type : String} (htype : type ∈ types) :
    needsInlineFragments options set { record with possibleTypes := types } = true ↔
      record.fields ≠ [] ∨ ∃ name ∈ set.spreadNamesFor [type], name ∉ set.spreadNames := by
  have hnames := SelectionSet.spreadNamesFor_record hrecord htypes htype
  cases hcontained : PossibleTypes.contained set.possibleTypes types with
  | true =>
    have hall := PossibleTypes.contained_eq_true.mp hcontained
    have hfields : record.fields = [] := by
      by_contra hfields
      obtain ⟨other, hother, hout⟩ := set.sorts_typeCase.proper record hrecord hfields
      exact hout (htypes other (hall other hother))
    have hlisted : ∀ name ∈ set.spreadNamesFor [type], name ∈ set.spreadNames := by
      intro name hname
      rw [← hnames, SelectionSet.mem_spreadNamesFor] at hname
      exact SelectionSet.mem_spreadNamesFor.mpr (hname.mono hall)
    simpa [needsInlineFragments, hcontained, hfields] using hlisted
  | false =>
    rw [← hnames]
    by_cases hfields : record.fields = [] <;>
      simp [needsInlineFragments, hcontained, homit, hfields]

end

/-- In the type case of a selection set without its fragments merged in, the names of the fragments
that apply to all types of a record are, in order, those of the fragments that apply to any of the
types. So if empty inline fragments are left out, deciding on a record and deciding on one of its
types alone agree: a type without fields of its own gets an inline fragment if and only if some
fragment applies to it but not to all possible types. -/
theorem spreadNamesFor_alike_in_record (set : SelectionSet) :
    ∀ record ∈ set.typeCase.records, ∀ type ∈ record.possibleTypes,
      set.spreadNamesFor record.possibleTypes = set.spreadNamesFor [type] ∧
      ∀ options : Options, options.omitEmptyInlineFragments = true →
        needsInlineFragments options set record =
          needsInlineFragments options set { record with possibleTypes := [type] } ∧
        (options.mergeSpreadFields = false → ∀ (document : Typed.Document) (node : Selection),
          flatten options document set = .ok node →
            (((Node.selection node).inlineFragmentFor? type).isSome = true ↔
              record.fields ≠ [] ∨
                ∃ name ∈ set.spreadNamesFor [type], name ∉ set.spreadNames)) := by
  intro record hrecord type htype
  refine ⟨SelectionSet.spreadNamesFor_record hrecord (fun _ => id) htype,
    fun options homit => ?_⟩
  have hneeds := needsInlineFragments_iff homit hrecord (fun _ => id) htype
  have halone := needsInlineFragments_iff homit hrecord (List.forall_mem_singleton.mpr htype)
    (List.mem_singleton.mpr rfl)
  refine ⟨Bool.eq_iff_iff.mpr (hneeds.trans halone.symm), fun hmerge document node hnode => ?_⟩
  rw [flatten, ofTyped_succ] at hnode
  have htypeCase : typeCaseOf options document set = .ok set.typeCase := by
    rw [typeCaseOf, hmerge]
    rfl
  rw [(listed?_of_flattenStep hnode htypeCase hrecord htype).1]
  exact hneeds

def petFragments : SelectionSet where
  possibleTypes := ["Dog", "Cat", "Bird"]
  selections :=
    [.typeCondition "Pet" ["Dog", "Cat"]
      [.booleanCondition ⟨"c", false⟩ ["Dog", "Cat"] [.fragmentSpread "OfPets"]],
     .leaf Typed.petName]

theorem spreadNamesFor_alike_in_record_petFragments :
    ∃ node, flatten { mergeSpreadFields := false } ⟨[], [], []⟩ petFragments = .ok node ∧
      petFragments.spreadNamesFor ["Dog", "Cat"] = petFragments.spreadNamesFor ["Cat"] ∧
      ((Node.selection node).inlineFragmentFor? "Cat").isSome = true ∧
      ((Node.selection node).inlineFragmentFor? "Bird").isSome = false := by
  have hall := spreadNamesFor_alike_in_record petFragments
  have hrecords : petFragments.typeCase.records = [⟨["Dog", "Cat"], []⟩, ⟨["Bird"], []⟩] := rfl
  rw [hrecords, List.forall_mem_cons, List.forall_mem_singleton] at hall
  obtain ⟨hpets, hbirds⟩ := hall
  obtain ⟨hnames, hdecided⟩ := hpets "Cat" (by decide)
  obtain ⟨node, hnode⟩ : ∃ node,
      flatten { mergeSpreadFields := false } ⟨[], [], []⟩ petFragments = .ok node := ⟨_, rfl⟩
  have hcat := (hdecided _ rfl).2 rfl _ _ hnode
  have hbird := ((hbirds "Bird" (by decide)).2 _ rfl).2 rfl _ _ hnode
  refine ⟨node, hnode, hnames, hcat.mpr (Or.inr ⟨"OfPets", by decide, by decide⟩), ?_⟩
  rw [Bool.eq_false_iff]
  intro hsome
  have hnone : ¬∃ name ∈ petFragments.spreadNamesFor ["Bird"], name ∉ petFragments.spreadNames := by
    decide
  exact (hbird.mp hsome).elim (absurd rfl) hnone

end QueryShape.Flat
