import QueryShape.Proofs.Related
import QueryShape.Proofs.Typed.Rearranged
import QueryShape.Proofs.Typed.Arrangement

/-!
# Type cases of selections in another order

Merging fields in another order gives the same up to the order of conditions and nested selections,
as long as the fields differ in nothing else. So the type case of selections in another order has
the same records in the same order, with fields that match.
-/

set_option autoImplicit false

namespace QueryShape.Typed

def FieldHead.unconditional (head : FieldHead) : FieldHead :=
  { head with isConditional := false, conditions := [] }

/-- Both fields are the same apart from conditions and nested selections. -/
structure Field.Agrees (field other : Field) : Prop where
  head : field.head.unconditional = other.head.unconditional
  possibleTypes :
    field.selectionSet.map (·.possibleTypes) = other.selectionSet.map (·.possibleTypes)

structure Record.Rearranges (record other : Record) : Prop where
  possibleTypes : other.possibleTypes = record.possibleTypes
  fields : Matched Field.Rearranges record.fields other.fields

structure TypeCase.Rearranges (typeCase other : TypeCase) : Prop where
  defaultFields : Matched Field.Rearranges typeCase.defaultRecord.fields other.defaultRecord.fields
  records : List.Forall₂ Record.Rearranges typeCase.records other.records

theorem FieldHead.conditional_eq {head other : FieldHead}
    (h : head.unconditional = other.unconditional) (isConditional : Bool)
    (conditions : List Check) :
    { other with isConditional, conditions } = { head with isConditional, conditions } :=
  congrArg (fun head : FieldHead => { head with isConditional, conditions }) h.symm

theorem Selected.agrees_conditional {first second : Selected}
    (h : first.field.Agrees second.field) : first.conditional.Agrees second.conditional := by
  have hhead : ∀ selected : Selected,
      selected.conditional.head.unconditional = selected.field.head.unconditional := by
    intro selected
    obtain ⟨_, _, hconditional⟩ := selected.exists_head_conditional
    rw [hconditional]
    rfl
  exact ⟨by rw [hhead, hhead, h.head], h.possibleTypes⟩

namespace Field

section

variable {fields others : List Field} (h : Matched Field.Rearranges fields others)
include h

theorem allConditional_of_matched : allConditional others = allConditional fields := by
  rw [Bool.eq_iff_iff, allConditional, allConditional, List.all_eq_true, List.all_eq_true]
  constructor
  · intro hall field hfield
    obtain ⟨other, hother, hrearranges⟩ := h.exists_of_mem_left hfield
    exact hrearranges.isConditional_eq ▸ hall other hother
  · intro hall other hother
    obtain ⟨field, hfield, hrearranges⟩ := h.exists_of_mem hother
    exact hrearranges.isConditional_eq ▸ hall field hfield

theorem joinedConditions_of_matched : (joinedConditions fields).Perm (joinedConditions others) := by
  rw [joinedConditions, joinedConditions, allConditional_of_matched h]
  split
  · apply distinct_perm
    intro check
    rw [List.mem_flatMap, List.mem_flatMap]
    constructor
    · rintro ⟨field, hfield, hcheck⟩
      obtain ⟨other, hother, hrearranges⟩ := h.exists_of_mem_left hfield
      exact ⟨other, hother, hrearranges.conditions.mem_iff.mp hcheck⟩
    · rintro ⟨other, hother, hcheck⟩
      obtain ⟨field, hfield, hrearranges⟩ := h.exists_of_mem hother
      exact ⟨field, hfield, hrearranges.conditions.mem_iff.mpr hcheck⟩
  · exact .refl []

theorem rearranges_flatMap_nested :
    Selection.Rearranges (fields.flatMap nested) (others.flatMap nested) := by
  obtain ⟨ordered, hperm, hrel⟩ := h
  refine .trans (.of_perm (hperm.flatMap_right nested)) ?_
  clear hperm
  induction hrel with
  | nil => exact .nil
  | cons hfirst _ ih => exact hfirst.nested.append ih

theorem rearranges_mergeAll (hregular : ∀ field ∈ fields, field.head.IsRegular)
    (hagree : ∀ field ∈ fields, ∀ other ∈ fields, field.Agrees other) {field other : Field}
    (hfield : mergeAll fields = some field) (hother : mergeAll others = some other) :
    field.Rearranges other := by
  have hregularOthers : ∀ other ∈ others, other.head.IsRegular := by
    intro other hother
    obtain ⟨field, hfield, hrearranges⟩ := h.exists_of_mem hother
    exact hrearranges.isRegular (hregular field hfield)
  have hhead := head_mergeAll hregular
  have hotherHead := head_mergeAll hregularOthers
  have hset := selectionSet_mergeAll fields
  have hotherSet := selectionSet_mergeAll others
  rw [hfield] at hhead hset
  rw [hother] at hotherHead hotherSet
  cases fields with
  | nil => cases hfield
  | cons first rest =>
    cases others with
    | nil => cases hother
    | cons otherFirst otherRest =>
      -- The first of the other fields is one of the fields, and agrees with the first of them.
      obtain ⟨origin, horigin, hrearranges⟩ := h.exists_of_mem List.mem_cons_self
      have hagrees := hagree first List.mem_cons_self origin horigin
      obtain hhead : field.head = _ := Option.some.inj hhead
      obtain hotherHead : other.head = _ := Option.some.inj hotherHead
      have hsame : first.head.unconditional = otherFirst.head.unconditional := by
        rw [hrearranges.head]
        exact hagrees.head
      constructor
      · rw [hotherHead, hhead, allConditional_of_matched h]
        exact FieldHead.conditional_eq hsame _ _
      · rw [hotherHead, hhead]
        exact joinedConditions_of_matched h
      · have htypes : first.selectionSet.map (·.possibleTypes) =
            otherFirst.selectionSet.map (·.possibleTypes) := by
          rw [hagrees.possibleTypes]
          exact (map_eq_of_rel hrearranges.selectionSet fun _ _ hset => hset.possibleTypes).symm
        have hnested := rearranges_flatMap_nested h
        rw [Option.bind_some, joined?] at hset hotherSet
        rw [hset, hotherSet]
        generalize first.selectionSet = set, otherFirst.selectionSet = otherSet at htypes ⊢
        cases set with
        | none =>
          rw [Option.map_none, eq_comm, Option.map_eq_none_iff] at htypes
          rw [htypes]
          exact .none
        | some set =>
          rw [Option.map_some, eq_comm, Option.map_eq_some_iff] at htypes
          obtain ⟨found, rfl, htypes⟩ := htypes
          exact .some ⟨htypes, hnested⟩

end

end Field

theorem Record.matched_fields {record other : Record} (hkeys : record.keys.Perm other.keys)
    (hnodup : record.keys.Nodup)
    (h : ∀ key field found, record.field? key = some field → other.field? key = some found →
      field.Rearranges found) : Matched Field.Rearranges record.fields other.fields := by
  apply Matched.of_map_perm hkeys
  intro field hfield found hfound hkey
  apply h field.responseKey field found (Record.field?_eq_of_mem hnodup hfield)
  rw [hkey]
  exact Record.field?_eq_of_mem (hkeys.nodup_iff.mp hnodup) hfound

section

variable {occurrences others : List Occurrence}
  (h : Matched Occurrence.Rearranges occurrences others)
include h

theorem alike_of_matched {type other : String} :
    Alike others type other ↔ Alike occurrences type other := by
  constructor
  · intro halike occurrence hoccurrence
    obtain ⟨found, hfound, hrearranges⟩ := h.exists_of_mem_left hoccurrence
    exact hrearranges.types_eq ▸ halike found hfound
  · intro halike occurrence hoccurrence
    obtain ⟨found, hfound, hrearranges⟩ := h.exists_of_mem hoccurrence
    exact hrearranges.types_eq ▸ halike found hfound

theorem keysWhere_of_matched (applies : List String → Bool) :
    (distinct (keysWhere applies occurrences)).Perm (distinct (keysWhere applies others)) := by
  apply distinct_perm
  have hkeys : Matched Eq (keysWhere applies occurrences) (keysWhere applies others) := by
    apply h.filterMap
    intro occurrence other hrearranges
    cases hrearranges with
    | field types hfield =>
      simp only [hfield.responseKey_eq]
      split
      · exact .some rfl
      · exact .none
    | spread name types => exact .none
  exact fun key => hkeys.perm.mem_iff

theorem fieldsWhere_of_matched (applies : List String → Bool) (key : String) :
    Matched Field.Rearranges (fieldsWhere applies key occurrences)
      (fieldsWhere applies key others) := by
  apply h.filterMap
  intro occurrence other hrearranges
  cases hrearranges with
  | field types hfield =>
    simp only [hfield.responseKey_eq]
    split
    · exact .some hfield
    · exact .none
  | spread name types => exact .none

theorem rearranges_mergeAll_fieldsWhere
    (hregular : ∀ field types, .field field types ∈ occurrences → field.head.IsRegular)
    {applies : List String → Bool} {key : String}
    (hagree : ∀ field ∈ fieldsWhere applies key occurrences,
      ∀ other ∈ fieldsWhere applies key occurrences, field.Agrees other) {field other : Field}
    (hfield : Field.mergeAll (fieldsWhere applies key occurrences) = some field)
    (hother : Field.mergeAll (fieldsWhere applies key others) = some other) :
    field.Rearranges other := by
  apply Field.rearranges_mergeAll (fieldsWhere_of_matched h applies key) _ hagree hfield hother
  intro field hfield
  obtain ⟨types, hmem, _⟩ := mem_fieldsWhere.mp hfield
  exact hregular field types hmem

theorem TypeCase.rearranges_ofOccurrences {types : List String}
    (hwithin : ∀ occurrence ∈ occurrences,
      PossibleTypes.intersect types occurrence.types = occurrence.types)
    (hregular : ∀ field types, .field field types ∈ occurrences → field.head.IsRegular)
    (happlies : ∀ occurrence ∈ occurrences, ∃ type ∈ types, type ∈ occurrence.types)
    (hagree : ∀ type ∈ types, ∀ key, ∀ field ∈ fieldsFor type key occurrences,
      ∀ other ∈ fieldsFor type key occurrences, field.Agrees other) :
    (ofOccurrences types occurrences).Rearranges (ofOccurrences types others) := by
  have hwithinOthers : ∀ occurrence ∈ others,
      PossibleTypes.intersect types occurrence.types = occurrence.types := by
    intro occurrence hoccurrence
    obtain ⟨found, hfound, hrearranges⟩ := h.exists_of_mem hoccurrence
    rw [hrearranges.types_eq]
    exact hwithin found hfound
  have hsorts := sorts_ofOccurrences hwithin
  have hsortsOthers := sorts_ofOccurrences hwithinOthers
  have harranges := arranges_ofOccurrences hwithin
  have harrangesOthers := arranges_ofOccurrences hwithinOthers
  have hdistinct := hasDistinctKeys_ofOccurrences types occurrences
  have htypes : (ofOccurrences types occurrences).records.map (·.possibleTypes) =
      (ofOccurrences types others).records.map (·.possibleTypes) := by
    rw [harranges.map_possibleTypes hsorts, harrangesOthers.map_possibleTypes hsortsOthers]
    simp only [alike_of_matched h]
  constructor
  · apply Record.matched_fields _ hdistinct.defaultRecord
    · intro key field found hfield hfound
      rw [hsorts.default_field] at hfield
      rw [hsortsOthers.default_field] at hfound
      refine rearranges_mergeAll_fieldsWhere h hregular ?_ hfield hfound
      intro first hfirst second hsecond
      -- Both are selected for some type, since no occurrence is for none.
      obtain ⟨_, hmem, _⟩ := mem_fieldsWhere.mp hfirst
      obtain ⟨type, htype, _⟩ := happlies _ hmem
      exact hagree type htype key first (mem_fieldsFor_of_mem_commonFields htype hfirst) second
        (mem_fieldsFor_of_mem_commonFields htype hsecond)
    · rw [harranges.default_keys, harrangesOthers.default_keys]
      exact keysWhere_of_matched h _
  · refine forall₂_of_map_eq htypes ?_
    intro record hrecord other hother htypes
    obtain ⟨type, htype⟩ := List.exists_mem_of_ne_nil _ (hsorts.partition.nonempty record hrecord)
    have htypeOther : type ∈ other.possibleTypes := htypes ▸ htype
    refine ⟨htypes.symm, Record.matched_fields ?_ (hdistinct.record record hrecord) ?_⟩
    · rw [harranges.keys record hrecord type htype,
        harrangesOthers.keys other hother type htypeOther]
      exact keysWhere_of_matched h _
    · intro key field found hfield hfound
      have hmerge := hsorts.field record hrecord type htype key
      have hmergeOther := hsortsOthers.field other hother type htypeOther key
      rw [hfield, Option.some_or] at hmerge
      rw [hfound, Option.some_or] at hmergeOther
      have hin := hsorts.partition.within record hrecord type htype
      exact rearranges_mergeAll_fieldsWhere h hregular (hagree type hin key) hmerge.symm
        hmergeOther.symm

end

namespace SelectionSet.Rearranges

variable {set other : SelectionSet} (h : set.Rearranges other)
include h

theorem spreadNamesFor_perm (types : List String) :
    (set.spreadNamesFor types).Perm (other.spreadNamesFor types) := by
  apply distinct_perm
  intro name
  rw [spreadsFor, spreadsFor, Selection.mem_allSpreadsFor, Selection.mem_allSpreadsFor,
    h.selections.spreads_iff]

theorem occurrences : Matched Occurrence.Rearranges set.occurrences other.occurrences := by
  rw [SelectionSet.occurrences, SelectionSet.occurrences, h.possibleTypes]
  apply (h.selections.allOccurrences set.possibleTypes []).filter
  intro occurrence found hrearranges
  rw [hrearranges.types_eq]

theorem typeCase
    (hregular : ∀ field types, .field field types ∈ set.occurrences → field.head.IsRegular)
    (hagree : ∀ type ∈ set.possibleTypes, ∀ key, ∀ field ∈ set.fieldsUnder type key,
      ∀ other ∈ set.fieldsUnder type key, field.Agrees other) :
    set.typeCase.Rearranges other.typeCase := by
  rw [SelectionSet.typeCase, SelectionSet.typeCase, h.possibleTypes]
  apply TypeCase.rearranges_ofOccurrences h.occurrences set.within_occurrences hregular
  · exact fun _ => exists_possibleType_of_mem_occurrences
  · intro type htype key
    rw [fieldsFor_occurrences, Selection.fieldsFor_allOccurrences, if_pos htype]
    exact hagree type htype key

theorem exists_inlined {document : Document} {merged : SelectionSet}
    (hmerged : document.inlined set = .ok merged) :
    ∃ mergedOther, document.inlined other = .ok mergedOther ∧ merged.Rearranges mergedOther := by
  simp only [Document.inlined, Outcome.bind_eq_ok, Outcome.pure_eq_ok] at hmerged ⊢
  obtain ⟨selections, hselections, rfl⟩ := hmerged
  obtain ⟨others, hothers, hrearranges⟩ := h.selections.exists_allInlined hselections
  exact ⟨_, ⟨others, h.possibleTypes ▸ hothers, rfl⟩, h.possibleTypes, hrearranges⟩

end SelectionSet.Rearranges

end QueryShape.Typed
