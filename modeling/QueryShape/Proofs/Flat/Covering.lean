import Mathlib.Data.List.Flatten
import QueryShape.Proofs.Flat.Shown
import QueryShape.Proofs.Typed.Folding
import QueryShape.Proofs.Typed.RecordSpreads

/-!
# Records of all types have no fields

After every step through a selection set, a record with fields lacks some possible type. A field
that applies to some of the types only is in the records of these types and in no others, and what a
record has in the place of a default field has the selections inside of it too. So nothing is lost
when a record of all types gets no inline fragments.
-/

set_option autoImplicit false

namespace QueryShape.Typed

theorem Field.selections_of_mergeAll {fields : List Field} {merged : Field} {set : SelectionSet}
    (hmerged : mergeAll fields = some merged) (hset : merged.selectionSet = some set) :
    set.selections = fields.flatMap nested := by
  have hjoined := selectionSet_mergeAll fields
  rw [hmerged, Option.bind_some, hset] at hjoined
  cases fields with
  | nil => cases hjoined
  | cons first rest =>
    obtain ⟨inner, -, rfl⟩ := Option.map_eq_some_iff.mp hjoined.symm
    rfl

theorem sublist_fieldsWhere {applies others : List String → Bool}
    (h : ∀ types, applies types = true → others types = true) (key : String)
    (occurrences : List Occurrence) :
    (fieldsWhere applies key occurrences).Sublist (fieldsWhere others key occurrences) := by
  rw [fieldsWhere_eq, fieldsWhere_eq]
  exact ((List.monotone_filter_right occurrences fun occurrence => h occurrence.types).filterMap
    Occurrence.field?).filter _

def Visited.IsPartial (types : List String) (member : Visited) : Prop :=
  ∃ type ∈ types, ¬member.AppliesTo type

namespace TypeCase

/-- What the records of a type case have beyond its default record, where the given selections were
visited over the given types. -/
structure Layers (typeCase : TypeCase) (types : List String) (visited : List Visited) : Prop where
  /-- A record with fields has fewer types. -/
  length_lt : ∀ record ∈ typeCase.records, record.fields ≠ [] →
    record.possibleTypes.length < types.length
  /-- What replaces a default field has the selections inside of it, in their order. -/
  sublist : ∀ record ∈ typeCase.records, ∀ key own base inner baseInner,
    record.field? key = some own → typeCase.defaultRecord.field? key = some base →
      own.selectionSet = some inner → base.selectionSet = some baseInner →
        baseInner.selections.Sublist inner.selections
  /-- A field for some of the types is merged into the record of each of them. -/
  present : ∀ member ∈ visited, ∀ field ∈ member.field?, member.IsPartial types →
    ∀ type ∈ types, member.AppliesTo type →
      ∃ record ∈ typeCase.records, type ∈ record.possibleTypes ∧
        ∃ own, record.field? field.responseKey = some own ∧
          Field.mergeAll? (Visited.fieldsUnder field.responseKey
            (visited.filter (·.AppliesTo type))) = some own
  /-- It is in no record that has another type. -/
  apart : ∀ member ∈ visited, ∀ record ∈ typeCase.records, ∀ type ∈ record.possibleTypes,
    member.AppliesTo type → ∀ other ∈ record.possibleTypes, member.AppliesTo other

/-- The field is added for the types that the selection applies to: the default fields stay as they
are, and every record is a part of an earlier one, either for some of these types and with the field
or for others and with the same fields. -/
structure AddsOnlyTo (before after : TypeCase) (member : Visited) (field : Field) : Prop where
  default : after.defaultRecord = before.defaultRecord
  record : ∀ record ∈ after.records, ∃ earlier ∈ before.records,
    (∀ type ∈ record.possibleTypes, type ∈ earlier.possibleTypes) ∧
      ((∀ type ∈ record.possibleTypes, member.AppliesTo type) ∧
          record.fields = insertField field (before.defaultRecord.field? field.responseKey)
            earlier.fields ∨
        (∀ type ∈ record.possibleTypes, ¬member.AppliesTo type) ∧
          record.fields = earlier.fields)

variable {typeCase : TypeCase} {types : List String}

namespace Sorts

theorem length_lt {occurrences : List Occurrence} (hsorts : typeCase.Sorts types occurrences)
    (harranges : typeCase.Arranges types occurrences) {record : Record}
    (hrecord : record ∈ typeCase.records) (hfields : record.fields ≠ []) :
    record.possibleTypes.length < types.length := by
  have hsublist : record.possibleTypes.Sublist types := by
    rw [← harranges.listed record hrecord]
    exact List.filter_sublist
  obtain ⟨type, htype, hout⟩ := hsorts.proper record hrecord hfields
  by_contra hnot
  exact hout (hsublist.eq_of_length_le (Nat.le_of_not_lt hnot) ▸ htype)

theorem sublist_nested {occurrences : List Occurrence} (hsorts : typeCase.Sorts types occurrences)
    {record : Record} (hrecord : record ∈ typeCase.records) {key : String} {own base : Field}
    {inner baseInner : SelectionSet} (hown : record.field? key = some own)
    (hbase : typeCase.defaultRecord.field? key = some base)
    (hinner : own.selectionSet = some inner) (hbaseInner : base.selectionSet = some baseInner) :
    baseInner.selections.Sublist inner.selections := by
  obtain ⟨type, htype⟩ :=
    List.exists_mem_of_ne_nil record.possibleTypes (hsorts.partition.nonempty record hrecord)
  have hfield := hsorts.field record hrecord type htype key
  rw [hown, Option.some_or] at hfield
  rw [hsorts.default_field] at hbase
  rw [Field.selections_of_mergeAll hfield.symm hinner,
    Field.selections_of_mergeAll hbase hbaseInner]
  refine List.Sublist.flatMap (sublist_fieldsWhere (fun others hall => ?_) key occurrences) _
  have hin := PossibleTypes.contained_eq_true.mp hall type
    (hsorts.partition.within record hrecord type htype)
  simpa using hin

variable {visited : List Visited}
  (hsorts : typeCase.Sorts types (visited.map (Visited.occurrence types)))
include hsorts

theorem applies_iff {record : Record} (hrecord : record ∈ typeCase.records) {type other : String}
    (htype : type ∈ record.possibleTypes) (hother : other ∈ record.possibleTypes)
    {member : Visited} (hmember : member ∈ visited) (happlies : member.AppliesTo type) :
    member.AppliesTo other := by
  have hwithin := hsorts.partition.within record hrecord
  rw [← Visited.mem_types_occurrence (hwithin other hother)]
  apply hsorts.uniform record hrecord type htype other hother _ (List.mem_map_of_mem hmember)
  exact (Visited.mem_types_occurrence (hwithin type htype) member).mpr happlies

theorem layers (harranges : typeCase.Arranges types (visited.map (Visited.occurrence types))) :
    typeCase.Layers types visited where
  length_lt _ := hsorts.length_lt harranges
  sublist _ hrecord _ _ _ _ _ := hsorts.sublist_nested hrecord
  present := by
    intro member hmember field hfield hpartial type htype happlies
    have hfolds := folds_of_sorts hsorts harranges
    obtain ⟨record, hrecord, hin⟩ := hsorts.partition.covered type htype
    have hkey : field.responseKey ∈ record.keys := by
      rw [hfolds.keys record hrecord type hin, mem_distinct]
      refine List.mem_map_of_mem (List.mem_filterMap.mpr ⟨member, List.mem_filter.mpr ⟨hmember, ?_⟩,
        hfield⟩)
      obtain ⟨other, hother, hnot⟩ := hpartial
      exact decide_eq_true ⟨happlies, fun hall => hnot (hall other hother)⟩
    obtain ⟨own, hown⟩ := Option.isSome_iff_exists.mp (Record.mem_keys.mp hkey)
    have hmerged := hfolds.field record hrecord type hin field.responseKey
    rw [hown, Option.some_or] at hmerged
    exact ⟨record, hrecord, hin, own, hown, hmerged.symm⟩
  apart _ hmember _ hrecord _ htype happlies _ hother :=
    hsorts.applies_iff hrecord htype hother hmember happlies

theorem addsOnlyTo {member : Visited} {field : Field} (hfield : field ∈ member.field?)
    (hpartial : member.IsPartial types) :
    typeCase.AddsOnlyTo (typeCase.add (member.occurrence types)) member field := by
  have hwithin := Visited.within_occurrence types member
  have hlength : (member.occurrence types).types.length ≠ types.length := by
    rw [Ne, PossibleTypes.length_eq_iff hwithin]
    intro hall
    obtain ⟨type, htype, hnot⟩ := hpartial
    exact hnot ((Visited.mem_types_occurrence htype member).mp (hall type htype))
  have hmem : ∀ {record : Record}, record ∈ typeCase.records → ∀ type ∈ record.possibleTypes,
      (type ∈ (member.occurrence types).types ↔ member.AppliesTo type) :=
    fun hrecord type htype =>
      Visited.mem_types_occurrence (hsorts.partition.within _ hrecord type htype) member
  obtain ⟨narrowed, hoccurrence⟩ :
      ∃ narrowed, member.occurrence types = .field field narrowed := by
    cases member with
    | spread name conditions => cases hfield
    | field selected conditions => exact ⟨_, by rw [← Option.some.inj hfield]; rfl⟩
  rw [hoccurrence] at hlength hmem ⊢
  have hlength : narrowed.length ≠ types.length := hlength
  rw [TypeCase.add, hsorts.possibleTypes_eq, if_neg hlength, TypeCase.addToSome]
  have hchange : ∀ record : Record, (record.add field
      (typeCase.defaultRecord.field? field.responseKey)).possibleTypes = record.possibleTypes :=
    fun _ => rfl
  refine ⟨rfl, fun part hpart => ?_⟩
  obtain ⟨record, hrecord, ⟨-, rfl⟩ | ⟨-, rfl⟩⟩ := (hsorts.mem_split hchange).mp hpart
  · refine ⟨record, hrecord, fun type htype => (Record.mem_inside.mp htype).1, Or.inl ⟨?_, rfl⟩⟩
    intro type htype
    obtain ⟨htype, hin⟩ := Record.mem_inside.mp htype
    exact (hmem hrecord type htype).mp hin
  · refine ⟨record, hrecord, fun type htype => (Record.mem_outside.mp htype).1, Or.inr ⟨?_, rfl⟩⟩
    intro type htype
    obtain ⟨htype, hout⟩ := Record.mem_outside.mp htype
    exact mt (hmem hrecord type htype).mpr hout

end Sorts

end TypeCase

namespace SelectionSet

variable (set : SelectionSet)

def typeCaseAfter (steps : Nat) : TypeCase :=
  TypeCase.ofOccurrences set.possibleTypes (set.occurrences.take steps)

theorem typeCaseAfter_eq (steps : Nat) :
    set.typeCaseAfter steps = TypeCase.ofOccurrences set.possibleTypes
      ((set.visited.take steps).map (Visited.occurrence set.possibleTypes)) := by
  rw [typeCaseAfter, occurrences_eq, List.map_take]

theorem typeCaseAfter_succ {steps : Nat} {member : Visited}
    (hmember : set.visited[steps]? = some member) :
    set.typeCaseAfter (steps + 1) =
      (set.typeCaseAfter steps).add (member.occurrence set.possibleTypes) := by
  rw [typeCaseAfter_eq, typeCaseAfter_eq, List.take_add_one, hmember, List.map_append,
    TypeCase.ofOccurrences, List.foldl_append]
  rfl

theorem sorts_typeCaseAfter (steps : Nat) :
    (set.typeCaseAfter steps).Sorts set.possibleTypes
      ((set.visited.take steps).map (Visited.occurrence set.possibleTypes)) := by
  rw [typeCaseAfter_eq]
  exact TypeCase.sorts_ofOccurrences (Visited.within_map_occurrence _ _)

theorem arranges_typeCaseAfter (steps : Nat) :
    (set.typeCaseAfter steps).Arranges set.possibleTypes
      ((set.visited.take steps).map (Visited.occurrence set.possibleTypes)) := by
  rw [typeCaseAfter_eq]
  exact TypeCase.arranges_ofOccurrences (Visited.within_map_occurrence _ _)

end SelectionSet

end QueryShape.Typed

namespace QueryShape.Flat

open Typed (SelectionSet TypeCase Visited)

/-- After every step through a selection set, a record with fields lacks some possible type, what
replaces a default field has the selections inside of it, and fields for some of the types are in
the records of these types only; and each such field is added to these records only. So a record of
all types, which gets no inline fragments, has no fields, and if fragments are not merged in, no
fragment applies to any of its types that does not apply to all. -/
theorem covering_record_empty (set : SelectionSet) :
    (∀ steps, (set.typeCaseAfter steps).Layers set.possibleTypes (set.visited.take steps)) ∧
    (∀ steps member field, set.visited[steps]? = some member → field ∈ member.field? →
      member.IsPartial set.possibleTypes →
        (set.typeCaseAfter steps).AddsOnlyTo (set.typeCaseAfter (steps + 1)) member field) ∧
    ∀ options document typeCase, typeCaseOf options document set = .ok typeCase →
      ∀ record ∈ typeCase.records,
        PossibleTypes.contained set.possibleTypes record.possibleTypes = true →
          record.fields = [] ∧ (options.mergeSpreadFields = false →
            ∀ type ∈ set.possibleTypes, set.spreadNamesFor [type] = set.spreadNames) := by
  refine ⟨fun steps => ?_, fun steps member field hmember hfield hpartial => ?_, ?_⟩
  · exact (set.sorts_typeCaseAfter steps).layers (set.arranges_typeCaseAfter steps)
  · rw [set.typeCaseAfter_succ hmember]
    exact (set.sorts_typeCaseAfter steps).addsOnlyTo hfield hpartial
  · intro options document typeCase htypeCase record hrecord hcontained
    have hall := PossibleTypes.contained_eq_true.mp hcontained
    have hneeds : needsInlineFragments options set record = false := by
      rw [needsInlineFragments, if_pos hcontained]
    refine ⟨fields_eq_nil_of_not_needs htypeCase hrecord hneeds, fun hmerge type htype => ?_⟩
    rw [typeCaseOf, hmerge] at htypeCase
    rw [← Except.ok.inj htypeCase] at hrecord
    exact (SelectionSet.spreadNamesFor_record hrecord hall htype).symm

theorem covering_record_empty_petNames :
    (∃ member field, Typed.petNames.visited[0]? = some member ∧ field ∈ member.field? ∧
      member.IsPartial Typed.petNames.possibleTypes ∧
      (Typed.petNames.typeCaseAfter 0).AddsOnlyTo (Typed.petNames.typeCaseAfter 1) member field) ∧
    (Typed.petNames.typeCaseAfter 1).records.map (fun record =>
      (record.possibleTypes, record.keys)) = [(["Dog", "Cat"], ["name"]), (["Bird"], [])] ∧
    (Typed.petNames.typeCaseAfter 1).Layers Typed.petNames.possibleTypes
      (Typed.petNames.visited.take 1) := by
  obtain ⟨hlayers, hadds, -⟩ := covering_record_empty Typed.petNames
  have hpartial : (Typed.petNames.visited.head (by decide)).IsPartial
      Typed.petNames.possibleTypes :=
    ⟨"Bird", by decide, by decide⟩
  exact ⟨⟨_, _, rfl, rfl, hpartial, hadds 0 _ _ rfl rfl hpartial⟩, by decide, hlayers 1⟩

end QueryShape.Flat
