import Mathlib.Data.List.Nodup
import QueryShape.Proofs.Typed.Occurrences

/-!
# Distinct response keys

No record of a type case has two fields under one response key, so that a record is determined by
what is found in it under each key. Every field of a record is the merge of fields that the
selection set selects for one of its types.
-/

set_option autoImplicit false

namespace QueryShape.Typed

section

variable {field : Field} {base : Option Field}

theorem map_insertField (hbase : ∀ other ∈ base, other.responseKey = field.responseKey)
    (fields : List Field) :
    (insertField field base fields).map (·.responseKey) =
      if field.responseKey ∈ fields.map (·.responseKey) then fields.map (·.responseKey)
      else fields.map (·.responseKey) ++ [field.responseKey] := by
  induction fields with
  | nil =>
    cases base with
    | none => rfl
    | some other => simp [insertField, hbase other rfl]
  | cons first rest ih =>
    rw [insertField]
    by_cases hfirst : first.responseKey = field.responseKey
    · simp [hfirst]
    · have hne : ¬field.responseKey = first.responseKey := fun h => hfirst h.symm
      rw [if_neg hfirst, List.map_cons, List.map_cons, ih]
      by_cases hmem : field.responseKey ∈ rest.map (·.responseKey)
      · rw [if_pos hmem, if_pos (List.mem_cons_of_mem _ hmem)]
      · rw [if_neg hmem, if_neg (by simpa [hne] using hmem), List.cons_append]

end

namespace Record

variable {record : Record}

theorem keys_add {field : Field} {base : Option Field}
    (hbase : ∀ other ∈ base, other.responseKey = field.responseKey) :
    (record.add field base).keys =
      if field.responseKey ∈ record.keys then record.keys
      else record.keys ++ [field.responseKey] :=
  map_insertField hbase record.fields

theorem nodup_keys_add {field : Field} {base : Option Field}
    (hbase : ∀ other ∈ base, other.responseKey = field.responseKey) (h : record.keys.Nodup) :
    (record.add field base).keys.Nodup := by
  rw [keys_add hbase]
  split
  · exact h
  · rename_i hnew
    rw [List.nodup_append]
    refine ⟨h, List.nodup_singleton _, ?_⟩
    intro key hkey other hother
    rw [List.mem_singleton.mp hother]
    exact fun heq => hnew (heq ▸ hkey)

theorem field?_eq_of_mem (h : record.keys.Nodup) {field : Field} (hfield : field ∈ record.fields) :
    record.field? field.responseKey = some field := by
  obtain ⟨found, hfound⟩ : ∃ found, record.field? field.responseKey = some found := by
    rw [← Option.isSome_iff_exists, Record.field?, List.find?_isSome]
    exact ⟨field, hfield, beq_self_eq_true _⟩
  have hmem : found ∈ record.fields := List.mem_of_find?_eq_some hfound
  rw [hfound, List.inj_on_of_nodup_map h hmem hfield (responseKey_of_field? hfound)]

end Record

namespace TypeCase

structure HasDistinctKeys (typeCase : TypeCase) : Prop where
  defaultRecord : typeCase.defaultRecord.keys.Nodup
  record : ∀ record ∈ typeCase.records, record.keys.Nodup

theorem HasDistinctKeys.initial (types : List String) :
    (TypeCase.initial types).HasDistinctKeys where
  defaultRecord := List.nodup_nil
  record record hrecord := by
    cases types with
    | nil => cases hrecord
    | cons first rest =>
      rw [List.mem_singleton.mp hrecord]
      exact List.nodup_nil

theorem HasDistinctKeys.split {typeCase : TypeCase} (h : typeCase.HasDistinctKeys)
    (types : List String) {change : Record → Record}
    (hchange : ∀ record : Record, record.keys.Nodup → (change record).keys.Nodup) :
    (typeCase.split types change).HasDistinctKeys where
  defaultRecord := h.defaultRecord
  record part hpart := by
    obtain ⟨type, _, hfound⟩ := List.mem_filterMap.mp hpart
    obtain ⟨record, hrecord, hpart⟩ := List.mem_flatMap.mp (List.mem_of_find?_eq_some hfound)
    have hkeys := h.record record hrecord
    rw [splitRecord] at hpart
    split at hpart
    · rwa [List.mem_singleton.mp hpart]
    · split at hpart
      · rw [List.mem_singleton.mp hpart]
        exact hchange record hkeys
      · rcases List.mem_pair.mp hpart with rfl | rfl
        · exact hchange _ hkeys
        · exact hkeys

theorem HasDistinctKeys.add {typeCase : TypeCase} (h : typeCase.HasDistinctKeys)
    (occurrence : Occurrence) : (typeCase.add occurrence).HasDistinctKeys := by
  cases occurrence with
  | field field types =>
    rw [TypeCase.add]
    split
    · constructor
      · exact Record.nodup_keys_add (by simp) h.defaultRecord
      · intro changed hchanged
        obtain ⟨record, hrecord, rfl⟩ := List.mem_map.mp hchanged
        split
        · exact Record.nodup_keys_add (by simp) (h.record record hrecord)
        · exact h.record record hrecord
    · apply h.split
      intro record hkeys
      apply Record.nodup_keys_add _ hkeys
      exact fun other hother => Record.responseKey_of_field? hother
  | spread name types =>
    rw [TypeCase.add]
    split
    · exact h.split types fun _ hkeys => hkeys
    · exact h

theorem hasDistinctKeys_ofOccurrences (types : List String) (occurrences : List Occurrence) :
    (ofOccurrences types occurrences).HasDistinctKeys := by
  induction occurrences using List.reverseRecOn with
  | nil => exact HasDistinctKeys.initial types
  | append_singleton occurrences further ih =>
    rw [ofOccurrences, List.foldl_append]
    exact ih.add further

end TypeCase

theorem exists_map_eq {α β : Type} {f : α → β} {xs : List α} {ys : List β}
    (h : ∀ y ∈ ys, ∃ x ∈ xs, f x = y) : ∃ zs : List α, zs.map f = ys ∧ ∀ z ∈ zs, z ∈ xs := by
  induction ys with
  | nil => exact ⟨[], rfl, by simp⟩
  | cons y rest ih =>
    obtain ⟨⟨x, hx, rfl⟩, hrest⟩ := List.forall_mem_cons.mp h
    obtain ⟨zs, rfl, hzs⟩ := ih hrest
    exact ⟨x :: zs, rfl, List.forall_mem_cons.mpr ⟨hx, hzs⟩⟩

theorem mem_fieldsFor_of_mem_commonFields {types : List String} {type key : String}
    {occurrences : List Occurrence} (htype : type ∈ types) {field : Field}
    (h : field ∈ commonFields types key occurrences) : field ∈ fieldsFor type key occurrences := by
  obtain ⟨applying, hmem, hall, hkey⟩ := mem_fieldsWhere.mp h
  have hin : type ∈ applying := PossibleTypes.contained_eq_true.mp hall type htype
  exact mem_fieldsWhere.mpr ⟨applying, hmem, by simpa using hin, hkey⟩

namespace SelectionSet

variable {set : SelectionSet}

theorem hasDistinctKeys_typeCase (set : SelectionSet) : set.typeCase.HasDistinctKeys :=
  TypeCase.hasDistinctKeys_ofOccurrences set.possibleTypes set.occurrences

theorem exists_possibleType_of_mem_occurrences {occurrence : Occurrence}
    (h : occurrence ∈ set.occurrences) : ∃ type ∈ set.possibleTypes, type ∈ occurrence.types := by
  obtain ⟨hmem, hsome⟩ := List.mem_filter.mp h
  have hne : occurrence.types ≠ [] := by simpa using hsome
  obtain ⟨type, htype⟩ := List.exists_mem_of_ne_nil _ hne
  have hwithin := Selection.within_allOccurrences (PossibleTypes.intersect_self _) []
    set.selections occurrence hmem
  rw [← hwithin] at htype
  exact ⟨type, PossibleTypes.mem_intersect.mp htype⟩

/-- The field of a record under a key is the merge of the fields under the key that are selected for
a type of the record. -/
theorem mergeAll_of_mem_record {record : Record} (hrecord : record ∈ set.typeCase.records)
    {field : Field} (hfield : field ∈ record.fields) {type : String}
    (htype : type ∈ record.possibleTypes) :
    Field.mergeAll (set.fieldsUnder type field.responseKey) = some field := by
  rw [← set.field_typeCase hrecord htype,
    Record.field?_eq_of_mem (set.hasDistinctKeys_typeCase.record record hrecord) hfield,
    Option.some_or]

theorem exists_possibleType_of_mem_default {field : Field}
    (hfield : field ∈ set.typeCase.defaultRecord.fields) : ∃ type, type ∈ set.possibleTypes := by
  have hfound := Record.field?_eq_of_mem set.hasDistinctKeys_typeCase.defaultRecord hfield
  rw [set.sorts_typeCase.default_field] at hfound
  have hne : commonFields set.possibleTypes field.responseKey set.occurrences ≠ [] := by
    intro hnil
    rw [Field.mergeAll_eq_none.mpr hnil] at hfound
    cases hfound
  obtain ⟨first, hfirst⟩ := List.exists_mem_of_ne_nil _ hne
  obtain ⟨_, hoccurrence, _⟩ := mem_fieldsWhere.mp hfirst
  obtain ⟨type, htype, _⟩ := exists_possibleType_of_mem_occurrences hoccurrence
  exact ⟨type, htype⟩

theorem exists_mergeAll_of_mem_default {field : Field}
    (hfield : field ∈ set.typeCase.defaultRecord.fields) {type : String}
    (htype : type ∈ set.possibleTypes) :
    ∃ fields, Field.mergeAll fields = some field ∧
      ∀ member ∈ fields, member ∈ set.fieldsUnder type field.responseKey := by
  have hfound := Record.field?_eq_of_mem set.hasDistinctKeys_typeCase.defaultRecord hfield
  rw [set.sorts_typeCase.default_field] at hfound
  refine ⟨_, hfound, fun member hmember => ?_⟩
  have hall := mem_fieldsFor_of_mem_commonFields htype hmember
  rwa [fieldsFor_occurrences, Selection.fieldsFor_allOccurrences, if_pos htype] at hall

theorem exists_selected_of_held {field : Field} {type : String}
    (htype : type ∈ set.possibleTypes)
    (h : field ∈ set.typeCase.defaultRecord.fields ∨
      ∃ record ∈ set.typeCase.records, type ∈ record.possibleTypes ∧ field ∈ record.fields) :
    ∃ members : List Selected, Field.mergeAll (members.map Selected.conditional) = some field ∧
      ∀ member ∈ members, member ∈ set.selectedFor type ∧
        member.field.responseKey = field.responseKey := by
  obtain ⟨fields, hmerge, hfields⟩ : ∃ fields, Field.mergeAll fields = some field ∧
      ∀ member ∈ fields, member ∈ set.fieldsUnder type field.responseKey := by
    rcases h with hdefault | ⟨record, hrecord, hin, hfield⟩
    · exact exists_mergeAll_of_mem_default hdefault htype
    · exact ⟨_, mergeAll_of_mem_record hrecord hfield hin, fun _ hmember => hmember⟩
  have hselected : ∀ member ∈ fields, ∃ selected ∈
      (set.selectedFor type).filter (·.field.responseKey = field.responseKey),
        selected.conditional = member := by
    intro member hmember
    have hunder := hfields member hmember
    rw [SelectionSet.fieldsUnder, Selected.filter_conditional] at hunder
    exact List.mem_map.mp hunder
  obtain ⟨members, rfl, hmembers⟩ := exists_map_eq hselected
  refine ⟨members, hmerge, fun member hmember => ?_⟩
  obtain ⟨hmem, hkey⟩ := List.mem_filter.mp (hmembers member hmember)
  exact ⟨hmem, of_decide_eq_true hkey⟩

end SelectionSet

end QueryShape.Typed
