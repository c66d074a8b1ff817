import QueryShape.Proofs.Typed.Visited

/-!
# A type case folds what applies to each type

The records of a type case are shared by many types and are split while fields are added. All the
same each type has one record, and under each key the field in it, or else the default field, is the
left fold of merging over the fields that apply to the type. Default fields are the folds over what
applies to all types. Keys are in the order in which they first apply.
-/

set_option autoImplicit false

namespace QueryShape.Typed

namespace Field

def mergeAll? : List Field → Option Field
  | [] => none
  | first :: rest => rest.foldlM merge? first

theorem foldlM_merge? {key : String} {merged : Field} (hmerged : merged.responseKey = key)
    {fields : List Field} (h : ∀ field ∈ fields, field.responseKey = key) :
    fields.foldlM merge? merged =
      fields.foldl (fun merged field => some (mergeOnto merged field)) (some merged) := by
  induction fields generalizing merged with
  | nil => rfl
  | cons first rest ih =>
    obtain ⟨hfirst, hrest⟩ := List.forall_mem_cons.mp h
    have hmerge : merged.merge? first = some (merged.merge first) :=
      if_pos (hmerged.trans hfirst.symm)
    rw [List.foldlM_cons, hmerge]
    exact ih hmerged hrest

theorem mergeAll?_eq {key : String} {fields : List Field}
    (h : ∀ field ∈ fields, field.responseKey = key) : mergeAll? fields = mergeAll fields := by
  cases fields with
  | nil => rfl
  | cons first rest =>
    obtain ⟨hfirst, hrest⟩ := List.forall_mem_cons.mp h
    exact foldlM_merge? hfirst hrest

end Field

/-- What a type case holds where the given selections were visited over the given types. Every type
has one record. What it has there under a key, or else by default, is the fold of the fields that
apply to it; the default fields are the folds of those that apply to all types. The default keys are
in the order in which they first apply to all types, and the keys of a type's record in that in
which they first apply to the type but not to all. -/
structure TypeCase.Folds (typeCase : TypeCase) (types : List String) (visited : List Visited) :
    Prop where
  record : ∀ type ∈ types, ∃! record, record ∈ typeCase.records ∧ type ∈ record.possibleTypes
  field : ∀ record ∈ typeCase.records, ∀ type ∈ record.possibleTypes, ∀ key,
    (record.field? key).or (typeCase.defaultRecord.field? key) =
      Field.mergeAll? (Visited.fieldsUnder key (visited.filter (·.AppliesTo type)))
  isSome : ∀ record ∈ typeCase.records, ∀ type ∈ record.possibleTypes, ∀ key,
    ((record.field? key).or (typeCase.defaultRecord.field? key)).isSome ↔
      ∃ member ∈ visited, member.AppliesTo type ∧
        ∃ field ∈ member.field?, field.responseKey = key
  default_field : ∀ key, typeCase.defaultRecord.field? key =
    Field.mergeAll? (Visited.fieldsUnder key
      (visited.filter fun member => ∀ type ∈ types, member.AppliesTo type))
  default_keys : typeCase.defaultRecord.keys =
    distinct (Visited.keys (visited.filter fun member => ∀ type ∈ types, member.AppliesTo type))
  keys : ∀ record ∈ typeCase.records, ∀ type ∈ record.possibleTypes,
    record.keys = distinct (Visited.keys (visited.filter fun member =>
      member.AppliesTo type ∧ ¬∀ other ∈ types, member.AppliesTo other))

namespace Visited

theorem responseKey_of_mem_fieldsUnder {key : String} {visited : List Visited} :
    ∀ field ∈ fieldsUnder key visited, field.responseKey = key :=
  fun _ hfield => of_decide_eq_true (List.mem_filter.mp hfield).2

end Visited

theorem TypeCase.folds_of_sorts {typeCase : TypeCase} {types : List String} {visited : List Visited}
    (hsorts : typeCase.Sorts types (visited.map (Visited.occurrence types)))
    (harranges : typeCase.Arranges types (visited.map (Visited.occurrence types))) :
    typeCase.Folds types visited := by
  have hfield : ∀ record ∈ typeCase.records, ∀ type ∈ record.possibleTypes, ∀ key,
      (record.field? key).or (typeCase.defaultRecord.field? key) =
        Field.mergeAll (Visited.fieldsUnder key (visited.filter (·.AppliesTo type))) := by
    intro record hrecord type htype key
    rw [hsorts.field record hrecord type htype key, Visited.fieldsFor_map_occurrence types visited
      (hsorts.partition.within record hrecord type htype)]
  constructor
  · intro type htype
    obtain ⟨record, hrecord, hin⟩ := hsorts.partition.covered type htype
    refine ⟨record, ⟨hrecord, hin⟩, ?_⟩
    rintro other ⟨hother, hin'⟩
    exact hsorts.partition.eq_of_mem hother hrecord hin' hin
  · intro record hrecord type htype key
    rw [hfield record hrecord type htype key,
      Field.mergeAll?_eq Visited.responseKey_of_mem_fieldsUnder]
  · intro record hrecord type htype key
    rw [hfield record hrecord type htype key, ← Option.ne_none_iff_isSome, Ne,
      Field.mergeAll_eq_none, ← Ne, Visited.fieldsUnder_ne_nil]
    simp only [List.mem_filter, decide_eq_true_eq, and_assoc]
  · intro key
    rw [hsorts.default_field, Visited.commonFields_map_occurrence,
      Field.mergeAll?_eq Visited.responseKey_of_mem_fieldsUnder]
  · rw [harranges.default_keys, Visited.commonKeys_map_occurrence]
  · intro record hrecord type htype
    rw [harranges.keys record hrecord type htype, Visited.ownKeys_map_occurrence types visited
      (hsorts.partition.within record hrecord type htype)]

theorem TypeCase.folds_ofOccurrences (types : List String) (visited : List Visited) :
    (ofOccurrences types (visited.map (Visited.occurrence types))).Folds types visited :=
  have hwithin := Visited.within_map_occurrence types visited
  folds_of_sorts (sorts_ofOccurrences hwithin) (arranges_ofOccurrences hwithin)

/-- The type case of a selection set folds what is visited in the set. -/
theorem SelectionSet.folds_typeCase (set : SelectionSet) :
    set.typeCase.Folds set.possibleTypes set.visited := by
  rw [typeCase_eq]
  exact TypeCase.folds_ofOccurrences set.possibleTypes set.visited

/-- Over dogs, cats and birds: under a check of `c` the names of dogs and cats, which stand under
checks of `d` and again of `c` and have one of `d` themselves, their sounds, and the sounds of all;
and the names of birds without a check. -/
def checkedPets : SelectionSet where
  possibleTypes := ["Dog", "Cat", "Bird"]
  selections :=
    [.booleanCondition ⟨"c", false⟩ ["Dog", "Cat", "Bird"]
      [.typeCondition "Pet" ["Dog", "Cat"]
        [.booleanCondition ⟨"d", true⟩ ["Dog", "Cat"]
          [.booleanCondition ⟨"c", false⟩ ["Dog", "Cat"]
            [.leaf { petName with isConditional := true, conditions := [⟨"d", true⟩] }]],
         .leaf { petName with responseKey := "sound" }],
       .leaf { petName with responseKey := "sound" }],
     .typeCondition "Bird" ["Bird"] [.leaf petName]]

/-- The fields that apply to a type, each under the checks around it and its own conditions, are
merged in the record of the type and in the default record. -/
theorem folds_typeCase_checkedPets :
    checkedPets.typeCase.Folds checkedPets.possibleTypes checkedPets.visited ∧
      checkedPets.typeCase.records.map (fun record => (record.possibleTypes, record.fields.map
        fun field => (field.responseKey, field.head.isConditional, field.head.conditions))) =
        [(["Dog", "Cat"],
          [("name", true, [⟨"d", true⟩, ⟨"c", false⟩]), ("sound", true, [⟨"c", false⟩])]),
         (["Bird"], [("name", false, [])])] ∧
      checkedPets.typeCase.defaultRecord.fields.map (fun field =>
        (field.responseKey, field.head.isConditional, field.head.conditions)) =
        [("sound", true, [⟨"c", false⟩])] :=
  ⟨checkedPets.folds_typeCase, by decide, by decide⟩

end QueryShape.Typed
