import QueryShape.Proofs.Typed.Merging
import QueryShape.Proofs.Typed.Partition

/-!
# What a type case holds for a type

A type case is built by adding occurrences one after another. Under each key it holds for each type
the left fold of merging over the occurrences that apply to the type: in the record of the type, or
in the default record if that record has nothing under the key. The default record holds the fold
over the occurrences that apply to all types. A record that has fields is not the record of all
types, and all types of a record agree on what applies to them.
-/

set_option autoImplicit false

namespace QueryShape.Typed

def fieldsWhere (applies : List String → Bool) (key : String) (occurrences : List Occurrence) :
    List Field :=
  occurrences.filterMap fun
    | .field field types => if applies types ∧ field.responseKey = key then some field else none
    | .spread _ _ => none

def fieldsFor (type key : String) : List Occurrence → List Field :=
  fieldsWhere (·.contains type) key

def commonFields (types : List String) (key : String) : List Occurrence → List Field :=
  fieldsWhere (PossibleTypes.contained types) key

theorem mem_fieldsWhere {applies : List String → Bool} {key : String}
    {occurrences : List Occurrence} {field : Field} :
    field ∈ fieldsWhere applies key occurrences ↔
      ∃ types, .field field types ∈ occurrences ∧ applies types = true ∧
        field.responseKey = key := by
  rw [fieldsWhere, List.mem_filterMap]
  constructor
  · rintro ⟨occurrence, hmem, hfield⟩
    cases occurrence with
    | spread name types => cases hfield
    | field other types =>
      obtain ⟨⟨happlies, hkey⟩, hsame⟩ := Option.ite_none_right_eq_some.mp hfield
      obtain rfl := Option.some.inj hsame
      exact ⟨types, hmem, happlies, hkey⟩
  · rintro ⟨types, hmem, happlies, hkey⟩
    exact ⟨_, hmem, if_pos ⟨happlies, hkey⟩⟩

section

variable (applies : List String → Bool) (key : String) (occurrences : List Occurrence)

theorem fieldsWhere_append_field (field : Field) (types : List String) :
    fieldsWhere applies key (occurrences ++ [.field field types]) =
      fieldsWhere applies key occurrences ++
        if applies types ∧ field.responseKey = key then [field] else [] := by
  by_cases h : applies types ∧ field.responseKey = key <;> simp [fieldsWhere, h]

theorem fieldsWhere_append_spread (name : String) (types : List String) :
    fieldsWhere applies key (occurrences ++ [.spread name types]) =
      fieldsWhere applies key occurrences := by
  simp [fieldsWhere]

end

namespace Record

theorem responseKey_of_field? {record : Record} {key : String} {field : Field}
    (h : record.field? key = some field) : field.responseKey = key := by
  simpa using List.find?_some h

theorem field?_add {record : Record} {field : Field} {base : Option Field}
    (hbase : ∀ other ∈ base, other.responseKey = field.responseKey) (key : String) :
    (record.add field base).field? key =
      if field.responseKey = key then
        some (Field.mergeOnto ((record.field? key).or base) field)
      else record.field? key :=
  find?_insertField hbase record.fields key

@[simp] theorem field?_inside (types : List String) (record : Record) (key : String) :
    (record.inside types).field? key = record.field? key :=
  rfl

end Record

namespace TypeCase

/-- A type case over the given types holds what the occurrences select. -/
structure Sorts (typeCase : TypeCase) (types : List String) (occurrences : List Occurrence) :
    Prop where
  possibleTypes_eq : typeCase.possibleTypes = types
  partition : Partition types typeCase.records
  default_field : ∀ key, typeCase.defaultRecord.field? key =
    Field.mergeAll (commonFields types key occurrences)
  field : ∀ record ∈ typeCase.records, ∀ type ∈ record.possibleTypes, ∀ key,
    (record.field? key).or (typeCase.defaultRecord.field? key) =
      Field.mergeAll (fieldsFor type key occurrences)
  proper : ∀ record ∈ typeCase.records, record.fields ≠ [] →
    ∃ type ∈ types, type ∉ record.possibleTypes
  uniform : ∀ record ∈ typeCase.records, ∀ type ∈ record.possibleTypes,
    ∀ other ∈ record.possibleTypes, ∀ occurrence ∈ occurrences,
      type ∈ occurrence.types → other ∈ occurrence.types

namespace Sorts

variable {typeCase : TypeCase} {types : List String} {occurrences : List Occurrence}

theorem initial (types : List String) : Sorts (TypeCase.initial types) types [] where
  possibleTypes_eq := rfl
  partition := Partition.initial types
  default_field _ := rfl
  field record hrecord _ _ _ := by
    cases types with
    | nil => cases hrecord
    | cons first rest =>
      rw [List.mem_singleton.mp hrecord]
      rfl
  proper record hrecord hfields := by
    cases types with
    | nil => cases hrecord
    | cons first rest =>
      rw [List.mem_singleton.mp hrecord] at hfields
      exact absurd rfl hfields
  uniform _ _ _ _ _ _ _ h := by
    cases h

theorem uniform_append {records : List Record} {further : Occurrence}
    (h : ∀ record ∈ records, ∀ type ∈ record.possibleTypes, ∀ other ∈ record.possibleTypes,
      ∀ occurrence ∈ occurrences, type ∈ occurrence.types → other ∈ occurrence.types)
    (hfurther : ∀ record ∈ records, ∀ type ∈ record.possibleTypes,
      ∀ other ∈ record.possibleTypes, type ∈ further.types → other ∈ further.types) :
    ∀ record ∈ records, ∀ type ∈ record.possibleTypes, ∀ other ∈ record.possibleTypes,
      ∀ occurrence ∈ occurrences ++ [further],
        type ∈ occurrence.types → other ∈ occurrence.types := by
  intro record hrecord type htype other hother occurrence hmem
  rcases List.mem_append.mp hmem with hmem | hmem
  · exact h record hrecord type htype other hother occurrence hmem
  · rw [List.mem_singleton.mp hmem]
    exact hfurther record hrecord type htype other hother

theorem addToAll (h : Sorts typeCase types occurrences) (field : Field) {all : List String}
    (hall : ∀ type ∈ types, type ∈ all) :
    Sorts (typeCase.addToAll field) types (occurrences ++ [.field field all]) where
  possibleTypes_eq := h.possibleTypes_eq
  partition := h.partition.map fun record => by
    split <;> rfl
  default_field key := by
    have hcontained : PossibleTypes.contained types all = true := by simpa using hall
    rw [commonFields, fieldsWhere_append_field, hcontained]
    refine (Record.field?_add (by simp) key).trans ?_
    by_cases hkey : field.responseKey = key
    · simp [hkey, h.default_field, commonFields]
    · simp [hkey, h.default_field, commonFields]
  field := by
    intro changed hchanged type htype key
    obtain ⟨record, hrecord, rfl⟩ := List.mem_map.mp hchanged
    have htype : type ∈ record.possibleTypes := by
      split at htype <;> exact htype
    have hin : all.contains type = true := by
      simpa using hall type (h.partition.within record hrecord type htype)
    have hfield := h.field record hrecord type htype key
    rw [fieldsFor, fieldsWhere_append_field, hin]
    have hdefault : (typeCase.addToAll field).defaultRecord.field? key =
        if field.responseKey = key then
          some (Field.mergeOnto ((typeCase.defaultRecord.field? key).or none) field)
        else typeCase.defaultRecord.field? key :=
      Record.field?_add (by simp) key
    by_cases hkey : field.responseKey = key
    · subst hkey
      -- A record without a field under the key is left as it is, and falls back on the default one.
      cases hown : record.field? field.responseKey with
      | none =>
        rw [hown, Option.none_or] at hfield
        simp [hown, hdefault, hfield, fieldsFor]
      | some own =>
        rw [hown, Option.some_or] at hfield
        simp only [Option.isSome_some, if_true]
        rw [Record.field?_add (by simp), if_pos rfl, hown, Option.some_or, hfield]
        simp [fieldsFor]
    · have hsame : (if (record.field? field.responseKey).isSome then record.add field none
          else record).field? key = record.field? key := by
        split
        · simp [Record.field?_add, hkey]
        · rfl
      simp [hsame, hdefault, hkey, hfield, fieldsFor]
  proper := by
    intro changed hchanged hfields
    obtain ⟨record, hrecord, rfl⟩ := List.mem_map.mp hchanged
    cases hown : record.field? field.responseKey with
    | none =>
      simp only [hown, Option.isSome_none, Bool.false_eq_true, if_false] at hfields ⊢
      exact h.proper record hrecord hfields
    | some own =>
      simp only [Option.isSome_some, if_true]
      exact h.proper record hrecord (List.ne_nil_of_mem (List.mem_of_find?_eq_some hown))
  uniform := by
    have hwithin : ∀ changed ∈ (typeCase.addToAll field).records, ∃ record ∈ typeCase.records,
        changed.possibleTypes = record.possibleTypes := by
      intro changed hchanged
      obtain ⟨record, hrecord, rfl⟩ := List.mem_map.mp hchanged
      exact ⟨record, hrecord, by split <;> rfl⟩
    apply uniform_append
    · intro changed hchanged
      obtain ⟨record, hrecord, heq⟩ := hwithin changed hchanged
      rw [heq]
      exact h.uniform record hrecord
    · intro changed hchanged _ _ other hother _
      obtain ⟨record, hrecord, heq⟩ := hwithin changed hchanged
      exact hall other (h.partition.within record hrecord other (heq ▸ hother))

theorem mem_split (h : Sorts typeCase types occurrences) {selected : List String}
    {change : Record → Record}
    (hchange : ∀ record, (change record).possibleTypes = record.possibleTypes) {part : Record} :
    part ∈ (typeCase.split selected change).records ↔ ∃ record ∈ typeCase.records,
      ((record.inside selected).possibleTypes ≠ [] ∧ part = change (record.inside selected)) ∨
      ((record.outside selected).possibleTypes ≠ [] ∧ part = record.outside selected) := by
  have hsplit := h.partition.split selected hchange
  rw [TypeCase.split, h.possibleTypes_eq, hsplit.mem_ordered, List.mem_flatMap]
  apply exists_congr
  intro record
  apply and_congr_right
  intro hrecord
  exact mem_splitRecord (h.partition.nonempty record hrecord)

/-- Splitting by some of the types, where the parts inside are changed to hold what a further
occurrence for these types selects. -/
theorem split (h : Sorts typeCase types occurrences) (further : Occurrence)
    (change : Record → Record)
    (hchange : ∀ record, (change record).possibleTypes = record.possibleTypes)
    (hsome : ∃ type ∈ types, type ∉ further.types)
    (hcommon : ∀ key, commonFields types key (occurrences ++ [further]) =
      commonFields types key occurrences)
    (hinside : ∀ record ∈ typeCase.records, ∀ type ∈ record.possibleTypes, type ∈ further.types →
      ∀ key, ((change (record.inside further.types)).field? key).or
        (typeCase.defaultRecord.field? key) =
          Field.mergeAll (fieldsFor type key (occurrences ++ [further])))
    (houtside : ∀ type, type ∉ further.types → ∀ key,
      fieldsFor type key (occurrences ++ [further]) = fieldsFor type key occurrences) :
    Sorts (typeCase.split further.types change) types (occurrences ++ [further]) where
  possibleTypes_eq := h.possibleTypes_eq
  partition := by
    rw [TypeCase.split, h.possibleTypes_eq]
    exact (h.partition.split further.types hchange).ordered
  default_field key := by
    rw [hcommon]
    exact h.default_field key
  field := by
    intro part hpart type htype key
    obtain ⟨record, hrecord, ⟨_, rfl⟩ | ⟨_, rfl⟩⟩ := (h.mem_split hchange).mp hpart
    · rw [hchange] at htype
      obtain ⟨htype, hin⟩ := Record.mem_inside.mp htype
      exact hinside record hrecord type htype hin key
    · obtain ⟨htype, hout⟩ := Record.mem_outside.mp htype
      rw [houtside type hout]
      exact h.field record hrecord type htype key
  proper := by
    intro part hpart hfields
    obtain ⟨record, hrecord, ⟨_, rfl⟩ | ⟨_, rfl⟩⟩ := (h.mem_split hchange).mp hpart
    · obtain ⟨type, htype, hout⟩ := hsome
      refine ⟨type, htype, ?_⟩
      rw [hchange]
      exact fun hin => hout (Record.mem_inside.mp hin).2
    · obtain ⟨type, htype, hout⟩ := h.proper record hrecord hfields
      exact ⟨type, htype, fun hin => hout (Record.mem_outside.mp hin).1⟩
  uniform := by
    have hrecord : ∀ part ∈ (typeCase.split further.types change).records,
        ∃ record ∈ typeCase.records,
          (∀ type ∈ part.possibleTypes, type ∈ record.possibleTypes ∧ type ∈ further.types) ∨
          (∀ type ∈ part.possibleTypes, type ∈ record.possibleTypes ∧ type ∉ further.types) := by
      intro part hpart
      obtain ⟨record, hrecord, ⟨_, rfl⟩ | ⟨_, rfl⟩⟩ := (h.mem_split hchange).mp hpart
      · rw [hchange]
        exact ⟨record, hrecord, Or.inl fun type htype => Record.mem_inside.mp htype⟩
      · exact ⟨record, hrecord, Or.inr fun type htype => Record.mem_outside.mp htype⟩
    apply uniform_append
    · intro part hpart type htype other hother
      obtain ⟨record, hrecord, hin | hout⟩ := hrecord part hpart
      · exact h.uniform record hrecord type (hin type htype).1 other (hin other hother).1
      · exact h.uniform record hrecord type (hout type htype).1 other (hout other hother).1
    · intro part hpart type htype other hother hfurther
      obtain ⟨record, hrecord, hin | hout⟩ := hrecord part hpart
      · exact (hin other hother).2
      · exact absurd hfurther (hout type htype).2

theorem addToSome (h : Sorts typeCase types occurrences) (field : Field) {narrowed : List String}
    (hsome : ∃ type ∈ types, type ∉ narrowed) :
    Sorts (typeCase.addToSome field narrowed) types (occurrences ++ [.field field narrowed]) := by
  have hbase : ∀ other ∈ typeCase.defaultRecord.field? field.responseKey,
      other.responseKey = field.responseKey :=
    fun other hother => Record.responseKey_of_field? hother
  have hcontained : PossibleTypes.contained types narrowed = false := by
    obtain ⟨type, htype, hout⟩ := hsome
    rw [Bool.eq_false_iff]
    intro hall
    exact hout (PossibleTypes.contained_eq_true.mp hall type htype)
  apply h.split (.field field narrowed)
    (fun record => record.add field (typeCase.defaultRecord.field? field.responseKey))
    (fun _ => rfl) hsome
  · intro key
    simp [commonFields, fieldsWhere_append_field, hcontained]
  · intro record hrecord type htype hin key
    have hin : narrowed.contains type = true := by simpa [Occurrence.types] using hin
    have hfield := h.field record hrecord type htype key
    rw [fieldsFor, fieldsWhere_append_field, hin, Record.field?_add hbase, Record.field?_inside]
    by_cases hkey : field.responseKey = key
    · subst hkey
      simp [hfield, fieldsFor]
    · simp [hkey, hfield, fieldsFor]
  · intro type hout key
    have hout : type ∉ narrowed := hout
    simp [fieldsFor, fieldsWhere_append_field, hout]

theorem addSpread (h : Sorts typeCase types occurrences) (name : String) {narrowed : List String}
    (hsome : ∃ type ∈ types, type ∉ narrowed) :
    Sorts (typeCase.split narrowed id) types (occurrences ++ [.spread name narrowed]) := by
  apply h.split (.spread name narrowed) id (fun _ => rfl) hsome
  · intro key
    exact fieldsWhere_append_spread _ key occurrences name narrowed
  · intro record hrecord type htype _ key
    rw [fieldsFor, fieldsWhere_append_spread]
    exact h.field record hrecord type htype key
  · intro type _ key
    exact fieldsWhere_append_spread _ key occurrences name narrowed

theorem add (h : Sorts typeCase types occurrences) {further : Occurrence}
    (hwithin : PossibleTypes.intersect types further.types = further.types) :
    Sorts (typeCase.add further) types (occurrences ++ [further]) := by
  have hlength := PossibleTypes.length_eq_iff hwithin
  have hle : further.types.length ≤ types.length := by
    rw [← hwithin]
    exact List.length_filter_le _ _
  cases further with
  | field field narrowed =>
    simp only [TypeCase.add, h.possibleTypes_eq]
    split
    · rename_i heq
      exact h.addToAll field (hlength.mp heq)
    · rename_i hne
      exact h.addToSome field (by simpa [Occurrence.types] using mt hlength.mpr hne)
  | spread name narrowed =>
    simp only [TypeCase.add, h.possibleTypes_eq]
    split
    · rename_i hlt
      exact h.addSpread name
        (by simpa [Occurrence.types] using mt hlength.mpr (Nat.ne_of_lt hlt))
    · rename_i hge
      have hall := hlength.mp (Nat.le_antisymm hle (Nat.not_lt.mp hge))
      constructor
      · exact h.possibleTypes_eq
      · exact h.partition
      · intro key
        rw [commonFields, fieldsWhere_append_spread]
        exact h.default_field key
      · intro record hrecord type htype key
        rw [fieldsFor, fieldsWhere_append_spread]
        exact h.field record hrecord type htype key
      · exact h.proper
      · apply uniform_append h.uniform
        intro record hrecord _ _ other hother _
        exact hall other (h.partition.within record hrecord other hother)

end Sorts

theorem sorts_ofOccurrences {types : List String} {occurrences : List Occurrence}
    (h : ∀ occurrence ∈ occurrences,
      PossibleTypes.intersect types occurrence.types = occurrence.types) :
    Sorts (ofOccurrences types occurrences) types occurrences := by
  induction occurrences using List.reverseRecOn with
  | nil => exact Sorts.initial types
  | append_singleton occurrences further ih =>
    rw [ofOccurrences, List.foldl_append]
    exact (ih fun occurrence hmem => h occurrence (List.mem_append_left _ hmem)).add
      (h further (by simp))

end TypeCase

end QueryShape.Typed
