import QueryShape.Proofs.Typed.Keys

/-!
# The order in a type case

Every record has its keys in the order in which they first apply to its types but not to all types,
and the default record in the order in which they first apply to all. The records are in the order
of their first types, with the types of each in the order given, and two types are in one record
exactly if the same occurrences apply to both. So the arrangement of a type case does not depend on
how fields are merged.
-/

set_option autoImplicit false

namespace QueryShape.Typed

def keysWhere (applies : List String → Bool) (occurrences : List Occurrence) : List String :=
  occurrences.filterMap fun
    | .field field types => if applies types then some field.responseKey else none
    | .spread _ _ => none

def commonKeys (types : List String) : List Occurrence → List String :=
  keysWhere (PossibleTypes.contained types)

def ownKeys (types : List String) (type : String) : List Occurrence → List String :=
  keysWhere fun applying => applying.contains type && !PossibleTypes.contained types applying

def Alike (occurrences : List Occurrence) (type other : String) : Prop :=
  ∀ occurrence ∈ occurrences, type ∈ occurrence.types ↔ other ∈ occurrence.types

instance (occurrences : List Occurrence) (type other : String) :
    Decidable (Alike occurrences type other) :=
  inferInstanceAs (Decidable (∀ _ ∈ occurrences, _))

section

variable (applies : List String → Bool) (occurrences : List Occurrence)

theorem keysWhere_append_field (field : Field) (types : List String) :
    keysWhere applies (occurrences ++ [.field field types]) =
      keysWhere applies occurrences ++ if applies types then [field.responseKey] else [] := by
  by_cases h : applies types <;> simp [keysWhere, h]

theorem keysWhere_append_spread (name : String) (types : List String) :
    keysWhere applies (occurrences ++ [.spread name types]) = keysWhere applies occurrences := by
  simp [keysWhere]

end

theorem Record.mem_keys {record : Record} {key : String} :
    key ∈ record.keys ↔ (record.field? key).isSome := by
  simp [keys, field?]

/-- A record is determined by its first type, in whatever order the records are. -/
theorem Partition.find?_head {types : List String} {records others : List Record}
    (h : Partition types records) (hsame : ∀ record, record ∈ others ↔ record ∈ records)
    (type : String) :
    others.find? (·.possibleTypes.head? == some type) =
      records.find? (·.possibleTypes.head? == some type) := by
  have hin : ∀ {list : List Record} {record : Record},
      list.find? (·.possibleTypes.head? == some type) = some record →
        record ∈ list ∧ type ∈ record.possibleTypes := by
    intro list record hfound
    have hhead : record.possibleTypes.head? = some type := by simpa using List.find?_some hfound
    exact ⟨List.mem_of_find?_eq_some hfound, List.mem_of_mem_head? hhead⟩
  cases hfound : others.find? (·.possibleTypes.head? == some type) with
  | none =>
    symm
    rw [List.find?_eq_none] at hfound ⊢
    exact fun record hrecord => hfound record ((hsame record).mpr hrecord)
  | some record =>
    obtain ⟨hmem, htype⟩ := hin hfound
    cases hother : records.find? (·.possibleTypes.head? == some type) with
    | none =>
      have hnot := List.find?_eq_none.mp hother record ((hsame record).mp hmem)
      exact absurd (List.find?_some hfound) hnot
    | some other =>
      obtain ⟨hotherMem, hotherType⟩ := hin hother
      rw [h.eq_of_mem ((hsame record).mp hmem) hotherMem htype hotherType]

namespace TypeCase

theorem ordered_map (types : List String) (records : List Record) {change : Record → Record}
    (hchange : ∀ record, (change record).possibleTypes = record.possibleTypes) :
    ordered types (records.map change) = (ordered types records).map change := by
  have hhead : ∀ type, (fun record : Record => record.possibleTypes.head? == some type) ∘ change =
      fun record => record.possibleTypes.head? == some type := by
    intro type
    funext record
    rw [Function.comp_apply, hchange]
  rw [ordered, ordered, List.map_filterMap]
  apply List.filterMap_congr
  intro type _
  rw [List.find?_map, hhead]

theorem ordered_ordered {types : List String} {records : List Record}
    (h : Partition types records) :
    ordered types (ordered types records) = ordered types records := by
  have hfind := h.find?_head fun _ => h.mem_ordered
  rw [ordered]
  simp only [hfind]
  rfl

/-- How the records and their keys are ordered in a type case of the occurrences. -/
structure Arranges (typeCase : TypeCase) (types : List String) (occurrences : List Occurrence) :
    Prop where
  default_keys : typeCase.defaultRecord.keys = distinct (commonKeys types occurrences)
  keys : ∀ record ∈ typeCase.records, ∀ type ∈ record.possibleTypes,
    record.keys = distinct (ownKeys types type occurrences)
  listed : ∀ record ∈ typeCase.records,
    PossibleTypes.intersect types record.possibleTypes = record.possibleTypes
  ordered : TypeCase.ordered types typeCase.records = typeCase.records
  coarse : ∀ record ∈ typeCase.records, ∀ type ∈ record.possibleTypes, ∀ other ∈ types,
    Alike occurrences type other → other ∈ record.possibleTypes

namespace Arranges

variable {typeCase : TypeCase} {types : List String} {occurrences : List Occurrence}

theorem initial (types : List String) : Arranges (TypeCase.initial types) types [] := by
  cases types with
  | nil => exact ⟨rfl, by simp [TypeCase.initial], by simp [TypeCase.initial], rfl,
      by simp [TypeCase.initial]⟩
  | cons first rest =>
    have hrecord : ∀ record ∈ (TypeCase.initial (first :: rest)).records,
        record = ⟨first :: rest, []⟩ := fun record => List.mem_singleton.mp
    constructor
    · rfl
    · intro record hmem type _
      rw [hrecord record hmem]
      rfl
    · intro record hmem
      rw [hrecord record hmem]
      exact PossibleTypes.intersect_self _
    · have hothers : ∀ type ∈ (distinct rest).filter (· ≠ first),
          [(⟨first :: rest, []⟩ : Record)].find? (·.possibleTypes.head? == some type) = none := by
        intro type htype
        have hne : first ≠ type := Ne.symm (of_decide_eq_true (List.mem_filter.mp htype).2)
        simp [hne]
      rw [TypeCase.ordered, distinct]
      change List.filterMap (fun type => [(⟨first :: rest, []⟩ : Record)].find? _) _ = _
      rw [List.filterMap_cons_some (by simp; rfl), List.filterMap_eq_nil_iff.mpr hothers]
      rfl
    · intro record hmem type _ other hother _
      rwa [hrecord record hmem]

theorem alike_of_append {further : Occurrence} {type other : String}
    (h : Alike (occurrences ++ [further]) type other) :
    Alike occurrences type other ∧ (type ∈ further.types ↔ other ∈ further.types) :=
  ⟨fun occurrence hmem => h occurrence (List.mem_append_left _ hmem),
    h further (List.mem_append_right _ (List.mem_singleton.mpr rfl))⟩

theorem addToAll (h : Arranges typeCase types occurrences) (field : Field) {all : List String}
    (hall : ∀ type ∈ types, type ∈ all) :
    Arranges (typeCase.addToAll field) types (occurrences ++ [.field field all]) := by
  have hcontained : PossibleTypes.contained types all = true := by simpa using hall
  have hchange : ∀ record : Record, (if (record.field? field.responseKey).isSome then
      record.add field none else record).possibleTypes = record.possibleTypes := by
    intro record
    split <;> rfl
  constructor
  · rw [commonKeys, keysWhere_append_field, if_pos hcontained, distinct_append_singleton]
    refine (Record.keys_add (by simp)).trans ?_
    rw [h.default_keys]
    simp [commonKeys]
  · intro changed hchanged type htype
    obtain ⟨record, hrecord, rfl⟩ := List.mem_map.mp hchanged
    rw [hchange] at htype
    rw [ownKeys, keysWhere_append_field, hcontained]
    simp only [Bool.not_true, Bool.and_false, Bool.false_eq_true, if_false, List.append_nil]
    rw [← ownKeys, ← h.keys record hrecord type htype]
    split
    · rename_i hsome
      rw [Record.keys_add (by simp), if_pos (Record.mem_keys.mpr hsome)]
    · rfl
  · intro changed hchanged
    obtain ⟨record, hrecord, rfl⟩ := List.mem_map.mp hchanged
    rw [hchange]
    exact h.listed record hrecord
  · exact (ordered_map types typeCase.records hchange).trans
      (congrArg (List.map _) h.ordered)
  · intro changed hchanged type htype other hother halike
    obtain ⟨record, hrecord, rfl⟩ := List.mem_map.mp hchanged
    rw [hchange] at htype ⊢
    exact h.coarse record hrecord type htype other hother (alike_of_append halike).1

theorem split (h : Arranges typeCase types occurrences) (hsorts : Sorts typeCase types occurrences)
    (further : Occurrence) (change : Record → Record)
    (hchange : ∀ record, (change record).possibleTypes = record.possibleTypes)
    (hcommon : commonKeys types (occurrences ++ [further]) = commonKeys types occurrences)
    (hinside : ∀ record ∈ typeCase.records, ∀ type ∈ record.possibleTypes, type ∈ further.types →
      (change (record.inside further.types)).keys =
        distinct (ownKeys types type (occurrences ++ [further])))
    (houtside : ∀ type, type ∉ further.types →
      ownKeys types type (occurrences ++ [further]) = ownKeys types type occurrences) :
    Arranges (typeCase.split further.types change) types (occurrences ++ [further]) where
  default_keys := by
    rw [hcommon]
    exact h.default_keys
  keys := by
    intro part hpart type htype
    obtain ⟨record, hrecord, ⟨_, rfl⟩ | ⟨_, rfl⟩⟩ := (hsorts.mem_split hchange).mp hpart
    · rw [hchange] at htype
      obtain ⟨htype, hin⟩ := Record.mem_inside.mp htype
      exact hinside record hrecord type htype hin
    · obtain ⟨htype, hout⟩ := Record.mem_outside.mp htype
      rw [houtside type hout]
      exact h.keys record hrecord type htype
  listed := by
    intro part hpart
    obtain ⟨record, hrecord, ⟨_, rfl⟩ | ⟨_, rfl⟩⟩ := (hsorts.mem_split hchange).mp hpart
    · rw [hchange]
      exact PossibleTypes.intersect_filter _ (h.listed record hrecord)
    · exact PossibleTypes.intersect_filter _ (h.listed record hrecord)
  ordered := by
    rw [TypeCase.split, hsorts.possibleTypes_eq]
    exact ordered_ordered (hsorts.partition.split further.types hchange)
  coarse := by
    -- Types that agree on the further occurrence too are not separated by it.
    intro part hpart type htype other hother halike
    obtain ⟨halike, hfurther⟩ := alike_of_append halike
    obtain ⟨record, hrecord, ⟨_, rfl⟩ | ⟨_, rfl⟩⟩ := (hsorts.mem_split hchange).mp hpart
    · rw [hchange] at htype ⊢
      obtain ⟨htype, hin⟩ := Record.mem_inside.mp htype
      exact Record.mem_inside.mpr
        ⟨h.coarse record hrecord type htype other hother halike, hfurther.mp hin⟩
    · obtain ⟨htype, hout⟩ := Record.mem_outside.mp htype
      exact Record.mem_outside.mpr
        ⟨h.coarse record hrecord type htype other hother halike, mt hfurther.mpr hout⟩

theorem addToSome (h : Arranges typeCase types occurrences)
    (hsorts : Sorts typeCase types occurrences) (field : Field) {narrowed : List String}
    (hsome : ∃ type ∈ types, type ∉ narrowed) :
    Arranges (typeCase.addToSome field narrowed) types
      (occurrences ++ [.field field narrowed]) := by
  have hcontained : PossibleTypes.contained types narrowed = false := by
    obtain ⟨type, htype, hout⟩ := hsome
    rw [Bool.eq_false_iff]
    intro hall
    exact hout (PossibleTypes.contained_eq_true.mp hall type htype)
  have hbase : ∀ other ∈ typeCase.defaultRecord.field? field.responseKey,
      other.responseKey = field.responseKey :=
    fun other hother => Record.responseKey_of_field? hother
  apply h.split hsorts (.field field narrowed)
    (fun record => record.add field (typeCase.defaultRecord.field? field.responseKey))
    (fun _ => rfl)
  · simp [commonKeys, keysWhere_append_field, hcontained]
  · intro record hrecord type htype hin
    have hin : narrowed.contains type = true := by simpa [Occurrence.types] using hin
    rw [Record.keys_add hbase, ownKeys, keysWhere_append_field, hin, hcontained]
    simp only [Bool.not_false, Bool.and_self, if_true, distinct_append_singleton]
    have hkeys : (record.inside narrowed).keys = distinct (ownKeys types type occurrences) :=
      h.keys record hrecord type htype
    simp only [Occurrence.types, hkeys, mem_distinct]
    rfl
  · intro type hout
    have hout : narrowed.contains type = false := by simpa [Occurrence.types] using hout
    rw [ownKeys, keysWhere_append_field, hout]
    simp

theorem addSpread (h : Arranges typeCase types occurrences)
    (hsorts : Sorts typeCase types occurrences) (name : String) (narrowed : List String) :
    Arranges (typeCase.split narrowed id) types (occurrences ++ [.spread name narrowed]) := by
  apply h.split hsorts (.spread name narrowed) id (fun _ => rfl)
  · exact keysWhere_append_spread _ occurrences name narrowed
  · intro record hrecord type htype _
    rw [ownKeys, keysWhere_append_spread]
    exact h.keys record hrecord type htype
  · intro type _
    exact keysWhere_append_spread _ occurrences name narrowed

theorem add (h : Arranges typeCase types occurrences) (hsorts : Sorts typeCase types occurrences)
    {further : Occurrence} (hwithin : PossibleTypes.intersect types further.types = further.types) :
    Arranges (typeCase.add further) types (occurrences ++ [further]) := by
  have hlength := PossibleTypes.length_eq_iff hwithin
  cases further with
  | field field narrowed =>
    simp only [TypeCase.add, hsorts.possibleTypes_eq]
    split
    · rename_i heq
      exact h.addToAll field (hlength.mp heq)
    · rename_i hne
      exact h.addToSome hsorts field (by simpa [Occurrence.types] using mt hlength.mpr hne)
  | spread name narrowed =>
    simp only [TypeCase.add]
    split
    · exact h.addSpread hsorts name narrowed
    · constructor
      · rw [commonKeys, keysWhere_append_spread]
        exact h.default_keys
      · intro record hrecord type htype
        rw [ownKeys, keysWhere_append_spread]
        exact h.keys record hrecord type htype
      · exact h.listed
      · exact h.ordered
      · intro record hrecord type htype other hother halike
        exact h.coarse record hrecord type htype other hother (alike_of_append halike).1

end Arranges

theorem arranges_ofOccurrences {types : List String} {occurrences : List Occurrence}
    (h : ∀ occurrence ∈ occurrences,
      PossibleTypes.intersect types occurrence.types = occurrence.types) :
    Arranges (ofOccurrences types occurrences) types occurrences := by
  induction occurrences using List.reverseRecOn with
  | nil => exact Arranges.initial types
  | append_singleton occurrences further ih =>
    have hearlier : ∀ occurrence ∈ occurrences,
        PossibleTypes.intersect types occurrence.types = occurrence.types :=
      fun occurrence hmem => h occurrence (List.mem_append_left _ hmem)
    rw [ofOccurrences, List.foldl_append]
    exact (ih hearlier).add (sorts_ofOccurrences hearlier) (h further (by simp))

section

variable {typeCase : TypeCase} {types : List String} {occurrences : List Occurrence}
  (harranges : Arranges typeCase types occurrences) (hsorts : Sorts typeCase types occurrences)
include harranges hsorts

theorem Arranges.possibleTypes_eq {record : Record} (hrecord : record ∈ typeCase.records)
    {type : String} (htype : type ∈ record.possibleTypes) :
    record.possibleTypes = types.filter fun other => Alike occurrences type other := by
  rw [← harranges.listed record hrecord, PossibleTypes.intersect]
  apply List.filter_congr
  intro other hother
  rw [decide_eq_decide]
  constructor
  · intro hin occurrence hmem
    exact ⟨hsorts.uniform record hrecord type htype other hin occurrence hmem,
      hsorts.uniform record hrecord other hin type htype occurrence hmem⟩
  · exact harranges.coarse record hrecord type htype other hother

theorem Arranges.map_possibleTypes :
    typeCase.records.map (·.possibleTypes) = (distinct types).filterMap fun type =>
      [types.filter fun other => Alike occurrences type other].find? (·.head? == some type) := by
  rw [← harranges.ordered, TypeCase.ordered, List.map_filterMap]
  apply List.filterMap_congr
  intro type htype
  obtain ⟨record, hrecord, hin⟩ := hsorts.partition.covered type (mem_distinct.mp htype)
  rw [← harranges.possibleTypes_eq hsorts hrecord hin, List.find?_singleton]
  cases hfound : typeCase.records.find? (·.possibleTypes.head? == some type) with
  | none =>
    have hhead := List.find?_eq_none.mp hfound record hrecord
    simp [hhead]
  | some other =>
    have hhead : other.possibleTypes.head? = some type := by simpa using List.find?_some hfound
    obtain rfl := hsorts.partition.eq_of_mem (List.mem_of_find?_eq_some hfound) hrecord
      (List.mem_of_mem_head? hhead) hin
    simp [hhead]

end

end TypeCase

theorem SelectionSet.arranges_typeCase (set : SelectionSet) :
    set.typeCase.Arranges set.possibleTypes set.occurrences :=
  TypeCase.arranges_ofOccurrences set.within_occurrences

end QueryShape.Typed
