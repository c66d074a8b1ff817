import QueryShape.Proofs.Matched
import QueryShape.Proofs.Typed.Arrangement
import QueryShape.Proofs.Typed.Inlining
import QueryShape.Typed.Spreads

/-!
# Selections that occur again

A set may have selections that occur among its earlier ones. They sort no field and no type
elsewhere, so that the type case has the same records with the same keys; only the nested
selections of its fields have some of them again.
-/

set_option autoImplicit false

namespace QueryShape.Typed

/-- The other set has the selections of the set, followed by some of them again. -/
structure SelectionSet.Repeats (set other : SelectionSet) : Prop where
  possibleTypes : other.possibleTypes = set.possibleTypes
  selections : ∃ extra, other.selections = set.selections ++ extra ∧
    ∀ selection ∈ extra, selection ∈ set.selections

structure Field.Repeats (field other : Field) : Prop where
  head : other.head = field.head
  selectionSet : Option.Rel SelectionSet.Repeats field.selectionSet other.selectionSet

structure Record.Repeats (record other : Record) : Prop where
  possibleTypes : other.possibleTypes = record.possibleTypes
  fields : List.Forall₂ Field.Repeats record.fields other.fields

structure TypeCase.Repeats (typeCase other : TypeCase) : Prop where
  defaultFields : List.Forall₂ Field.Repeats typeCase.defaultRecord.fields
    other.defaultRecord.fields
  records : List.Forall₂ Record.Repeats typeCase.records other.records

theorem flatMap_subset {α β : Type} (f : α → List β) {xs ys : List α} (h : ∀ x ∈ ys, x ∈ xs) :
    ∀ z ∈ ys.flatMap f, z ∈ xs.flatMap f := by
  intro z hz
  obtain ⟨x, hx, hz⟩ := List.mem_flatMap.mp hz
  exact List.mem_flatMap.mpr ⟨x, h x hx, hz⟩

namespace Field

variable {fields more : List Field} (hmore : ∀ field ∈ more, field ∈ fields)
include hmore

theorem allConditional_append : allConditional (fields ++ more) = allConditional fields := by
  rw [allConditional, List.all_append, allConditional]
  cases hall : fields.all (·.head.isConditional) with
  | false => rfl
  | true =>
    rw [List.all_eq_true] at hall
    simpa using fun field hfield => hall field (hmore field hfield)

theorem joinedConditions_append : joinedConditions (fields ++ more) = joinedConditions fields := by
  rw [joinedConditions, allConditional_append hmore, List.flatMap_append,
    distinct_append_of_subset (flatMap_subset _ hmore), joinedConditions]

theorem joinedHead?_append : joinedHead? (fields ++ more) = joinedHead? fields := by
  cases fields with
  | nil => rw [List.eq_nil_of_subset_nil hmore, List.append_nil]
  | cons first rest =>
    rw [List.cons_append, joinedHead?, joinedHead?, ← List.cons_append,
      allConditional_append hmore, joinedConditions_append hmore]

theorem repeats_joined? : Option.Rel SelectionSet.Repeats (joined? fields)
    (joined? (fields ++ more)) := by
  cases fields with
  | nil =>
    rw [List.eq_nil_of_subset_nil hmore]
    exact .none
  | cons first rest =>
    rw [List.cons_append, joined?, joined?, ← List.cons_append]
    cases first.selectionSet with
    | none => exact .none
    | some set =>
      exact .some ⟨rfl, more.flatMap nested, List.flatMap_append, flatMap_subset nested hmore⟩

theorem repeats_mergeAll (hregular : ∀ field ∈ fields, field.head.IsRegular) {field other : Field}
    (hfield : mergeAll fields = some field) (hother : mergeAll (fields ++ more) = some other) :
    field.Repeats other := by
  have hregularAll : ∀ field ∈ fields ++ more, field.head.IsRegular := by
    rw [List.forall_mem_append]
    exact ⟨hregular, fun field hfield => hregular field (hmore field hfield)⟩
  constructor
  · have hhead := head_mergeAll hregular
    have hotherHead := head_mergeAll hregularAll
    rw [hfield, Option.map_some] at hhead
    rw [hother, Option.map_some, joinedHead?_append hmore, ← hhead] at hotherHead
    exact Option.some.inj hotherHead
  · have hrel := repeats_joined? hmore
    rw [← selectionSet_mergeAll, ← selectionSet_mergeAll, hfield, hother] at hrel
    exact hrel

end Field

theorem Record.forall₂_repeats {record other : Record} (hkeys : record.keys = other.keys)
    (hnodup : record.keys.Nodup)
    (h : ∀ key field found, record.field? key = some field → other.field? key = some found →
      field.Repeats found) : List.Forall₂ Field.Repeats record.fields other.fields := by
  refine forall₂_of_map_eq hkeys ?_
  intro field hfield found hfound hkey
  apply h field.responseKey field found (Record.field?_eq_of_mem hnodup hfield)
  rw [hkey]
  exact Record.field?_eq_of_mem (hkeys ▸ hnodup) hfound

section

variable {occurrences more : List Occurrence}
  (hmore : ∀ occurrence ∈ more, occurrence ∈ occurrences)
include hmore

theorem distinct_keysWhere_append (applies : List String → Bool) :
    distinct (keysWhere applies (occurrences ++ more)) =
      distinct (keysWhere applies occurrences) := by
  rw [keysWhere, List.filterMap_append, distinct_append_of_subset (List.filterMap_subset _ hmore),
    keysWhere]

theorem alike_append {type other : String} :
    Alike (occurrences ++ more) type other ↔ Alike occurrences type other := by
  rw [Alike, List.forall_mem_append]
  exact and_iff_left_of_imp fun h occurrence hmem => h occurrence (hmore occurrence hmem)

theorem repeats_mergeAll_fieldsWhere
    (hregular : ∀ field types, .field field types ∈ occurrences → field.head.IsRegular)
    (applies : List String → Bool) {key : String} {field other : Field}
    (hfield : Field.mergeAll (fieldsWhere applies key occurrences) = some field)
    (hother : Field.mergeAll (fieldsWhere applies key (occurrences ++ more)) = some other) :
    field.Repeats other := by
  rw [fieldsWhere, List.filterMap_append] at hother
  apply Field.repeats_mergeAll (List.filterMap_subset _ hmore) _ hfield hother
  intro field hfield
  obtain ⟨types, hmem, _⟩ := mem_fieldsWhere.mp hfield
  exact hregular field types hmem

theorem TypeCase.repeats_ofOccurrences {types : List String}
    (hwithin : ∀ occurrence ∈ occurrences,
      PossibleTypes.intersect types occurrence.types = occurrence.types)
    (hregular : ∀ field types, .field field types ∈ occurrences → field.head.IsRegular) :
    (ofOccurrences types occurrences).Repeats (ofOccurrences types (occurrences ++ more)) := by
  have hwithinAll : ∀ occurrence ∈ occurrences ++ more,
      PossibleTypes.intersect types occurrence.types = occurrence.types := by
    rw [List.forall_mem_append]
    exact ⟨hwithin, fun occurrence hmem => hwithin occurrence (hmore occurrence hmem)⟩
  have hsorts := sorts_ofOccurrences hwithin
  have hsortsAll := sorts_ofOccurrences hwithinAll
  have harranges := arranges_ofOccurrences hwithin
  have harrangesAll := arranges_ofOccurrences hwithinAll
  have hdistinct := hasDistinctKeys_ofOccurrences types occurrences
  -- The same keys and the same types in order: fields and records correspond place by place.
  have hkeys (applies : List String → Bool) :=
    (distinct_keysWhere_append hmore applies).symm
  have htypes : (ofOccurrences types occurrences).records.map (·.possibleTypes) =
      (ofOccurrences types (occurrences ++ more)).records.map (·.possibleTypes) := by
    rw [harranges.map_possibleTypes hsorts, harrangesAll.map_possibleTypes hsortsAll]
    simp only [alike_append hmore]
  constructor
  · apply Record.forall₂_repeats _ hdistinct.defaultRecord
    · intro key field found hfield hfound
      rw [hsorts.default_field] at hfield
      rw [hsortsAll.default_field] at hfound
      exact repeats_mergeAll_fieldsWhere hmore hregular _ hfield hfound
    · rw [harranges.default_keys, harrangesAll.default_keys]
      exact hkeys _
  · refine forall₂_of_map_eq htypes ?_
    intro record hrecord other hother htypes
    obtain ⟨type, htype⟩ := List.exists_mem_of_ne_nil _ (hsorts.partition.nonempty record hrecord)
    have htypeOther : type ∈ other.possibleTypes := htypes ▸ htype
    refine ⟨htypes.symm, Record.forall₂_repeats ?_ (hdistinct.record record hrecord) ?_⟩
    · rw [harranges.keys record hrecord type htype, harrangesAll.keys other hother type htypeOther]
      exact hkeys _
    · intro key field found hfield hfound
      have hmerge := hsorts.field record hrecord type htype key
      have hmergeAll := hsortsAll.field other hother type htypeOther key
      rw [hfield, Option.some_or] at hmerge
      rw [hfound, Option.some_or] at hmergeAll
      exact repeats_mergeAll_fieldsWhere hmore hregular _ hmerge.symm hmergeAll.symm

end

namespace Selection

theorem allSpreadsFor_eq_flatMap (types : List String) (selections : List Selection) :
    allSpreadsFor types selections = selections.flatMap (spreadsFor types) := by
  induction selections with
  | nil => rfl
  | cons selection rest ih => rw [allSpreadsFor, ih, List.flatMap_cons]

theorem allInlined_eq_mapM (expand : List String → String → Except FragmentError Selection)
    (types : List String) (selections : List Selection) :
    allInlined expand types selections = selections.mapM (inlined expand types) := by
  induction selections with
  | nil => rfl
  | cons selection rest ih => rw [allInlined, ih, List.mapM_cons]

end Selection

namespace SelectionSet.Repeats

variable {set other : SelectionSet} (h : set.Repeats other)
include h

theorem spreadNamesFor_eq (types : List String) :
    other.spreadNamesFor types = set.spreadNamesFor types := by
  obtain ⟨extra, hextra, hsubset⟩ := h.selections
  rw [spreadNamesFor, spreadsFor, hextra, Selection.allSpreadsFor_eq_flatMap, List.flatMap_append,
    distinct_append_of_subset (flatMap_subset _ hsubset), ← Selection.allSpreadsFor_eq_flatMap,
    ← spreadsFor, ← spreadNamesFor]

theorem exists_occurrences :
    ∃ more, other.occurrences = set.occurrences ++ more ∧
      ∀ occurrence ∈ more, occurrence ∈ set.occurrences := by
  obtain ⟨extra, hextra, hsubset⟩ := h.selections
  refine ⟨(Selection.allOccurrences set.possibleTypes [] extra).filter (!·.types.isEmpty), ?_, ?_⟩
  · rw [occurrences, occurrences, h.possibleTypes, hextra, Selection.allOccurrences_eq_flatMap,
      List.flatMap_append, List.filter_append, ← Selection.allOccurrences_eq_flatMap,
      ← Selection.allOccurrences_eq_flatMap]
  · intro occurrence hoccurrence
    obtain ⟨hmem, hsome⟩ := List.mem_filter.mp hoccurrence
    rw [Selection.allOccurrences_eq_flatMap] at hmem
    refine List.mem_filter.mpr ⟨?_, hsome⟩
    rw [Selection.allOccurrences_eq_flatMap]
    exact flatMap_subset _ hsubset occurrence hmem

theorem typeCase
    (hregular : ∀ field types, .field field types ∈ set.occurrences → field.head.IsRegular) :
    set.typeCase.Repeats other.typeCase := by
  obtain ⟨more, hoccurrences, hmore⟩ := h.exists_occurrences
  rw [SelectionSet.typeCase, SelectionSet.typeCase, h.possibleTypes, hoccurrences]
  exact TypeCase.repeats_ofOccurrences hmore set.within_occurrences hregular

/-- What is inlined for selections that occur again has occurred before as well. -/
theorem exists_inlined {document : Document} {merged : SelectionSet}
    (hmerged : document.inlined set = .ok merged) :
    ∃ mergedOther, document.inlined other = .ok mergedOther ∧ merged.Repeats mergedOther := by
  obtain ⟨extra, hextra, hsubset⟩ := h.selections
  simp only [Document.inlined, Outcome.bind_eq_ok, Outcome.pure_eq_ok,
    Selection.allInlined_eq_mapM] at hmerged ⊢
  obtain ⟨selections, hselections, rfl⟩ := hmerged
  have hfound : ∀ selection ∈ extra, ∃ result,
      Selection.inlined (document.expansion document.fragments.length) set.possibleTypes
        selection = .ok result ∧ result ∈ selections := by
    intro selection hselection
    obtain ⟨result, hmem, hresult⟩ :=
      Outcome.exists_mem_of_mapM hselections (hsubset selection hselection)
    exact ⟨result, hresult, hmem⟩
  obtain ⟨others, hothers⟩ := Outcome.exists_mapM_eq_ok fun selection hselection =>
    (hfound selection hselection).imp fun _ => And.left
  refine ⟨_, ⟨selections ++ others, ?_, rfl⟩, h.possibleTypes, others, rfl, ?_⟩
  · rw [hextra, h.possibleTypes, List.mapM_append, hselections, hothers]
    rfl
  · intro result hresult
    obtain ⟨selection, hselection, hsame⟩ := Outcome.exists_of_mem_mapM hothers hresult
    obtain ⟨found, hfoundResult, hmem⟩ := hfound selection hselection
    rwa [← Except.ok.inj (hfoundResult.symm.trans hsame)]

end SelectionSet.Repeats

end QueryShape.Typed
