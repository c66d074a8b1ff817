import QueryShape.Proofs.Typed.Occurrences
import QueryShape.Typed.Spreads

/-!
# Spreads that apply to types

A spread in a selection set applies to types if all type conditions around it contain them. The
names listed for types are those of the spreads that apply to all of them, which are the occurrences
of spreads whose types contain them.
-/

set_option autoImplicit false

namespace QueryShape.Typed

/-- A fragment is spread in selections under type conditions that contain all of the types. -/
inductive Selection.Spreads (types : List String) : List Selection → String → Prop
  | spread {name : String} {rest : List Selection} :
      Spreads types (.fragmentSpread name :: rest) name
  | typeCondition {condition : String} {narrowed : List String} {inner rest : List Selection}
      {name : String} (htypes : ∀ type ∈ types, type ∈ narrowed)
      (hinner : Spreads types inner name) :
      Spreads types (.typeCondition condition narrowed inner :: rest) name
  | check {check : Check} {innerTypes : List String} {inner rest : List Selection} {name : String}
      (hinner : Spreads types inner name) :
      Spreads types (.booleanCondition check innerTypes inner :: rest) name
  | later {selection : Selection} {rest : List Selection} {name : String}
      (hrest : Spreads types rest name) : Spreads types (selection :: rest) name

namespace Selection

variable {types : List String} {name : String}

theorem mem_allSpreadsFor {selections : List Selection} :
    name ∈ allSpreadsFor types selections ↔ Spreads types selections name := by
  constructor
  · intro h
    induction selections using listInduction with
    | nil => cases h
    | leaf head rest ih => exact .later (ih h)
    | composite head nestedTypes nested rest _ ih => exact .later (ih h)
    | typeCondition condition narrowed inner rest ihInner ih =>
      rw [allSpreadsFor, spreadsFor] at h
      rcases List.mem_append.mp h with h | h
      · split at h
        · rename_i hcontained
          exact .typeCondition (PossibleTypes.contained_eq_true.mp hcontained) (ihInner h)
        · cases h
      · exact .later (ih h)
    | booleanCondition check innerTypes inner rest ihInner ih =>
      rcases List.mem_append.mp h with h | h
      · exact .check (ihInner h)
      · exact .later (ih h)
    | fragmentSpread other rest ih =>
      rcases List.mem_cons.mp h with rfl | h
      · exact .spread
      · exact .later (ih h)
  · intro h
    induction h with
    | spread => exact List.mem_cons_self
    | typeCondition htypes _ ih =>
      rw [allSpreadsFor, spreadsFor, if_pos (PossibleTypes.contained_eq_true.mpr htypes)]
      exact List.mem_append_left _ ih
    | check _ ih => exact List.mem_append_left _ ih
    | later _ ih => exact List.mem_append_right _ ih

theorem Spreads.mono {fewer : List String} (hfewer : ∀ type ∈ fewer, type ∈ types)
    {selections : List Selection} (h : Spreads types selections name) :
    Spreads fewer selections name := by
  induction h with
  | spread => exact .spread
  | typeCondition htypes _ ih =>
    exact .typeCondition (fun type htype => htypes type (hfewer type htype)) ih
  | check _ ih => exact .check ih
  | later _ ih => exact .later ih

theorem Spreads.exists_occurrence {within : List String} (hwithin : ∀ type ∈ types, type ∈ within)
    (checks : List Check) {selections : List Selection} (h : Spreads types selections name) :
    ∃ applying, .spread name applying ∈ allOccurrences within checks selections ∧
      ∀ type ∈ types, type ∈ applying := by
  induction h generalizing within checks with
  | spread => exact ⟨within, List.mem_cons_self, hwithin⟩
  | typeCondition htypes _ ih =>
    obtain ⟨applying, hmem, happlying⟩ := ih (fun type htype =>
      PossibleTypes.mem_intersect.mpr ⟨hwithin type htype, htypes type htype⟩) checks
    exact ⟨applying, List.mem_append_left _ hmem, happlying⟩
  | check _ ih =>
    obtain ⟨applying, hmem, happlying⟩ := ih hwithin _
    exact ⟨applying, List.mem_append_left _ hmem, happlying⟩
  | later _ ih =>
    obtain ⟨applying, hmem, happlying⟩ := ih hwithin checks
    exact ⟨applying, List.mem_append_right _ hmem, happlying⟩

theorem spreads_of_mem_allOccurrences {within : List String} {checks : List Check}
    {selections : List Selection} {applying : List String}
    (h : .spread name applying ∈ allOccurrences within checks selections)
    (happlying : ∀ type ∈ types, type ∈ applying) : Spreads types selections name := by
  induction selections using listInduction generalizing within checks with
  | nil => cases h
  | leaf head rest ih =>
    rcases List.mem_cons.mp h with h | h
    · cases h
    · exact .later (ih h)
  | composite head nestedTypes nested rest _ ih =>
    rcases List.mem_cons.mp h with h | h
    · cases h
    · exact .later (ih h)
  | typeCondition condition narrowed inner rest ihInner ih =>
    rcases List.mem_append.mp h with h | h
    · refine .typeCondition (fun type htype => ?_) (ihInner h)
      have hwithin := within_allOccurrences (PossibleTypes.intersect_self _) checks inner _ h
      have hin : type ∈
          PossibleTypes.intersect (PossibleTypes.intersect within narrowed) applying :=
        hwithin.symm ▸ happlying type htype
      exact (PossibleTypes.mem_intersect.mp (PossibleTypes.mem_intersect.mp hin).1).2
    · exact .later (ih h)
  | booleanCondition check innerTypes inner rest ihInner ih =>
    rcases List.mem_append.mp h with h | h
    · exact .check (ihInner h)
    · exact .later (ih h)
  | fragmentSpread other rest ih =>
    rcases List.mem_cons.mp h with h | h
    · cases h
      exact .spread
    · exact .later (ih h)

end Selection

namespace SelectionSet

variable {set : SelectionSet} {types : List String} {name : String}

theorem mem_spreadNamesFor :
    name ∈ set.spreadNamesFor types ↔ Selection.Spreads types set.selections name := by
  rw [spreadNamesFor, mem_distinct, spreadsFor, Selection.mem_allSpreadsFor]

/-- In the type case of a selection set, a spread that applies to a type applies to all types of its
record. -/
theorem spreads_record {record : Record} (hrecord : record ∈ set.typeCase.records) {type : String}
    (htype : type ∈ record.possibleTypes) (h : Selection.Spreads [type] set.selections name) :
    Selection.Spreads record.possibleTypes set.selections name := by
  have hmem := set.sorts_typeCase.partition.within record hrecord type htype
  obtain ⟨applying, hspread, happlying⟩ := h.exists_occurrence (by simpa using hmem) []
  have hin : type ∈ applying := happlying type (List.mem_singleton.mpr rfl)
  have hoccurrence : .spread name applying ∈ set.occurrences := by
    apply List.mem_filter.mpr
    exact ⟨hspread, by simpa [Occurrence.types] using List.ne_nil_of_mem hin⟩
  apply Selection.spreads_of_mem_allOccurrences hspread
  intro other hother
  exact set.sorts_typeCase.uniform record hrecord type htype other hother _ hoccurrence hin

end SelectionSet

end QueryShape.Typed
