import QueryShape.Proofs.Typed.Arrangement

/-!
# What is visited in a selection set

Going through a selection set in order visits its fields and spreads, each inside of type conditions
and checks. One applies to a type if the type satisfies all conditions around it, and one that
applies to no possible type is not visited. The type case is computed from occurrences that carry
narrowed lists of types instead; these are the possible types that a visited selection applies to.
-/

set_option autoImplicit false

namespace QueryShape.Typed

/-- A field or a spread in a selection set with the possible types of the type conditions around it,
the outermost first. -/
inductive Visited where
  | field (selected : Selected) (conditions : List (List String))
  | spread (name : String) (conditions : List (List String))

mutual

def Selection.visited (conditions : List (List String)) (checks : List Check) :
    Selection → List Visited
  | .leaf head => [.field ⟨⟨head, none⟩, checks⟩ conditions]
  | .composite head nestedTypes nested =>
    [.field ⟨⟨head, some ⟨nestedTypes, nested⟩⟩, checks⟩ conditions]
  | .typeCondition _ narrowed inner =>
    Selection.allVisited (conditions ++ [narrowed]) checks inner
  | .booleanCondition check _ inner => Selection.allVisited conditions (checks ++ [check]) inner
  | .fragmentSpread name => [.spread name conditions]

def Selection.allVisited (conditions : List (List String)) (checks : List Check) :
    List Selection → List Visited
  | [] => []
  | selection :: rest =>
    Selection.visited conditions checks selection ++ Selection.allVisited conditions checks rest

end

def Occurrence.field? : Occurrence → Option Field
  | field selected _ => some selected
  | spread _ _ => none

theorem keysWhere_eq (applies : List String → Bool) (occurrences : List Occurrence) :
    keysWhere applies occurrences =
      ((occurrences.filter (applies ·.types)).filterMap Occurrence.field?).map (·.responseKey) := by
  rw [keysWhere, List.map_filterMap, List.filterMap_filter]
  apply List.filterMap_congr
  intro occurrence _
  cases occurrence with
  | field field types => by_cases happlies : applies types <;>
      simp [Occurrence.field?, Occurrence.types, happlies]
  | spread name types => simp [Occurrence.field?]

theorem fieldsWhere_eq (applies : List String → Bool) (key : String)
    (occurrences : List Occurrence) :
    fieldsWhere applies key occurrences =
      ((occurrences.filter (applies ·.types)).filterMap Occurrence.field?).filter
        (·.responseKey = key) := by
  rw [fieldsWhere, List.filter_filterMap, List.filterMap_filter]
  apply List.filterMap_congr
  intro occurrence _
  cases occurrence with
  | field field types => by_cases happlies : applies types <;>
      simp [Occurrence.field?, Occurrence.types, happlies, Option.filter]
  | spread name types => simp [Occurrence.field?]

namespace Visited

def conditions : Visited → List (List String)
  | field _ conditions => conditions
  | spread _ conditions => conditions

/-- The type satisfies all conditions around it. -/
def AppliesTo (visited : Visited) (type : String) : Prop :=
  ∀ narrowed ∈ visited.conditions, type ∈ narrowed

instance (visited : Visited) (type : String) : Decidable (visited.AppliesTo type) :=
  inferInstanceAs (Decidable (∀ _ ∈ _, _))

/-- The field as it is selected under the checks around it. -/
def field? : Visited → Option Field
  | field selected _ => some selected.conditional
  | spread _ _ => none

def keys (visited : List Visited) : List String :=
  (visited.filterMap field?).map (·.responseKey)

def fieldsUnder (key : String) (visited : List Visited) : List Field :=
  (visited.filterMap field?).filter (·.responseKey = key)

/-- The occurrence for those of the types that the visited selection applies to. -/
def occurrence (types : List String) : Visited → Occurrence
  | field selected conditions =>
    .field selected.conditional (types.filter fun type => ∀ narrowed ∈ conditions, type ∈ narrowed)
  | spread name conditions =>
    .spread name (types.filter fun type => ∀ narrowed ∈ conditions, type ∈ narrowed)

theorem types_occurrence (types : List String) (visited : Visited) :
    (visited.occurrence types).types = types.filter (visited.AppliesTo ·) := by
  cases visited <;> rfl

theorem mem_types_occurrence {types : List String} {type : String} (htype : type ∈ types)
    (visited : Visited) : type ∈ (visited.occurrence types).types ↔ visited.AppliesTo type := by
  rw [types_occurrence, List.mem_filter, decide_eq_true_eq, and_iff_right htype]

theorem within_occurrence (types : List String) (visited : Visited) :
    PossibleTypes.intersect types (visited.occurrence types).types =
      (visited.occurrence types).types := by
  rw [types_occurrence]
  exact PossibleTypes.intersect_filter _ (PossibleTypes.intersect_self types)

theorem within_map_occurrence (types : List String) (visited : List Visited) :
    ∀ applying ∈ visited.map (occurrence types),
      PossibleTypes.intersect types applying.types = applying.types :=
  List.forall_mem_map.mpr fun member _ => within_occurrence types member

theorem fieldsUnder_ne_nil {key : String} {visited : List Visited} :
    fieldsUnder key visited ≠ [] ↔
      ∃ member ∈ visited, ∃ field ∈ member.field?, field.responseKey = key := by
  rw [fieldsUnder, Ne, List.filter_eq_nil_iff]
  push Not
  simp only [List.mem_filterMap, decide_eq_true_eq]
  constructor
  · rintro ⟨field, ⟨member, hmember, hfield⟩, hkey⟩
    exact ⟨member, hmember, field, hfield, hkey⟩
  · rintro ⟨member, hmember, field, hfield, hkey⟩
    exact ⟨field, ⟨member, hmember, hfield⟩, hkey⟩

section

variable {types : List String} {applies : List String → Bool} {chosen : Visited → Bool}
  {visited : List Visited}
  (h : ∀ member ∈ visited, applies (member.occurrence types).types = chosen member)
include h

theorem filter_map_occurrence :
    ((visited.map (occurrence types)).filter (applies ·.types)).filterMap Occurrence.field? =
      (visited.filter chosen).filterMap field? := by
  have hchosen : ∀ member ∈ visited,
      ((applies ·.types) ∘ occurrence types) member = chosen member := h
  rw [List.filter_map, List.filter_congr hchosen, List.filterMap_map]
  apply List.filterMap_congr
  intro member _
  cases member <;> rfl

theorem keysWhere_map_occurrence :
    keysWhere applies (visited.map (occurrence types)) = keys (visited.filter chosen) := by
  rw [keysWhere_eq, filter_map_occurrence h, keys]

theorem fieldsWhere_map_occurrence (key : String) :
    fieldsWhere applies key (visited.map (occurrence types)) =
      fieldsUnder key (visited.filter chosen) := by
  rw [fieldsWhere_eq, filter_map_occurrence h, fieldsUnder]

end

section

variable (types : List String) (visited : List Visited)

theorem fieldsFor_map_occurrence {type : String} (htype : type ∈ types) (key : String) :
    fieldsFor type key (visited.map (occurrence types)) =
      fieldsUnder key (visited.filter (·.AppliesTo type)) := by
  apply fieldsWhere_map_occurrence
  intro member _
  rw [List.contains_eq_mem, decide_eq_decide]
  exact mem_types_occurrence htype member

theorem contained_types_occurrence (member : Visited) :
    PossibleTypes.contained types (member.occurrence types).types =
      decide (∀ type ∈ types, member.AppliesTo type) := by
  rw [Bool.eq_iff_iff, PossibleTypes.contained_eq_true, decide_eq_true_eq]
  exact forall₂_congr fun type htype => mem_types_occurrence htype member

theorem commonFields_map_occurrence (key : String) :
    commonFields types key (visited.map (occurrence types)) =
      fieldsUnder key (visited.filter fun member => ∀ type ∈ types, member.AppliesTo type) :=
  fieldsWhere_map_occurrence (fun member _ => contained_types_occurrence types member) key

theorem commonKeys_map_occurrence :
    commonKeys types (visited.map (occurrence types)) =
      keys (visited.filter fun member => ∀ type ∈ types, member.AppliesTo type) :=
  keysWhere_map_occurrence fun member _ => contained_types_occurrence types member

theorem ownKeys_map_occurrence {type : String} (htype : type ∈ types) :
    ownKeys types type (visited.map (occurrence types)) =
      keys (visited.filter fun member =>
        member.AppliesTo type ∧ ¬∀ other ∈ types, member.AppliesTo other) := by
  apply keysWhere_map_occurrence
  intro member _
  rw [contained_types_occurrence, List.contains_eq_mem,
    decide_eq_decide.mpr (mem_types_occurrence htype member), Bool.decide_and, decide_not]

theorem alike_map_occurrence {type other : String} (htype : type ∈ types) (hother : other ∈ types) :
    Alike (visited.map (occurrence types)) type other ↔
      ∀ member ∈ visited, member.AppliesTo type ↔ member.AppliesTo other := by
  rw [Alike, List.forall_mem_map]
  apply forall₂_congr
  intro member _
  rw [mem_types_occurrence htype, mem_types_occurrence hother]

end

end Visited

/-- The occurrences in selections are what is visited in them, each for the types it applies to. -/
theorem Selection.allOccurrences_eq (types : List String) (conditions : List (List String))
    (checks : List Check) (selections : List Selection) :
    allOccurrences (types.filter fun type => ∀ narrowed ∈ conditions, type ∈ narrowed) checks
        selections =
      (allVisited conditions checks selections).map (Visited.occurrence types) := by
  induction selections using listInduction generalizing conditions checks with
  | nil => rfl
  | leaf head rest ih =>
    rw [allOccurrences, ih, allVisited, List.map_append, occurrences, visited, List.map_singleton,
      Visited.occurrence, Selected.conditional_eq]
  | composite head nestedTypes nested rest _ ih =>
    rw [allOccurrences, ih, allVisited, List.map_append, occurrences, visited, List.map_singleton,
      Visited.occurrence, Selected.conditional_eq]
  | typeCondition condition others inner rest ihInner ih =>
    have hnarrowed : PossibleTypes.intersect
        (types.filter fun type => ∀ narrowed ∈ conditions, type ∈ narrowed) others =
        types.filter fun type => ∀ narrowed ∈ conditions ++ [others], type ∈ narrowed := by
      rw [PossibleTypes.intersect, List.filter_filter]
      apply List.filter_congr
      intro type _
      simp [or_imp, forall_and, Bool.and_comm]
    rw [allOccurrences, ih, allVisited, List.map_append, occurrences, hnarrowed, ihInner, visited]
  | booleanCondition check innerTypes inner rest ihInner ih =>
    rw [allOccurrences, ih, allVisited, List.map_append, occurrences, ihInner, visited]
  | fragmentSpread name rest ih =>
    rw [allOccurrences, ih, allVisited, List.map_append]
    rfl

namespace SelectionSet

def visited (set : SelectionSet) : List Visited :=
  (Selection.allVisited [] [] set.selections).filter fun member =>
    ∃ type ∈ set.possibleTypes, member.AppliesTo type

theorem occurrences_eq (set : SelectionSet) :
    set.occurrences = set.visited.map (Visited.occurrence set.possibleTypes) := by
  have hall := Selection.allOccurrences_eq set.possibleTypes [] [] set.selections
  rw [List.filter_eq_self.mpr (by simp)] at hall
  rw [occurrences, hall, List.filter_map, visited]
  congr 1
  apply List.filter_congr
  intro member _
  rw [Function.comp_apply, Visited.types_occurrence, Bool.eq_iff_iff]
  simp [List.filter_eq_nil_iff]

theorem typeCase_eq (set : SelectionSet) :
    set.typeCase = TypeCase.ofOccurrences set.possibleTypes
      (set.visited.map (Visited.occurrence set.possibleTypes)) := by
  rw [typeCase, occurrences_eq]

end SelectionSet

def petName : FieldHead :=
  ⟨"name", "name", none, .named "String", [], none, false, none, false, []⟩

def petNames : SelectionSet where
  possibleTypes := ["Dog", "Cat", "Bird"]
  selections :=
    [.typeCondition "Pet" ["Dog", "Cat"]
      [.booleanCondition ⟨"c", false⟩ ["Dog", "Cat"] [.leaf petName],
       .typeCondition "Dog" ["Dog"] [.fragmentSpread "OfDogs"]],
     .leaf petName]

example : petNames.visited.map (fun member => petNames.possibleTypes.filter (member.AppliesTo ·)) =
    [["Dog", "Cat"], ["Dog"], ["Dog", "Cat", "Bird"]] := by
  decide

end QueryShape.Typed
