import QueryShape.Proofs.Typed.Fitting
import QueryShape.Proofs.Typed.Inlining
import QueryShape.Proofs.Typed.Keys

/-!
# Conditions of merged fields

A field that is selected several times is present if one of the selections has all its checks met.
The conditions of the merged field are the checks of all of them, unless one has none. So the field
is present if all of its conditions hold, and only if one of them does.
-/

set_option autoImplicit false

namespace QueryShape.Typed

/-- Nothing is known of conditions before the field is selected under checks. -/
def FieldHead.IsPlain (head : FieldHead) : Prop :=
  head.isConditional = false ∧ head.conditions = []

theorem FieldHead.FitsOn.isPlain {schema : Schema} {types : List String} {head : FieldHead}
    (h : head.FitsOn schema types) : head.IsPlain := by
  obtain ⟨_, _, _, _, _, _, rfl, _⟩ := h
  exact ⟨rfl, rfl⟩

theorem FieldHead.IsPlain.isRegular_under {head : FieldHead} (h : head.IsPlain)
    (checks : List Check) : (head.under checks).IsRegular := by
  obtain ⟨hconditional, hconditions⟩ := h
  rw [under]
  split
  · exact ⟨by rw [hconditions]; exact List.nodup_nil, fun _ => hconditions⟩
  · exact ⟨nodup_distinct _, fun h => by cases h⟩

theorem Document.Selects.isPlain {schema : Schema} {document : Document}
    (hfits : document.FitsSchema schema) {follow : Bool} {type : String} {checks : List Check}
    {types : List String} {selections : List Selection} {selected : List Selected}
    (h : document.Selects follow type checks types selections selected)
    (hcomposes : document.Composes selections) :
    ∀ member ∈ selected, member.field.head.IsPlain := by
  intro member hmember
  obtain ⟨_, hhead⟩ := Document.exists_fitsOn hfits (h.composes hcomposes hmember)
  exact hhead.isPlain

section

variable {selected : Selected} (hplain : selected.field.head.IsPlain)
include hplain

theorem Selected.isConditional_conditional :
    selected.conditional.head.isConditional = true ↔ selected.checks ≠ [] := by
  rw [head_conditional, FieldHead.under, ← List.isEmpty_eq_false_iff]
  cases selected.checks.isEmpty <;> simp [hplain.1]

theorem Selected.conditions_conditional :
    selected.conditional.head.conditions = distinct selected.checks := by
  rw [head_conditional, FieldHead.under, hplain.2, List.nil_append]
  cases selected.checks with
  | nil => exact hplain.2
  | cons check rest => rfl

end

namespace Field

variable {fields : List Field} {merged : Field}

theorem isConditional_mergeAll (h : mergeAll fields = some merged) :
    merged.head.isConditional = true ↔ ∀ field ∈ fields, field.head.isConditional = true := by
  induction fields using List.reverseRecOn generalizing merged with
  | nil => cases h
  | append_singleton fields field ih =>
    rw [mergeAll_append_singleton] at h
    obtain rfl := Option.some.inj h
    cases hfirst : mergeAll fields with
    | none =>
      rw [mergeAll_eq_none.mp hfirst]
      simp [mergeOnto]
    | some first =>
      have hiff := ih hfirst
      simp [mergeOnto, merge, hiff, or_imp, forall_and]

theorem mem_conditions_mergeAll (h : mergeAll fields = some merged)
    (hconditional : merged.head.isConditional = true) (check : Check) :
    check ∈ merged.head.conditions ↔ ∃ field ∈ fields, check ∈ field.head.conditions := by
  induction fields using List.reverseRecOn generalizing merged with
  | nil => cases h
  | append_singleton fields field ih =>
    rw [mergeAll_append_singleton] at h
    obtain rfl := Option.some.inj h
    cases hfirst : mergeAll fields with
    | none =>
      rw [mergeAll_eq_none.mp hfirst]
      simp [mergeOnto]
    | some first =>
      rw [hfirst] at hconditional
      have hboth : (first.head.isConditional && field.head.isConditional) = true := hconditional
      obtain ⟨hfirstConditional, hfieldConditional⟩ := Bool.and_eq_true_iff.mp hboth
      have hiff := ih hfirst hfirstConditional
      simp [mergeOnto, merge, hfirstConditional, hfieldConditional, hiff, or_and_right, exists_or]

theorem nodup_conditions_mergeAll (h : mergeAll fields = some merged)
    (hnodup : ∀ field ∈ fields, field.head.conditions.Nodup) : merged.head.conditions.Nodup := by
  induction fields using List.reverseRecOn generalizing merged with
  | nil => cases h
  | append_singleton fields field ih =>
    rw [mergeAll_append_singleton] at h
    obtain rfl := Option.some.inj h
    cases hfirst : mergeAll fields with
    | none => exact hnodup field (by simp)
    | some first =>
      simp only [mergeOnto, Option.elim_some, merge]
      split
      · exact nodup_distinct _
      · exact List.nodup_nil

end Field

/-- A field is present under the key, for the values of variables, if one that is selected under the
key has all its checks met. -/
def IsPresent (values : String → Bool) (key : String) (selected : List Selected) : Prop :=
  ∃ member ∈ selected, member.field.responseKey = key ∧
    ∀ check ∈ member.checks, check.holds values = true

/-- An unconditional field is always present. A conditional one has conditions, each once; it is
present if all of them hold, and only if one of them does. -/
structure FieldHead.Brackets (head : FieldHead) (present : (String → Bool) → Prop) : Prop where
  always : head.isConditional = false → ∀ values, present values
  nonempty : head.isConditional = true → head.conditions ≠ []
  nodup : head.conditions.Nodup
  sufficient : head.isConditional = true → ∀ values,
    (∀ check ∈ head.conditions, check.holds values = true) → present values
  necessary : head.isConditional = true → ∀ values, present values →
    ∃ check ∈ head.conditions, check.holds values = true

section

variable {selected : List Selected} (hplain : ∀ member ∈ selected, member.field.head.IsPlain)
  {key : String} {merged : Field} (h : Selected.mergedUnder key selected = some merged)
include hplain h

theorem isConditional_merged :
    merged.head.isConditional = true ↔
      ∀ member ∈ selected, member.field.responseKey = key → member.checks ≠ [] := by
  rw [Field.isConditional_mergeAll h, Selected.filter_conditional, List.forall_mem_map]
  simp only [List.mem_filter, decide_eq_true_eq, and_imp]
  apply forall₃_congr
  intro member hmember _
  exact Selected.isConditional_conditional (hplain member hmember)

theorem mem_conditions_merged (hconditional : merged.head.isConditional = true) (check : Check) :
    check ∈ merged.head.conditions ↔
      ∃ member ∈ selected, member.field.responseKey = key ∧ check ∈ member.checks := by
  rw [Field.mem_conditions_mergeAll h hconditional, Selected.filter_conditional]
  simp only [List.mem_map, exists_exists_and_eq_and]
  simp only [List.mem_filter, decide_eq_true_eq, and_assoc]
  apply exists_congr
  intro member
  apply and_congr_right
  intro hmember
  rw [Selected.conditions_conditional (hplain member hmember), mem_distinct]

theorem nodup_conditions_merged : merged.head.conditions.Nodup := by
  apply Field.nodup_conditions_mergeAll h
  intro field hfield
  obtain ⟨member, hmember, rfl⟩ := List.mem_map.mp (List.mem_of_mem_filter hfield)
  rw [Selected.conditions_conditional (hplain member hmember)]
  exact nodup_distinct _

omit hplain in
theorem exists_selected_of_merged : ∃ member ∈ selected, member.field.responseKey = key := by
  rw [← Selected.isSome_mergedUnder, h]
  rfl

theorem brackets_merged : merged.head.Brackets fun values => IsPresent values key selected := by
  have hmem := mem_conditions_merged hplain h
  constructor
  · intro hunconditional values
    have hnot : ¬merged.head.isConditional = true := by simp [hunconditional]
    rw [isConditional_merged hplain h] at hnot
    push Not at hnot
    obtain ⟨member, hmember, hkey, hnil⟩ := hnot
    exact ⟨member, hmember, hkey, by simp [hnil]⟩
  · intro hconditional
    have hchecks := (isConditional_merged hplain h).mp hconditional
    obtain ⟨first, hfirst, hkey⟩ := exists_selected_of_merged h
    obtain ⟨check, hcheck⟩ := List.exists_mem_of_ne_nil _ (hchecks first hfirst hkey)
    exact List.ne_nil_of_mem ((hmem hconditional check).mpr ⟨first, hfirst, hkey, hcheck⟩)
  · exact nodup_conditions_merged hplain h
  · intro hconditional values hall
    obtain ⟨first, hfirst, hkey⟩ := exists_selected_of_merged h
    refine ⟨first, hfirst, hkey, fun check hcheck => hall check ?_⟩
    exact (hmem hconditional check).mpr ⟨first, hfirst, hkey, hcheck⟩
  · rintro hconditional values ⟨member, hmember, hkey, hholds⟩
    have hchecks := (isConditional_merged hplain h).mp hconditional
    obtain ⟨check, hcheck⟩ := List.exists_mem_of_ne_nil _ (hchecks member hmember hkey)
    have hin := (hmem hconditional check).mpr ⟨member, hmember, hkey, hcheck⟩
    exact ⟨check, hin, hholds check hcheck⟩

end

def TypeCase.fieldFor? (typeCase : TypeCase) (type key : String) : Option Field :=
  ((typeCase.records.find? (·.possibleTypes.contains type)).bind (·.field? key)).or
    (typeCase.defaultRecord.field? key)

theorem SelectionSet.fieldFor?_typeCase (set : SelectionSet) {type : String}
    (htype : type ∈ set.possibleTypes) (key : String) :
    set.typeCase.fieldFor? type key = Field.mergeAll (set.fieldsUnder type key) := by
  obtain ⟨record, hrecord, hin⟩ := set.sorts_typeCase.partition.covered type htype
  rw [TypeCase.fieldFor?]
  cases hfound : set.typeCase.records.find? (·.possibleTypes.contains type) with
  | none =>
    have hnot := List.find?_eq_none.mp hfound record hrecord
    exact absurd (by simpa using hin) hnot
  | some found =>
    have hmem : type ∈ found.possibleTypes := by simpa using List.find?_some hfound
    rw [Option.bind_some]
    exact set.field_typeCase (List.mem_of_find?_eq_some hfound) hmem key

section

variable {schema : Schema} {options : Options} {filePath : Option String}
  {source : Source.Document} {document : Document} {set : SelectionSet}

/-- Whatever selections of a compiled document make up a set: the field that the type case, with
fragments inlined, holds for a type under a key has conditions that bracket its presence. -/
theorem conditions_bracket_presence
    (hcompile : Document.compile schema options filePath source = .ok document)
    (hset : document.Composes set.selections) :
    ∃ merged, document.inlined set = .ok merged ∧
      ∀ type ∈ set.possibleTypes, ∃ selected,
        document.Selects true type [] set.possibleTypes set.selections selected ∧
        ∀ key field, merged.typeCase.fieldFor? type key = some field →
          field.head.Brackets fun values => IsPresent values key selected := by
  have hsound := Document.isSound_of_compile hcompile
  obtain ⟨merged, hmerged⟩ := Document.exists_inlined hsound.closed hsound.acyclic
    (hset.defines hsound.closed)
  refine ⟨merged, hmerged, fun type htype => ?_⟩
  obtain ⟨htypes, hselects⟩ := Document.selects_of_inlined hmerged type
  refine ⟨merged.selectedFor type, hselects, fun key field hfield => ?_⟩
  -- Typing leaves conditions empty, so that all of them come from checks on the way to a field.
  have hplain : ∀ member ∈ merged.selectedFor type, member.field.head.IsPlain := by
    intro member hmember
    obtain ⟨_, hhead⟩ := Document.exists_fitsOn hsound.fits (hselects.composes hset hmember)
    exact hhead.isPlain
  rw [merged.fieldFor?_typeCase (htypes ▸ htype)] at hfield
  exact brackets_merged hplain hfield

end

/-- A field that is selected under a variable, and again in a fragment that is skipped under another
variable under which the field is included there. -/
def bracketed : Source.Document where
  definitions :=
    [.operation
       { description := none
         kind := .query
         name := some "Q"
         variableDefinitions :=
           [⟨none, "c", .nonNull (.named "Boolean"), none, []⟩,
            ⟨none, "d", .nonNull (.named "Boolean"), none, []⟩]
         directives := []
         selections :=
           [.field none "a" [] [⟨"include", [⟨"if", .var "c"⟩]⟩] [],
            .fragmentSpread "F" [⟨"skip", [⟨"if", .var "d"⟩]⟩]] },
     .fragment ⟨none, "F", "Query", [],
       [.field none "a" [] [⟨"include", [⟨"if", .var "d"⟩]⟩] [], .field none "b" [] [] []]⟩]

theorem conditions_bracket_presence_bracketed :
    ∃ (document : Document) (operation : Operation) (merged : SelectionSet)
      (selected : List Selected) (field : Field),
      Document.compile Schema.twoFields {} none bracketed = .ok document ∧
      document.Composes operation.selectionSet.selections ∧
      document.inlined operation.selectionSet = .ok merged ∧
      document.Selects true "Query" [] operation.selectionSet.possibleTypes
        operation.selectionSet.selections selected ∧
      merged.typeCase.fieldFor? "Query" "a" = some field ∧
      field.head.conditions = [⟨"c", false⟩, ⟨"d", true⟩, ⟨"d", false⟩] ∧
      field.head.Brackets fun values => IsPresent values "a" selected := by
  obtain ⟨document, hcompile⟩ : ∃ document,
      Document.compile Schema.twoFields {} none bracketed = .ok document :=
    Outcome.exists_eq_ok (by decide +kernel)
  have hoperation : ((Document.compile Schema.twoFields {} none bracketed).toOption.bind
      (·.operation? "Q")).map (·.selectionSet.possibleTypes) = some ["Query"] := by decide +kernel
  have hconditions : ((Document.compile Schema.twoFields {} none bracketed).toOption.bind
      fun document => (document.operation? "Q").bind fun operation =>
        (document.inlined operation.selectionSet).toOption.bind fun merged =>
          (merged.typeCase.fieldFor? "Query" "a").map (·.head.conditions)) =
      some [⟨"c", false⟩, ⟨"d", true⟩, ⟨"d", false⟩] := by decide +kernel
  rw [hcompile] at hoperation hconditions
  obtain ⟨operation, hfound, htypes⟩ := Option.map_eq_some_iff.mp hoperation
  simp only [Except.toOption, Option.bind_some] at hfound hconditions
  have hset : document.Composes operation.selectionSet.selections :=
    (Document.HasSet.root (.operation (List.mem_of_find?_eq_some hfound))).composes
  obtain ⟨merged, hmerged, hall⟩ := conditions_bracket_presence hcompile hset
  obtain ⟨selected, hselects, hbrackets⟩ := hall "Query" (by simp [htypes])
  rw [hfound, Option.bind_some, hmerged] at hconditions
  obtain ⟨field, hfield, hlist⟩ := Option.map_eq_some_iff.mp hconditions
  exact ⟨document, operation, merged, selected, field, hcompile, hset, hmerged, hselects, hfield,
    hlist, hbrackets "a" field hfield⟩

end QueryShape.Typed
