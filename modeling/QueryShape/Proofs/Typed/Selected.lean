import QueryShape.Proofs.Typed.Selections
import QueryShape.Proofs.Typed.TypeCase

/-!
# Fields that a selection set selects for a type

A selection set selects for a type the fields that are reached through type conditions that the type
satisfies and through checks, in order, and with spreads followed also those of the fragments that
apply to the type. Without spreads these are the occurrences from which the type case is built.
-/

set_option autoImplicit false

namespace QueryShape.Typed

/-- A field reached in a selection set, with the checks on the way. -/
structure Selected where
  field : Field
  checks : List Check

/-- The field as it is selected. Under checks it is conditional, and its conditions are its own and
then the checks, each where it first comes. -/
def Selected.conditional (selected : Selected) : Field where
  head :=
    if selected.checks = [] then selected.field.head
    else
      { selected.field.head with
        isConditional := true
        conditions := (selected.field.head.conditions ++ selected.checks).eraseDups }
  selectionSet := selected.field.selectionSet

theorem Selected.conditional_eq (selected : Selected) :
    selected.conditional =
      ⟨selected.field.head.under selected.checks, selected.field.selectionSet⟩ := by
  simp only [conditional, FieldHead.under, List.isEmpty_iff, distinct_eq_eraseDups]

theorem Selected.head_conditional (selected : Selected) :
    selected.conditional.head = selected.field.head.under selected.checks := by
  rw [conditional_eq]

@[simp] theorem Selected.responseKey_conditional (selected : Selected) :
    selected.conditional.responseKey = selected.field.responseKey := by
  rw [Field.responseKey, head_conditional, FieldHead.under]
  split <;> rfl

@[simp] theorem Selected.selectionSet_conditional (selected : Selected) :
    selected.conditional.selectionSet = selected.field.selectionSet :=
  rfl

theorem Selected.filter_conditional (key : String) (selected : List Selected) :
    (selected.map conditional).filter (·.responseKey = key) =
      (selected.filter (·.field.responseKey = key)).map conditional := by
  rw [List.filter_map]
  simp [Function.comp_def]

theorem Selected.exists_head_conditional (selected : Selected) :
    ∃ isConditional conditions,
      selected.conditional.head = { selected.field.head with isConditional, conditions } := by
  rw [head_conditional, FieldHead.under]
  split <;> exact ⟨_, _, rfl⟩

theorem Selected.flatMap_nested_conditional (members : List Selected) :
    (members.map conditional).flatMap Field.nested =
      (members.filterMap (·.field.selectionSet)).flatMap (·.selections) := by
  induction members with
  | nil => rfl
  | cons member rest ih =>
    rw [List.map_cons, List.flatMap_cons, ih, List.filterMap_cons, Field.nested,
      selectionSet_conditional]
    cases member.field.selectionSet <;> rfl

def Selected.mergedUnder (key : String) (selected : List Selected) : Option Field :=
  Field.mergeAll ((selected.map conditional).filter (·.responseKey = key))

theorem Selected.isSome_mergedUnder {key : String} {selected : List Selected} :
    (mergedUnder key selected).isSome ↔ ∃ member ∈ selected, member.field.responseKey = key := by
  rw [mergedUnder, ← Option.ne_none_iff_isSome, Ne, Field.mergeAll_eq_none, filter_conditional,
    List.map_eq_nil_iff, List.filter_eq_nil_iff]
  simp

/-- The fields that a list of selections over the given types selects for a type, where spreads are
followed into their fragments or passed over. -/
inductive Document.Selects (document : Document) (follow : Bool) (type : String) :
    List Check → List String → List Selection → List Selected → Prop
  | nil {checks : List Check} {types : List String} :
      Selects document follow type checks types [] []
  | leaf {checks : List Check} {types : List String} {head : FieldHead} {rest : List Selection}
      {others : List Selected} (hrest : Selects document follow type checks types rest others) :
      Selects document follow type checks types (.leaf head :: rest)
        (⟨⟨head, none⟩, checks⟩ :: others)
  | composite {checks : List Check} {types : List String} {head : FieldHead}
      {nestedTypes : List String} {nested rest : List Selection} {others : List Selected}
      (hrest : Selects document follow type checks types rest others) :
      Selects document follow type checks types (.composite head nestedTypes nested :: rest)
        (⟨⟨head, some ⟨nestedTypes, nested⟩⟩, checks⟩ :: others)
  | satisfied {checks : List Check} {types : List String} {condition : String}
      {narrowed : List String} {inner rest : List Selection} {selected others : List Selected}
      (htype : type ∈ narrowed)
      (hinner : Selects document follow type checks narrowed inner selected)
      (hrest : Selects document follow type checks types rest others) :
      Selects document follow type checks types (.typeCondition condition narrowed inner :: rest)
        (selected ++ others)
  | unsatisfied {checks : List Check} {types : List String} {condition : String}
      {narrowed : List String} {inner rest : List Selection} {others : List Selected}
      (htype : type ∉ narrowed)
      (hrest : Selects document follow type checks types rest others) :
      Selects document follow type checks types (.typeCondition condition narrowed inner :: rest)
        others
  | check {checks : List Check} {types : List String} {check : Check} {innerTypes : List String}
      {inner rest : List Selection} {selected others : List Selected}
      (hinner : Selects document follow type (checks ++ [check]) innerTypes inner selected)
      (hrest : Selects document follow type checks types rest others) :
      Selects document follow type checks types (.booleanCondition check innerTypes inner :: rest)
        (selected ++ others)
  | followed {checks : List Check} {types : List String} {name : String} {fragment : Fragment}
      {rest : List Selection} {selected others : List Selected} (hfollow : follow = true)
      (hfragment : document.fragment? name = some fragment) (htype : type ∈ types)
      (happlies : type ∈ fragment.selectionSet.possibleTypes)
      (hinner : Selects document follow type checks fragment.selectionSet.possibleTypes
        fragment.selectionSet.selections selected)
      (hrest : Selects document follow type checks types rest others) :
      Selects document follow type checks types (.fragmentSpread name :: rest) (selected ++ others)
  | passed {checks : List Check} {types : List String} {name : String} {rest : List Selection}
      {others : List Selected}
      (hpassed : follow = true → ∀ fragment, document.fragment? name = some fragment →
        ¬(type ∈ types ∧ type ∈ fragment.selectionSet.possibleTypes))
      (hrest : Selects document follow type checks types rest others) :
      Selects document follow type checks types (.fragmentSpread name :: rest) others

mutual

def Selection.selectedFor (type : String) (checks : List Check) : Selection → List Selected
  | .leaf head => [⟨⟨head, none⟩, checks⟩]
  | .composite head nestedTypes nested => [⟨⟨head, some ⟨nestedTypes, nested⟩⟩, checks⟩]
  | .typeCondition _ narrowed inner =>
    if type ∈ narrowed then Selection.allSelectedFor type checks inner else []
  | .booleanCondition check _ inner => Selection.allSelectedFor type (checks ++ [check]) inner
  | .fragmentSpread _ => []

def Selection.allSelectedFor (type : String) (checks : List Check) :
    List Selection → List Selected
  | [] => []
  | selection :: rest =>
    Selection.selectedFor type checks selection ++ Selection.allSelectedFor type checks rest

end

namespace Document.Selects

variable {document : Document} {type : String}

theorem unique {follow : Bool} {checks : List Check} {types : List String}
    {selections : List Selection} {first second : List Selected}
    (hfirst : document.Selects follow type checks types selections first)
    (hsecond : document.Selects follow type checks types selections second) : first = second := by
  induction hfirst generalizing second with
  | nil =>
    cases hsecond
    rfl
  | leaf _ ih =>
    cases hsecond with
    | leaf hrest => rw [ih hrest]
  | composite _ ih =>
    cases hsecond with
    | composite hrest => rw [ih hrest]
  | satisfied htype _ _ ihInner ih =>
    cases hsecond with
    | satisfied _ hinner hrest => rw [ihInner hinner, ih hrest]
    | unsatisfied hnot _ => exact absurd htype hnot
  | unsatisfied hnot _ ih =>
    cases hsecond with
    | satisfied htype _ _ => exact absurd htype hnot
    | unsatisfied _ hrest => exact ih hrest
  | check _ _ ihInner ih =>
    cases hsecond with
    | check hinner hrest => rw [ihInner hinner, ih hrest]
  | followed hfollow hfragment htype happlies _ _ ihInner ih =>
    cases hsecond with
    | followed _ hfragment' _ _ hinner hrest =>
      obtain rfl := Option.some.inj (hfragment.symm.trans hfragment')
      rw [ihInner hinner, ih hrest]
    | passed hpassed _ => exact absurd ⟨htype, happlies⟩ (hpassed hfollow _ hfragment)
  | passed hpassed _ ih =>
    cases hsecond with
    | followed hfollow hfragment htype happlies _ _ =>
      exact absurd ⟨htype, happlies⟩ (hpassed hfollow _ hfragment)
    | passed _ hrest => exact ih hrest

/-- Where spreads are passed over, the selected fields are those outside of fragments. -/
theorem of_passing (document : Document) (type : String) (checks : List Check)
    (types : List String) (selections : List Selection) :
    document.Selects false type checks types selections
      (Selection.allSelectedFor type checks selections) := by
  induction selections using Selection.listInduction generalizing checks types with
  | nil => exact .nil
  | leaf head rest ih => exact .leaf (ih checks types)
  | composite head nestedTypes nested rest _ ih => exact .composite (ih checks types)
  | typeCondition condition narrowed inner rest ihInner ih =>
    rw [Selection.allSelectedFor, Selection.selectedFor]
    split
    · rename_i htype
      exact .satisfied htype (ihInner checks narrowed) (ih checks types)
    · rename_i htype
      exact .unsatisfied htype (ih checks types)
  | booleanCondition check innerTypes inner rest ihInner ih =>
    exact .check (ihInner (checks ++ [check]) innerTypes) (ih checks types)
  | fragmentSpread name rest ih => exact .passed (fun h => by cases h) (ih checks types)

/-- What holds of all selections of a list, and is handed on to those inside conditions and to those
of fragments that are followed, holds of the selected fields. -/
theorem inherits {follow : Bool} {checks : List Check} {types : List String}
    {selections : List Selection} {selected : List Selected}
    (h : document.Selects follow type checks types selections selected) (holds : Selection → Prop)
    (htypeCondition : ∀ condition narrowed inner, holds (.typeCondition condition narrowed inner) →
      ∀ selection ∈ inner, holds selection)
    (hcheck : ∀ check types inner, holds (.booleanCondition check types inner) →
      ∀ selection ∈ inner, holds selection)
    (hfragment : follow = true → ∀ name fragment, document.fragment? name = some fragment →
      holds (.fragmentSpread name) →
        ∀ selection ∈ fragment.selectionSet.selections, holds selection)
    (hall : ∀ selection ∈ selections, holds selection) :
    ∀ member ∈ selected, holds member.field.toSelection := by
  induction h with
  | nil => simp
  | leaf _ ih =>
    obtain ⟨hfirst, hrest⟩ := List.forall_mem_cons.mp hall
    exact List.forall_mem_cons.mpr ⟨hfirst, ih hrest⟩
  | composite _ ih =>
    obtain ⟨hfirst, hrest⟩ := List.forall_mem_cons.mp hall
    exact List.forall_mem_cons.mpr ⟨hfirst, ih hrest⟩
  | satisfied _ _ _ ihInner ih =>
    obtain ⟨hfirst, hrest⟩ := List.forall_mem_cons.mp hall
    exact List.forall_mem_append.mpr ⟨ihInner (htypeCondition _ _ _ hfirst), ih hrest⟩
  | unsatisfied _ _ ih => exact ih (List.forall_mem_cons.mp hall).2
  | check _ _ ihInner ih =>
    obtain ⟨hfirst, hrest⟩ := List.forall_mem_cons.mp hall
    exact List.forall_mem_append.mpr ⟨ihInner (hcheck _ _ _ hfirst), ih hrest⟩
  | followed hfollow hdefined _ _ _ _ ihInner ih =>
    obtain ⟨hfirst, hrest⟩ := List.forall_mem_cons.mp hall
    exact List.forall_mem_append.mpr
      ⟨ihInner (hfragment hfollow _ _ hdefined hfirst), ih hrest⟩
  | passed _ _ ih => exact ih (List.forall_mem_cons.mp hall).2

end Document.Selects

end QueryShape.Typed
