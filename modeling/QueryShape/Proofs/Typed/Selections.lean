import QueryShape.Typed.References

/-!
# Lists of selections

Functions on selections go into the lists inside them, so that statements about them are proved for
lists of selections, by induction over the first selection and its inner list. This module has the
induction, and how what lists mention composes.
-/

set_option autoImplicit false

namespace QueryShape.Typed

/-- Induction over lists of selections: a statement about a list may use the statement for the list
inside its first selection and for the remaining selections. -/
@[elab_as_elim]
theorem Selection.listInduction {motive : List Selection → Prop} (nil : motive [])
    (leaf : ∀ head rest, motive rest → motive (.leaf head :: rest))
    (composite : ∀ head types nested rest, motive nested → motive rest →
      motive (.composite head types nested :: rest))
    (typeCondition : ∀ type narrowed inner rest, motive inner → motive rest →
      motive (.typeCondition type narrowed inner :: rest))
    (booleanCondition : ∀ check types inner rest, motive inner → motive rest →
      motive (.booleanCondition check types inner :: rest))
    (fragmentSpread : ∀ name rest, motive rest → motive (.fragmentSpread name :: rest))
    (selections : List Selection) : motive selections :=
  @Selection.rec_1 (fun selection => ∀ rest, motive rest → motive (selection :: rest)) motive leaf
    (fun head types nested hnested rest => composite head types nested rest hnested)
    (fun type narrowed inner hinner rest => typeCondition type narrowed inner rest hinner)
    (fun check types inner hinner rest => booleanCondition check types inner rest hinner)
    fragmentSpread nil (fun _ rest hselection hrest => hselection rest hrest) selections

mutual

def Selection.heads : Selection → List FieldHead
  | .leaf head => [head]
  | .composite head _ nested => head :: Selection.allHeads nested
  | .typeCondition _ _ inner => Selection.allHeads inner
  | .booleanCondition _ _ inner => Selection.allHeads inner
  | .fragmentSpread _ => []

def Selection.allHeads : List Selection → List FieldHead
  | [] => []
  | selection :: rest => Selection.heads selection ++ Selection.allHeads rest

end

namespace Selection

theorem allSpreads_eq_flatMap (selections : List Selection) :
    allSpreads selections = selections.flatMap spreads := by
  induction selections with
  | nil => rfl
  | cons selection rest ih => rw [allSpreads, ih, List.flatMap_cons]

theorem allHeads_eq_flatMap (selections : List Selection) :
    allHeads selections = selections.flatMap heads := by
  induction selections with
  | nil => rfl
  | cons selection rest ih => rw [allHeads, ih, List.flatMap_cons]

@[simp] theorem mem_allSpreads {name : String} {selections : List Selection} :
    name ∈ allSpreads selections ↔ ∃ selection ∈ selections, name ∈ selection.spreads := by
  rw [allSpreads_eq_flatMap, List.mem_flatMap]

@[simp] theorem mem_allHeads {head : FieldHead} {selections : List Selection} :
    head ∈ allHeads selections ↔ ∃ selection ∈ selections, head ∈ selection.heads := by
  rw [allHeads_eq_flatMap, List.mem_flatMap]

end Selection

end QueryShape.Typed
