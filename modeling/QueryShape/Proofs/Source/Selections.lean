import Mathlib.Data.List.Basic
import QueryShape.Source.Typename
import QueryShape.Validity.Fragments

/-!
# Written selections

Induction over lists of selections as they are written, and what is mentioned in them: the fragments
that they spread and the aliases that they give. Adding `__typename` fields changes neither.
-/

set_option autoImplicit false

namespace QueryShape.Source

/-- Induction over lists of selections: a statement about a list may use the statement for the list
inside its first selection and for the remaining selections. -/
@[elab_as_elim]
theorem Selection.listInduction {motive : List Selection → Prop} (nil : motive [])
    (field : ∀ aliasName name arguments directives inner rest, motive inner → motive rest →
      motive (.field aliasName name arguments directives inner :: rest))
    (fragmentSpread : ∀ name directives rest, motive rest →
      motive (.fragmentSpread name directives :: rest))
    (inlineFragment : ∀ condition directives inner rest, motive inner → motive rest →
      motive (.inlineFragment condition directives inner :: rest))
    (selections : List Selection) : motive selections :=
  @Selection.rec_1 (fun selection => ∀ rest, motive rest → motive (selection :: rest)) motive
    (fun aliasName name arguments directives inner hinner rest =>
      field aliasName name arguments directives inner rest hinner)
    fragmentSpread
    (fun condition directives inner hinner rest =>
      inlineFragment condition directives inner rest hinner)
    nil (fun _ rest hselection hrest => hselection rest hrest) selections

/-- The fragments spread in a selection set up to and including a selection, after those that were
spread before it. -/
def Selection.seenAfter (seen : List String) : Selection → List String
  | .fragmentSpread name _ => seen.insert name
  | _ => seen

mutual

def Selection.aliases : Selection → List String
  | .field aliasName _ _ _ selections => aliasName.toList ++ Selection.allAliases selections
  | .fragmentSpread _ _ => []
  | .inlineFragment _ _ selections => Selection.allAliases selections

def Selection.allAliases : List Selection → List String
  | [] => []
  | selection :: rest => Selection.aliases selection ++ Selection.allAliases rest

end

def Document.aliases (document : Document) : List String :=
  document.operations.flatMap (Selection.allAliases ·.selections) ++
    document.fragments.flatMap (Selection.allAliases ·.selections)

namespace Selection

theorem addTypenames_eq_map (selections : List Selection) :
    addTypenames selections = selections.map addTypename := by
  induction selections with
  | nil => rfl
  | cons selection rest ih => rw [addTypenames, ih, List.map_cons]

theorem isTypename_addTypename (selection : Selection) :
    selection.addTypename.isTypename = selection.isTypename := by
  cases selection with
  | field aliasName => cases aliasName <;> rfl
  | fragmentSpread | inlineFragment => rfl

theorem allSpreadsWithin_withTypename (selections : List Selection) :
    Validity.allSpreadsWithin (withTypename selections) = Validity.allSpreadsWithin selections := by
  rw [withTypename]
  split <;> rfl

theorem allAliases_withTypename (selections : List Selection) :
    allAliases (withTypename selections) = allAliases selections := by
  rw [withTypename]
  split <;> rfl

@[simp] theorem allSpreadsWithin_addTypenames (selections : List Selection) :
    Validity.allSpreadsWithin (addTypenames selections) =
      Validity.allSpreadsWithin selections := by
  induction selections using listInduction with
  | nil => rfl
  | field aliasName name arguments directives inner rest ihInner ih =>
    simp only [addTypenames, addTypename, Validity.allSpreadsWithin, Validity.spreadsWithin,
      allSpreadsWithin_withTypename, ihInner, ih]
  | fragmentSpread name directives rest ih =>
    simp only [addTypenames, addTypename, Validity.allSpreadsWithin, ih]
  | inlineFragment condition directives inner rest ihInner ih =>
    simp only [addTypenames, addTypename, Validity.allSpreadsWithin, Validity.spreadsWithin,
      ihInner, ih]

@[simp] theorem allAliases_addTypenames (selections : List Selection) :
    allAliases (addTypenames selections) = allAliases selections := by
  induction selections using listInduction with
  | nil => rfl
  | field aliasName name arguments directives inner rest ihInner ih =>
    simp only [addTypenames, addTypename, allAliases, aliases, allAliases_withTypename, ihInner, ih]
  | fragmentSpread name directives rest ih =>
    simp only [addTypenames, addTypename, allAliases, ih]
  | inlineFragment condition directives inner rest ihInner ih =>
    simp only [addTypenames, addTypename, allAliases, aliases, ihInner, ih]

end Selection

def Operation.addTypename (operation : Operation) : Operation :=
  { operation with selections := Selection.addTypenames operation.selections }

def Fragment.addTypename (fragment : Fragment) : Fragment :=
  { fragment with
    selections := Selection.withTypename (Selection.addTypenames fragment.selections) }

namespace Document

variable (document : Document)

theorem operations_addTypename :
    document.addTypename.operations = document.operations.map Operation.addTypename := by
  rw [operations, operations, addTypename, List.filterMap_map, List.map_filterMap]
  apply List.filterMap_congr
  intro definition _
  cases definition <;> rfl

theorem fragments_addTypename :
    document.addTypename.fragments = document.fragments.map Fragment.addTypename := by
  rw [fragments, fragments, addTypename, List.filterMap_map, List.map_filterMap]
  apply List.filterMap_congr
  intro definition _
  cases definition <;> rfl

theorem fragment?_addTypename (name : String) :
    document.addTypename.fragment? name = (document.fragment? name).map Fragment.addTypename := by
  rw [fragment?, fragment?, fragments_addTypename, List.find?_map]
  rfl

theorem aliases_addTypename : document.addTypename.aliases = document.aliases := by
  simp [aliases, operations_addTypename, fragments_addTypename, List.flatMap_map,
    Operation.addTypename, Fragment.addTypename, Selection.allAliases_withTypename]

end Document

end QueryShape.Source
