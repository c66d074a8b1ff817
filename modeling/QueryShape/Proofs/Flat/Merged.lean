import QueryShape.Proofs.Flat.Flattened
import QueryShape.Proofs.Flat.Shown
import QueryShape.Proofs.Typed.Fitting

/-!
# Fields of a node are merged from what is selected

The field that a node shows for a type under a key is the flat form of all fields that are selected
for the type under the key, merged in order.
-/

set_option autoImplicit false

namespace QueryShape.Flat

open Typed (SelectionSet)

variable {schema : Schema} {options : Options} {document : Typed.Document} {set : SelectionSet}
  {node : Selection} {type : String} {selected : List Typed.Selected}

theorem rel_fieldFor?_mergedUnder (hsound : document.IsSound schema)
    (hnames : document.HasNames) (hset : document.Composes set.selections)
    (hnode : flatten options document set = .ok node) (htype : type ∈ set.possibleTypes)
    (hselects : document.Selects options.mergeSpreadFields type [] set.possibleTypes set.selections
      selected) (key : String) :
    Option.Rel (fun field flat => Field.ofTyped (flatten options document) field = .ok flat)
      (Typed.Selected.mergedUnder key selected) (node.fieldFor? type key) := by
  rw [flatten_eq hsound.closed (fun _ => hsound.acyclic) (hset.defines hsound.closed)] at hnode
  obtain ⟨typeCase, htypeCase, _⟩ := flattenStep_eq_ok.mp hnode
  have hnamed := isNamed_of_mem_fields htypeCase hnames (hset.hasNames hnames)
  obtain ⟨merged, hmerged, htypes, hall⟩ := exists_merged_of_typeCaseOf htypeCase
  obtain rfl := (hall type).unique hselects
  obtain ⟨record, hrecord, hin⟩ :=
    merged.sorts_typeCase.partition.covered type (htypes.symm ▸ htype)
  have hheld := merged.field_typeCase hrecord hin key
  rw [hmerged] at hrecord hheld
  have hrel := rel_fieldFor? hnode htypeCase hnamed hrecord hin key
  rwa [hheld] at hrel

theorem isSome_fieldFor? (hsound : document.IsSound schema)
    (hnames : document.HasNames) (hset : document.Composes set.selections)
    (hnode : flatten options document set = .ok node) (htype : type ∈ set.possibleTypes)
    (hselects : document.Selects options.mergeSpreadFields type [] set.possibleTypes set.selections
      selected) (key : String) :
    (node.fieldFor? type key).isSome ↔ ∃ member ∈ selected, member.field.responseKey = key := by
  rw [← Typed.Selected.isSome_mergedUnder]
  have hrel := rel_fieldFor?_mergedUnder hsound hnames hset hnode htype hselects key
  generalize Typed.Selected.mergedUnder key selected = held, node.fieldFor? type key = shown
    at hrel ⊢
  cases hrel <;> simp

end QueryShape.Flat
