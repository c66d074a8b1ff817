import QueryShape.Proofs.Flat.TypeCase
import QueryShape.Proofs.Typed.Compiled

/-!
# Selection sets that are flattened

Flattening a document starts from the selection sets of its operations and fragments and goes on to
the sets inside the fields of their nodes. In a closed document all of these spread defined
fragments only, and their fields are named as they are written if those of the document are.
-/

set_option autoImplicit false

namespace QueryShape.Typed

theorem Field.isNamed_of_mergeAll {fields : List Field} {merged : Field}
    (hnamed : ∀ field ∈ fields, field.head.IsNamed) (h : mergeAll fields = some merged) :
    merged.head.IsNamed := by
  induction fields using List.reverseRecOn generalizing merged with
  | nil => cases h
  | append_singleton fields field ih =>
    rw [mergeAll_append_singleton] at h
    rw [← Option.some.inj h]
    cases hfirst : mergeAll fields with
    | none => exact hnamed field (by simp)
    | some first =>
      have hnamed : first.head.IsNamed :=
        ih (fun field hfield => hnamed field (by simp [hfield])) hfirst
      exact hnamed

theorem Selected.isNamed_conditional (selected : Selected) :
    selected.conditional.head.IsNamed ↔ selected.field.head.IsNamed := by
  rw [head_conditional, FieldHead.under]
  split <;> rfl

theorem Document.Selects.isNamed {document : Document} (hnames : document.HasNames) {follow : Bool}
    {type : String} {checks : List Check} {types : List String} {selections : List Selection}
    {selected : List Selected} (h : document.Selects follow type checks types selections selected)
    (hall : ∀ head ∈ Selection.allHeads selections, head.IsNamed) :
    ∀ member ∈ selected, ∀ head ∈ member.field.toSelection.heads, head.IsNamed := by
  have hmem : ∀ {selections : List Selection},
      (∀ head ∈ Selection.allHeads selections, head.IsNamed) →
        ∀ selection ∈ selections, ∀ head ∈ selection.heads, head.IsNamed :=
    fun hall selection hselection head hhead =>
      hall head (Selection.mem_allHeads.mpr ⟨selection, hselection, hhead⟩)
  apply h.inherits fun selection => ∀ head ∈ selection.heads, head.IsNamed
  · exact fun _ _ _ => hmem
  · exact fun _ _ _ => hmem
  · intro _ name fragment hfragment _
    exact hmem (hnames.fragment fragment (mem_of_fragment? hfragment).1)
  · exact hmem hall

end QueryShape.Typed

namespace QueryShape.Flat

open Typed (FragmentError SelectionSet Record TypeCase)

/-- The selection sets that flattening a document flattens: those of operations and fragments, and
inside a flattened one those of the default fields and of the records with inline fragments. -/
inductive IsFlattened (options : Options) (document : Typed.Document) : SelectionSet → Prop
  | operation {operation : Typed.Operation} (hoperation : operation ∈ document.operations) :
      IsFlattened options document operation.selectionSet
  | fragment {fragment : Typed.Fragment} (hfragment : fragment ∈ document.fragments) :
      IsFlattened options document fragment.selectionSet
  | nested {set nested : SelectionSet} {typeCase : TypeCase} {record : Record} {field : Typed.Field}
      (hset : IsFlattened options document set)
      (htypeCase : typeCaseOf options document set = .ok typeCase)
      (hrecord : record = typeCase.defaultRecord ∨
        record ∈ typeCase.records ∧ needsInlineFragments options set record = true)
      (hfield : field ∈ record.fields) (hnested : field.selectionSet = some nested) :
      IsFlattened options document nested

section

variable {options : Options} {document : Typed.Document} {set : SelectionSet} {typeCase : TypeCase}

theorem mem_fields_of_mem_record {record : Record} {field : Typed.Field}
    (hrecord : record = typeCase.defaultRecord ∨
      record ∈ typeCase.records ∧ needsInlineFragments options set record = true)
    (hfield : field ∈ record.fields) : field ∈ typeCase.fields := by
  rcases hrecord with rfl | ⟨hrecord, _⟩
  · exact TypeCase.mem_fields.mpr (Or.inl hfield)
  · exact TypeCase.mem_fields.mpr (Or.inr ⟨record, hrecord, hfield⟩)

theorem IsFlattened.defines (h : IsFlattened options document set) (hclosed : document.IsClosed) :
    document.Defines set.selections := by
  induction h with
  | operation hoperation => exact hclosed.operation _ hoperation
  | fragment hfragment => exact hclosed.fragment _ hfragment
  | nested _ htypeCase hrecord hfield hnested ih =>
    exact defines_nested htypeCase hclosed ih (mem_fields_of_mem_record hrecord hfield) hnested

theorem IsFlattened.hasNames (h : IsFlattened options document set) (hnames : document.HasNames) :
    ∀ head ∈ Typed.Selection.allHeads set.selections, head.IsNamed := by
  induction h with
  | operation hoperation => exact hnames.operation _ hoperation
  | fragment hfragment => exact hnames.fragment _ hfragment
  | nested _ htypeCase hrecord hfield hnested ih =>
    intro head hhead
    obtain ⟨type, _, selected, hselects, _, horigin⟩ :=
      exists_origins_of_mem_fields htypeCase (mem_fields_of_mem_record hrecord hfield) hnested
    obtain ⟨selection, hselection, hhead⟩ := Typed.Selection.mem_allHeads.mp hhead
    obtain ⟨origin, horigin, inner, hinner, hmem⟩ := horigin selection hselection
    have hnamed := hselects.isNamed hnames ih origin horigin
    rw [Typed.Field.toSelection, hinner] at hnamed
    exact hnamed head (List.mem_cons_of_mem _
      (Typed.Selection.mem_allHeads.mpr ⟨selection, hmem, hhead⟩))

theorem isNamed_of_mem_fields (htypeCase : typeCaseOf options document set = .ok typeCase)
    (hnames : document.HasNames)
    (hset : ∀ head ∈ Typed.Selection.allHeads set.selections, head.IsNamed) :
    ∀ field ∈ typeCase.fields, field.head.IsNamed := by
  intro field hfield
  obtain ⟨type, _, selected, hselects, fields, hmerge, horigin⟩ :=
    exists_selected_of_mem_fields htypeCase hfield
  apply Typed.Field.isNamed_of_mergeAll _ hmerge
  intro member hmember
  obtain ⟨origin, hmem, rfl⟩ := horigin member hmember
  rw [Typed.Selected.isNamed_conditional]
  have hnamed := hselects.isNamed hnames hset origin hmem
  rw [Typed.Field.toSelection] at hnamed
  cases hselection : origin.field.selectionSet with
  | none =>
    rw [hselection] at hnamed
    exact hnamed _ (List.mem_singleton.mpr rfl)
  | some inner =>
    rw [hselection] at hnamed
    exact hnamed _ List.mem_cons_self

end

end QueryShape.Flat
