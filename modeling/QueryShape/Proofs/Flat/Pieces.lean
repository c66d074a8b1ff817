import QueryShape.Proofs.Flat.Merged
import QueryShape.Proofs.Typed.Paths

/-!
# Nodes made of several selection sets

The fields that are shown under a key are merged from all fields that are selected under it. The
node inside is made of the selection sets of all of them, over the possible types of the first.
-/

set_option autoImplicit false

namespace QueryShape.Flat

open Typed (SelectionSet)

/-- The field is the flat form of fields that the document selects, merged in order. -/
structure IsMergedFrom (options : Options) (document : Typed.Document)
    (members : List Typed.Selected) (field : Field) : Prop where
  composes : ∀ member ∈ members, ∃ set, document.HasSet set ∧
    member.field.toSelection ∈ set.selections
  merges : ∃ merged, Typed.Field.mergeAll (members.map Typed.Selected.conditional) = some merged ∧
    Field.ofTyped (flatten options document) merged = .ok field

/-- The node is the flat form of the selections of all pieces, over the possible types of the type.
-/
structure MadeOf (schema : Schema) (options : Options) (document : Typed.Document) (type : String)
    (pieces : List SelectionSet) (node : Selection) : Prop where
  hasSet : ∀ piece ∈ pieces, document.HasSet piece
  flat : flatten options document
    ⟨schema.possibleTypes type, pieces.flatMap (·.selections)⟩ = .ok node

/-- For the type the node shows under each key the selected fields under the key, merged. -/
structure Selection.Merges (options : Options) (document : Typed.Document) (node : Selection)
    (type : String) (selected : List Typed.Selected) : Prop where
  isSome_iff : ∀ key, (node.fieldFor? type key).isSome ↔
    selected.filter (·.field.responseKey = key) ≠ []
  isMergedFrom : ∀ key field, node.fieldFor? type key = some field →
    IsMergedFrom options document (selected.filter (·.field.responseKey = key)) field

variable {schema : Schema} {options : Options} {document : Typed.Document}
  {members : List Typed.Selected} {field : Field} {type : String} {pieces : List SelectionSet}
  {node : Selection}

theorem MadeOf.of_hasRoot (hsound : document.IsSound schema) {set : SelectionSet}
    (hroot : document.HasRoot type set) (hnode : flatten options document set = .ok node) :
    MadeOf schema options document type [set] node where
  hasSet piece hpiece := by
    obtain rfl := List.mem_singleton.mp hpiece
    exact .root hroot
  flat := by
    rw [List.flatMap_singleton, ← hsound.roots type set hroot]
    exact hnode

theorem MadeOf.composes (h : MadeOf schema options document type pieces node) :
    document.Composes (pieces.flatMap (·.selections)) := by
  intro selection hselection
  obtain ⟨piece, hpiece, hmem⟩ := List.mem_flatMap.mp hselection
  exact ⟨piece, h.hasSet piece hpiece, hmem⟩

theorem MadeOf.exists_flattenStep (hsound : document.IsSound schema)
    (h : MadeOf schema options document type pieces node) :
    ∃ merged : SelectionSet, merged.possibleTypes = schema.possibleTypes type ∧
      typeCaseOf options document ⟨schema.possibleTypes type, pieces.flatMap (·.selections)⟩ =
        .ok merged.typeCase ∧
      flattenStep options document (flatten options document)
        ⟨schema.possibleTypes type, pieces.flatMap (·.selections)⟩ = .ok node ∧
      ∀ shownType, document.Selects options.mergeSpreadFields shownType []
        (schema.possibleTypes type) (pieces.flatMap (·.selections))
        (merged.selectedFor shownType) := by
  have hdefines := h.composes.defines hsound.closed
  have hnode := h.flat
  rw [flatten_eq hsound.closed (fun _ => hsound.acyclic) hdefines] at hnode
  obtain ⟨typeCase, htypeCase, _⟩ := flattenStep_eq_ok.mp hnode
  obtain ⟨merged, rfl, htypes, hselects⟩ := exists_merged_of_typeCaseOf htypeCase
  exact ⟨merged, htypes, htypeCase, hnode, hselects⟩

theorem MadeOf.spreads_eq (hsound : document.IsSound schema)
    (h : MadeOf schema options document type pieces node) :
    node.spreads = SelectionSet.spreadNames
      ⟨schema.possibleTypes type, pieces.flatMap (·.selections)⟩ := by
  obtain ⟨_, _, _, hnode, _⟩ := h.exists_flattenStep hsound
  obtain ⟨_, _, _, _, _, _, rfl⟩ := flattenStep_eq_ok.mp hnode
  rfl

namespace IsMergedFrom

theorem exists_head (h : IsMergedFrom options document members field) :
    ∃ first rest, members = first :: rest ∧ ∃ isConditional conditions,
      field.head = { FieldHead.ofTyped first.field.head with isConditional, conditions } := by
  obtain ⟨merged, hmerged, hflat⟩ := h.merges
  cases members with
  | nil => cases hmerged
  | cons first rest =>
    obtain ⟨_, _, hmergedHead⟩ := Typed.Field.exists_head_mergeAll hmerged
    obtain ⟨_, _, hfirstHead⟩ := first.exists_head_conditional
    refine ⟨first, rest, rfl, ?_⟩
    rw [head_of_ofTyped hflat, hmergedHead, hfirstHead]
    exact ⟨_, _, rfl⟩

theorem exists_first (h : IsMergedFrom options document members field) :
    ∃ first rest, members = first :: rest ∧ field.head.fieldName = first.field.head.name ∧
      field.head.type = first.field.head.type := by
  obtain ⟨first, rest, hmembers, _, _, hhead⟩ := h.exists_head
  exact ⟨first, rest, hmembers, by rw [hhead]; rfl, by rw [hhead]; rfl⟩

theorem isSome_selection? {first : Typed.Selected} {rest : List Typed.Selected}
    (h : IsMergedFrom options document (first :: rest) field) :
    field.selection?.isSome = first.field.selectionSet.isSome := by
  obtain ⟨merged, hmerged, hflat⟩ := h.merges
  have hjoined : merged.selectionSet =
      Typed.Field.joined? ((first :: rest).map Typed.Selected.conditional) := by
    rw [← Typed.Field.selectionSet_mergeAll, hmerged, Option.bind_some]
  rw [isSome_selection?_of_ofTyped hflat, hjoined, List.map_cons, Typed.Field.joined?,
    Option.isSome_map, Typed.Selected.selectionSet_conditional]

variable (hsound : document.IsSound schema)
include hsound

theorem isConditional_iff (h : IsMergedFrom options document members field) :
    field.head.isConditional = true ↔ ∀ member ∈ members, member.checks ≠ [] := by
  obtain ⟨merged, hmerged, hflat⟩ := h.merges
  have hplain : ∀ member ∈ members, member.field.head.IsPlain := by
    intro member hmember
    obtain ⟨_, hfits⟩ := Typed.Document.exists_fitsOn hsound.fits (h.composes member hmember)
    exact hfits.isPlain
  have hsame : field.head.isConditional = merged.head.isConditional := by
    rw [head_of_ofTyped hflat]
    rfl
  rw [hsame, Typed.Field.isConditional_mergeAll hmerged, List.forall_mem_map]
  apply forall₂_congr
  intro member hmember
  exact Typed.Selected.isConditional_conditional (hplain member hmember)

theorem hasSet_of_mem (h : IsMergedFrom options document members field)
    {member : Typed.Selected} (hmember : member ∈ members) {piece : SelectionSet}
    (hpiece : member.field.selectionSet = some piece) :
    document.HasSet piece ∧
      piece.possibleTypes = schema.possibleTypes member.field.head.type.innermost :=
  hsound.hasSet_of_field (h.composes member hmember) hpiece

theorem madeOf (h : IsMergedFrom options document members field)
    (hnode : field.selection? = some node) :
    MadeOf schema options document field.head.type.innermost
      (members.filterMap (·.field.selectionSet)) node := by
  refine ⟨fun piece hmem => ?_, ?_⟩
  · obtain ⟨member, hmember, hpiece⟩ := List.mem_filterMap.mp hmem
    exact (h.hasSet_of_mem hsound hmember hpiece).1
  -- The types of the node are those of the first piece, whatever the others are over.
  obtain ⟨first, rest, rfl, _, htype⟩ := h.exists_first
  obtain ⟨merged, hmerged, hflat⟩ := h.merges
  rcases Flat.ofTyped_field_eq_ok.mp hflat with ⟨_, rfl⟩ | ⟨nested, inner, hnested, hinner, rfl⟩
  · cases hnode
  obtain rfl := Option.some.inj hnode
  have hjoined : Typed.Field.joined? ((first :: rest).map Typed.Selected.conditional) =
      some nested := by
    rw [← Typed.Field.selectionSet_mergeAll, hmerged]
    exact hnested
  obtain ⟨own, hown, rfl⟩ := Option.map_eq_some_iff.mp hjoined
  have htypes := (h.hasSet_of_mem hsound List.mem_cons_self hown).2
  rw [← List.map_cons, Typed.Selected.flatMap_nested_conditional, htypes] at hinner
  rw [htype]
  exact hinner

end IsMergedFrom

theorem MadeOf.exists_selects (hsound : document.IsSound schema) (hnames : document.HasNames)
    (h : MadeOf schema options document type pieces node) {shownType : String}
    (htype : shownType ∈ schema.possibleTypes type) :
    ∃ selected, document.Selects options.mergeSpreadFields shownType []
        (schema.possibleTypes type) (pieces.flatMap (·.selections)) selected ∧
      node.Merges options document shownType selected := by
  have hdefines := h.composes.defines hsound.closed
  obtain ⟨selected, hselects⟩ : ∃ selected, document.Selects options.mergeSpreadFields shownType []
      (schema.possibleTypes type) (pieces.flatMap (·.selections)) selected :=
    Typed.Document.exists_selects hsound.closed (fun _ => hsound.acyclic) hdefines shownType _
  refine ⟨selected, hselects, fun key => ?_, fun key field hfield => ?_⟩
  · rw [isSome_fieldFor? hsound hnames h.composes h.flat htype hselects key, Ne,
      List.filter_eq_nil_iff]
    simp
  · have hrel := rel_fieldFor?_mergedUnder hsound hnames h.composes h.flat htype hselects key
    rw [hfield] at hrel
    generalize hmerged : Typed.Selected.mergedUnder key selected = held at hrel
    cases hrel with
    | some hflat =>
      refine ⟨fun member hmember => ?_, _, ?_, hflat⟩
      · exact hselects.composes h.composes (List.mem_of_mem_filter hmember)
      · rw [← hmerged, Typed.Selected.mergedUnder, Typed.Selected.filter_conditional]

theorem MadeOf.exists_members (hsound : document.IsSound schema) (hnames : document.HasNames)
    (h : MadeOf schema options document type pieces node) {step : Typed.Step}
    (htype : step.type ∈ schema.possibleTypes type)
    (hfield : node.fieldFor? step.type step.key = some field) :
    ∃ members, IsMergedFrom options document members field ∧
      ∀ member, member ∈ members ↔ ∃ piece ∈ pieces,
        document.SelectsField options.mergeSpreadFields piece.selections step member := by
  obtain ⟨selected, hselects, hmerges⟩ := h.exists_selects hsound hnames htype
  refine ⟨_, hmerges.isMergedFrom step.key field hfield, fun member => ?_⟩
  rw [← Typed.Document.selectsField_flatMap hsound.closed (fun _ => hsound.acyclic)
    (fun piece hpiece => (h.hasSet piece hpiece).defines hsound.closed) step member,
    Typed.Document.selectsField_iff hselects htype, List.mem_filter, decide_eq_true_iff]

theorem MadeOf.exists_inside (hsound : document.IsSound schema) (hnames : document.HasNames)
    (h : MadeOf schema options document type pieces node) {step : Typed.Step}
    (htype : step.type ∈ schema.possibleTypes type)
    (hfield : node.fieldFor? step.type step.key = some field) {inner : Selection}
    (hinner : field.selection? = some inner) :
    ∃ sets, MadeOf schema options document field.head.type.innermost sets inner ∧
      ∀ set, set ∈ sets ↔ ∃ piece ∈ pieces, ∃ member,
        document.SelectsField options.mergeSpreadFields piece.selections step member ∧
          member.field.selectionSet = some set := by
  obtain ⟨members, hmembers, hmem⟩ := h.exists_members hsound hnames htype hfield
  refine ⟨_, hmembers.madeOf hsound hinner, fun set => ?_⟩
  rw [List.mem_filterMap]
  constructor
  · rintro ⟨member, hmember, hset⟩
    obtain ⟨piece, hpiece, hselects⟩ := (hmem member).mp hmember
    exact ⟨piece, hpiece, member, hselects, hset⟩
  · rintro ⟨piece, hpiece, member, hselects, hset⟩
    exact ⟨member, (hmem member).mpr ⟨piece, hpiece, hselects⟩, hset⟩

end QueryShape.Flat
