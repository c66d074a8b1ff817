import QueryShape.Proofs.Flat.AddedInline
import QueryShape.Proofs.Flat.ShownAt
import QueryShape.Proofs.Schema.OutputTypes
import QueryShape.Proofs.Typed.Typename
import QueryShape.Proofs.Typed.WellFormed

/-!
# Nodes with `__typename` fields added

The flat form of selection sets with `__typename` fields added shows everything that is shown
without them, and nothing else but these fields. The exception is the response name `__typename`
itself: added fields are not held against fields of another name that are selected under it, and
those that come first take the place of these fields and of everything inside of them. Every node
that is not under this name keeps its inline fragments.
-/

set_option autoImplicit false

namespace QueryShape.Flat

open Typed (SelectionSet Step)

structure FieldHead.IsTypename (head : FieldHead) : Prop where
  responseName : head.responseName = "__typename"
  fieldName : head.fieldName = "__typename"

/-- Both fields are the same and have the same fragments inside, whatever fields there are inside.
-/
structure Field.Keeps (field other : Field) : Prop where
  head : other.head = field.head
  spreads : other.selection?.map (·.spreads) = field.selection?.map (·.spreads)

/-- No step of the path is under the response name `__typename`. -/
def AvoidsTypename (path : List Step) : Prop :=
  ∀ step ∈ path, step.key ≠ "__typename"

/-- No field that the node shows at any depth has the response name `__typename` and another name.
-/
def Selection.IsUnmasked (schema : Schema) (type : String) (node : Selection) : Prop :=
  ∀ path field, node.ShowsAt schema type path field → field.responseName = "__typename" →
    field.head.fieldName = "__typename"

structure Document.IsUnmasked (schema : Schema) (document : Document) : Prop where
  operation : ∀ operation ∈ document.operations,
    operation.selection.IsUnmasked schema operation.rootType
  fragment : ∀ fragment ∈ document.fragments, fragment.selection.IsUnmasked schema fragment.type

/-- What is at the path in the tree below the node, the node itself if there are no steps. -/
inductive Selection.NodeAt (schema : Schema) (type : String) (node : Selection) :
    List Step → Selection → Prop
  | here : NodeAt schema type node [] node
  | inside {path : List Step} {field : Field} {inner : Selection}
      (hshown : node.ShowsAt schema type path field) (hinner : field.selection? = some inner) :
      NodeAt schema type node path inner

/-- The other node, for the same type, is the node with `__typename` fields added. -/
structure Selection.Gains (schema : Schema) (merging : Bool) (type : String)
    (node other : Selection) : Prop where
  spreads : other.spreads = node.spreads
  kept : ∀ path field, AvoidsTypename path → node.ShowsAt schema type path field →
    ∃ gained, other.ShowsAt schema type path gained ∧ field.Keeps gained
  covered : ∀ path gained, AvoidsTypename path → other.ShowsAt schema type path gained →
    ∃ field, node.ShowsAt schema type path field ∧ field.Keeps gained
  /-- Under `__typename` something is shown wherever it was before. -/
  present : ∀ path step field, AvoidsTypename path → step.key = "__typename" →
    node.ShowsAt schema type (step :: path) field →
      ∃ gained, other.ShowsAt schema type (step :: path) gained
  /-- It is an added field, or what it was before apart from conditions. -/
  typename : ∀ path step gained, AvoidsTypename path → step.key = "__typename" →
    other.ShowsAt schema type (step :: path) gained →
      gained.head.IsTypename ∨ ∃ field, node.ShowsAt schema type (step :: path) field ∧
        ∃ isConditional conditions, gained.head = { field.head with isConditional, conditions }
  /-- Without other fields under `__typename`, all fields with other names are kept. -/
  unmasked : schema.body? "String" = some .scalar → node.IsUnmasked schema type →
    ∀ path field, node.ShowsAt schema type path field → field.head.fieldName ≠ "__typename" →
      ∃ gained, other.ShowsAt schema type path gained ∧ field.Keeps gained
  inline : ∀ path inner, AvoidsTypename path → node.NodeAt schema type path inner →
    ∃ otherInner, other.NodeAt schema type path otherInner ∧ inner.GainsInline merging otherInner
  /-- Without other fields under `__typename`, there are no nodes there. -/
  avoided : schema.body? "String" = some .scalar → node.IsUnmasked schema type →
    ∀ path inner, node.NodeAt schema type path inner → AvoidsTypename path

/-- Apart from what is printed, the other operation is the operation with `__typename` fields added,
at its root only through fragments that are merged in. -/
structure Operation.Gains (schema : Schema) (merging : Bool) (operation other : Operation) :
    Prop where
  rest : other = { operation with
    source := other.source
    selection := other.selection
    sourceWithFragments := other.sourceWithFragments
    operationId := other.operationId }
  selection : operation.selection.Gains schema merging operation.rootType other.selection
  root : merging = false ∨ operation.selection.spreads = [] →
    ∀ type ∈ schema.possibleTypes operation.rootType, ∀ key,
      Option.Rel Field.Keeps (operation.selection.fieldFor? type key)
        (other.selection.fieldFor? type key)

structure Fragment.Gains (schema : Schema) (merging : Bool) (fragment other : Fragment) :
    Prop where
  rest : other = { fragment with source := other.source, selection := other.selection }
  selection : fragment.selection.Gains schema merging fragment.type other.selection

structure Document.Gains (schema : Schema) (merging : Bool) (document other : Document) : Prop where
  operations :
    List.Forall₂ (Operation.Gains schema merging) document.operations other.operations
  fragments : List.Forall₂ (Fragment.Gains schema merging) document.fragments other.fragments
  typesUsed : schema.body? "String" = some .scalar → other.typesUsed = document.typesUsed

/-- Both nodes are flat forms of the same pieces, those of the other one with `__typename` fields
added. -/
inductive Extended (schema : Schema) (options otherOptions : Options)
    (document extended : Typed.Document) (type : String) (node other : Selection) : Prop
  | of_pieces {inside : Bool} {pieces others : List SelectionSet}
      (hgains : List.Forall₂ (SelectionSet.Gains inside) pieces others)
      (hnode : MadeOf schema options document type pieces node)
      (hother : MadeOf schema otherOptions extended type others other) :
      Extended schema options otherOptions document extended type node other

structure Field.ExtendedTo (schema : Schema) (options otherOptions : Options)
    (document extended : Typed.Document) (field other : Field) : Prop where
  head : other.head = field.head
  inner : Option.Rel
    (Extended schema options otherOptions document extended field.head.type.innermost)
    field.selection? other.selection?

section

variable {schema : Schema} {options : Options} {document : Typed.Document}

theorem IsMergedFrom.selection?_of_typename (hsound : document.IsSound schema)
    (hstring : schema.body? "String" = some .scalar) {members : List Typed.Selected}
    {field : Field} (h : IsMergedFrom options document members field)
    (hname : field.head.fieldName = "__typename") : field.selection? = none := by
  obtain ⟨first, rest, rfl, hfirstName, _⟩ := h.exists_first
  have hfirst := h.composes first List.mem_cons_self
  obtain ⟨_, parent, definition, aliasName, name, arguments, hdefinition, hhead, _⟩ :=
    Typed.Document.exists_fitsOn hsound.fits hfirst
  obtain ⟨set, hset, hmem⟩ := hfirst
  obtain ⟨hnests, _⟩ := (Typed.Selection.allFit_iff.mp (hsound.fits set hset) _ hmem).field
  rw [hhead] at hfirstName
  obtain rfl : name = "__typename" := hfirstName.symm.trans hname
  obtain rfl : Schema.typenameField = definition := Option.some.inj hdefinition
  rw [hhead] at hnests
  rw [← Option.not_isSome_iff_eq_none, h.isSome_selection?, hnests]
  exact Bool.eq_false_iff.mp (Schema.isComposite_of_scalar hstring)

variable {type : String} {node : Selection} {pieces : List SelectionSet}
  (hsound : document.IsSound schema) (hnames : document.HasNames)
  (h : MadeOf schema options document type pieces node)
include hsound h

theorem MadeOf.followsNone {follow : Bool} (htype : schema.possibleTypes type = [type])
    (hnone : follow = false ∨ node.spreads = []) :
    Typed.Selection.FollowsNone follow type (pieces.flatMap (·.selections)) := by
  rintro rfl name hspreads
  have hlisted : name ∈ SelectionSet.spreadNames ⟨schema.possibleTypes type,
      pieces.flatMap (·.selections)⟩ :=
    SelectionSet.mem_spreadNamesFor.mpr (htype.symm ▸ hspreads)
  rw [← h.spreads_eq hsound, hnone.resolve_left (by decide)] at hlisted
  exact List.not_mem_nil hlisted

include hnames

theorem MadeOf.avoidsTypename (hstring : schema.body? "String" = some .scalar)
    (hunmasked : node.IsUnmasked schema type) {path : List Step} {field : Field}
    (hshown : node.ShowsAt schema type path field)
    (hother : field.head.fieldName ≠ "__typename" ∨ field.selection? ≠ none) :
    AvoidsTypename path := by
  have hlast : ∀ {path : List Step} {step : Step} {field : Field},
      node.ShowsAt schema type (step :: path) field →
        field.head.fieldName ≠ "__typename" ∨ field.selection? ≠ none →
          step.key ≠ "__typename" := by
    intro path step field hshown hother hkey
    have hname := hunmasked _ field hshown (hshown.responseName.trans hkey)
    obtain ⟨members, hmembers⟩ := h.exists_members_at hsound hnames hshown
    rcases hother with hne | hsome
    · exact hne hname
    · exact hsome (hmembers.selection?_of_typename hsound hstring hname)
  -- A step that is not the last one shows a field with something inside.
  induction hshown with
  | field htype hfield =>
    exact List.forall_mem_singleton.mpr (hlast (.field htype hfield) hother)
  | nested houter hinner htype hfield ih =>
    refine List.forall_mem_cons.mpr ⟨hlast (.nested houter hinner htype hfield) hother, ?_⟩
    exact ih (Or.inr (by simp [hinner]))

theorem MadeOf.isUnmasked {aliases : List String}
    (hnamed : ∀ head ∈ document.heads, head.IsNamedIn aliases)
    (haliases : "__typename" ∉ aliases) : node.IsUnmasked schema type := by
  intro path field hshown hname
  obtain ⟨members, hmembers⟩ := h.exists_members_at hsound hnames hshown
  obtain ⟨first, rest, rfl, _, _, hhead⟩ := hmembers.exists_head
  have hmem := Typed.Document.head_mem_heads (hmembers.composes first List.mem_cons_self)
  have hfirst := hnamed _ hmem
  have hresponse : first.field.head.responseKey = "__typename" := by
    rw [← responseName_ofTyped (hnames.of_mem_heads _ hmem), ← hname, Field.responseName, hhead]
  rw [hhead]
  cases halias : first.field.head.aliasName with
  | some aliasName =>
    rw [hfirst.responseKey, halias, Option.getD_some] at hresponse
    exact absurd (hresponse ▸ hfirst.mem_aliases aliasName halias) haliases
  | none =>
    rw [hfirst.responseKey, halias, Option.getD_none] at hresponse
    exact hresponse

end

section

variable {schema : Schema} {options otherOptions : Options} {document extended : Typed.Document}
  {type : String} {node other : Selection} {field gained : Field}

variable (hextension : IsExtension schema options otherOptions document extended)
include hextension

theorem Extended.spreads_eq
    (h : Extended schema options otherOptions document extended type node other) :
    other.spreads = node.spreads := by
  obtain ⟨hgains, hnode, hother⟩ := h
  rw [hnode.spreads_eq hextension.sound, hother.spreads_eq hextension.otherSound]
  exact SelectionSet.Gains.spreadNames_eq ⟨rfl, Typed.Selection.Gains.flatMap hgains⟩

theorem Field.ExtendedTo.keeps
    (h : field.ExtendedTo schema options otherOptions document extended gained) :
    field.Keeps gained :=
  ⟨h.head, map_eq_of_rel h.inner fun _ _ => Extended.spreads_eq hextension⟩

theorem extendedTo_of_forall₂ {members others : List Typed.Selected}
    (h : List.Forall₂ Typed.Selected.Corresponds members others)
    (hfield : IsMergedFrom options document members field)
    (hgained : IsMergedFrom otherOptions extended others gained) :
    field.ExtendedTo schema options otherOptions document extended gained := by
  obtain ⟨merged, hmerged, hflat⟩ := hfield.merges
  obtain ⟨otherMerged, hotherMerged, hotherFlat⟩ := hgained.merges
  have hgains : merged.Gains otherMerged := by
    have hconditional : List.Forall₂ Typed.Field.Gains (members.map Typed.Selected.conditional)
        (others.map Typed.Selected.conditional) := by
      rw [List.forall₂_map_left_iff, List.forall₂_map_right_iff]
      exact h.imp fun _ _ => Typed.Selected.Corresponds.conditional
    have hrel := Typed.Field.Gains.mergeAll hconditional
    rw [hmerged, hotherMerged] at hrel
    cases hrel with
    | some hgains => exact hgains
  have hhead : gained.head = field.head := by
    rw [head_of_ofTyped hflat, head_of_ofTyped hotherFlat, hgains.head]
  refine ⟨hhead, ?_⟩
  have hsome : gained.selection?.isSome = field.selection?.isSome := by
    rw [isSome_selection?_of_ofTyped hflat, isSome_selection?_of_ofTyped hotherFlat]
    exact isSome_eq_of_rel hgains.selectionSet
  refine rel_of_isSome_eq hsome fun inner otherInner hinner hotherInner => ?_
  have hpieces : List.Forall₂ (SelectionSet.Gains true)
      (members.filterMap (·.field.selectionSet)) (others.filterMap (·.field.selectionSet)) :=
    List.rel_filterMap (fun _ _ hcorresponds => hcorresponds.field.selectionSet) h
  exact .of_pieces hpieces (hfield.madeOf hextension.sound hinner)
    (hhead ▸ hgained.madeOf hextension.otherSound hotherInner)

theorem rel_fieldFor?_of_forall₂ {selected others : List Typed.Selected} {shownType : String}
    (hnode : node.Merges options document shownType selected)
    (hother : other.Merges otherOptions extended shownType others) {key : String}
    (h : List.Forall₂ Typed.Selected.Corresponds
      (selected.filter (·.field.responseKey = key)) (others.filter (·.field.responseKey = key))) :
    Option.Rel (Field.ExtendedTo schema options otherOptions document extended)
      (node.fieldFor? shownType key) (other.fieldFor? shownType key) := by
  have hsome : (other.fieldFor? shownType key).isSome = (node.fieldFor? shownType key).isSome := by
    rw [Bool.eq_iff_iff, hnode.isSome_iff, hother.isSome_iff, Ne, Ne,
      List.eq_nil_iff_length_eq_zero, List.eq_nil_iff_length_eq_zero, h.length_eq]
  refine rel_of_isSome_eq hsome fun field gained hfield hgained => ?_
  exact extendedTo_of_forall₂ hextension h (hnode.isMergedFrom key field hfield)
    (hother.isMergedFrom key gained hgained)

/-- For a type the other node shows what the node shows, with `__typename` fields added if it is
inside or a spread is followed. -/
theorem exists_gains {inside : Bool} {pieces others : List SelectionSet}
    (hgains : List.Forall₂ (SelectionSet.Gains inside) pieces others)
    (hnode : MadeOf schema options document type pieces node)
    (hother : MadeOf schema otherOptions extended type others other) {shownType : String}
    (htype : shownType ∈ schema.possibleTypes type) {into : Bool}
    (hinside : inside = true → into = true)
    (hnone : into = false → Typed.Selection.FollowsNone options.mergeSpreadFields shownType
      (pieces.flatMap (·.selections))) :
    ∃ selected gained, node.Merges options document shownType selected ∧
      other.Merges otherOptions extended shownType gained ∧
      Typed.Selected.Gains into selected gained := by
  obtain ⟨selected, hselects, hmerges⟩ :=
    hnode.exists_selects hextension.sound hextension.names htype
  obtain ⟨gained, hotherSelects, hotherMerges⟩ :=
    hother.exists_selects hextension.otherSound hextension.otherNames htype
  rw [hextension.mergeSpreadFields] at hotherSelects
  exact ⟨selected, gained, hmerges, hotherMerges, hextension.gains.selects hotherSelects
    (Typed.Selection.Gains.flatMap hgains) hselects hinside hnone⟩

theorem Extended.rel_fieldFor?
    (h : Extended schema options otherOptions document extended type node other) {step : Step}
    (htype : step.type ∈ schema.possibleTypes type) (hkey : step.key ≠ "__typename") :
    Option.Rel (Field.ExtendedTo schema options otherOptions document extended)
      (node.fieldFor? step.type step.key) (other.fieldFor? step.type step.key) := by
  obtain ⟨hpieces, hnode, hother⟩ := h
  obtain ⟨selected, gained, hmerges, hotherMerges, hgains⟩ :=
    exists_gains hextension hpieces hnode hother htype
      (fun _ => rfl) (fun hinto => absurd hinto (by decide))
  apply rel_fieldFor?_of_forall₂ hextension hmerges hotherMerges
  refine (hgains.filter step.key).forall₂ fun _ member hmember htypename => hkey ?_
  have hmemberKey : member.field.responseKey = step.key := by
    simpa using (List.mem_filter.mp hmember).2
  exact hmemberKey.symm.trans htypename.responseKey

theorem Extended.typename
    (h : Extended schema options otherOptions document extended type node other)
    {shownType : String} (htype : shownType ∈ schema.possibleTypes type) :
    (∀ field, node.fieldFor? shownType "__typename" = some field →
      ∃ gained, other.fieldFor? shownType "__typename" = some gained) ∧
    ∀ gained, other.fieldFor? shownType "__typename" = some gained →
      gained.head.IsTypename ∨ ∃ field, node.fieldFor? shownType "__typename" = some field ∧
        ∃ isConditional conditions,
          gained.head = { field.head with isConditional, conditions } := by
  obtain ⟨hpieces, hnode, hother⟩ := h
  obtain ⟨selected, others, hmerges, hotherMerges, hgains⟩ :=
    exists_gains hextension hpieces hnode hother htype
      (fun _ => rfl) (fun hinto => absurd hinto (by decide))
  have hunder := hgains.filter "__typename"
  constructor
  · intro field hfield
    rw [← Option.isSome_iff_exists, hotherMerges.isSome_iff]
    exact hunder.ne_nil ((hmerges.isSome_iff _).mp (Option.isSome_iff_exists.mpr ⟨field, hfield⟩))
  · intro gained hgained
    obtain ⟨first, rest, hfirst, isConditional, conditions, hhead⟩ :=
      (hotherMerges.isMergedFrom _ gained hgained).exists_head
    rw [hfirst] at hunder
    -- The first member decides what is shown; if it is no added one, it was the first one before.
    generalize hmembers : selected.filter (·.field.responseKey = "__typename") = members at hunder
    cases hunder with
    | added htypename =>
      left
      rw [hhead]
      refine ⟨?_, htypename.name⟩
      simp only [FieldHead.ofTyped, htypename.aliasName, htypename.name]
    | @kept _ original _ hfield checks others _ _ =>
      right
      obtain ⟨field, hshown⟩ := Option.isSome_iff_exists.mp
        ((hmerges.isSome_iff _).mpr (hmembers ▸ List.cons_ne_nil _ _))
      obtain ⟨_, _, hcons, _, _, hfieldHead⟩ := (hmerges.isMergedFrom _ field hshown).exists_head
      obtain ⟨rfl, rfl⟩ := List.cons.inj (hmembers.symm.trans hcons)
      refine ⟨field, hshown, isConditional, conditions, ?_⟩
      rw [hhead, hfieldHead, hfield.head]

theorem Extended.exists_around
    (h : Extended schema options otherOptions document extended type node other) {path : List Step}
    (hpath : AvoidsTypename path) {step : Step} {field : Field}
    (hshown : node.ShowsAt schema type (step :: path) field) :
    ∃ around inner otherInner,
      Extended schema options otherOptions document extended around inner otherInner ∧
      step.type ∈ schema.possibleTypes around ∧ inner.fieldFor? step.type step.key = some field ∧
      ∀ gained, otherInner.fieldFor? step.type step.key = some gained →
        other.ShowsAt schema type (step :: path) gained := by
  have hsimulation : IsSimulation schema (·.key ≠ "__typename")
      (Extended schema options otherOptions document extended) := by
    intro type node other h step htype hkey field hfield
    have hrel := h.rel_fieldFor? hextension htype hkey
    obtain ⟨gained, hgained, hextends⟩ := exists_eq_some_of_rel hrel hfield
    exact ⟨gained, hgained, congrArg (·.type) hextends.head,
      fun _ => exists_eq_some_of_rel hextends.inner⟩
  obtain ⟨_, around, inner, otherInner, hstep, hrest⟩ := hshown.exists_related hsimulation h hpath
  obtain rfl := Option.some.inj hstep
  exact ⟨around, inner, otherInner, hrest⟩

theorem Extended.exists_other_around
    (h : Extended schema options otherOptions document extended type node other) {path : List Step}
    (hpath : AvoidsTypename path) {step : Step} {gained : Field}
    (hshown : other.ShowsAt schema type (step :: path) gained) :
    ∃ around inner otherInner,
      Extended schema options otherOptions document extended around inner otherInner ∧
      step.type ∈ schema.possibleTypes around ∧
      otherInner.fieldFor? step.type step.key = some gained ∧
      ∀ field, inner.fieldFor? step.type step.key = some field →
        node.ShowsAt schema type (step :: path) field := by
  have hsimulation : IsSimulation schema (·.key ≠ "__typename") fun type other node =>
      Extended schema options otherOptions document extended type node other := by
    intro type other node h step htype hkey gained hgained
    have hrel := h.rel_fieldFor? hextension htype hkey
    obtain ⟨field, hfield, hextends⟩ := exists_eq_some_of_rel_right hrel hgained
    refine ⟨field, hfield, (congrArg (·.type) hextends.head).symm, fun otherInner hotherInner => ?_⟩
    obtain ⟨inner, hinner, hrelated⟩ := exists_eq_some_of_rel_right hextends.inner hotherInner
    exact ⟨inner, hinner, hextends.head ▸ hrelated⟩
  obtain ⟨_, around, otherInner, inner, hstep, hrest⟩ :=
    hshown.exists_related hsimulation h hpath
  obtain rfl := Option.some.inj hstep
  exact ⟨around, inner, otherInner, hrest⟩

theorem Extended.gainsInline
    (h : Extended schema options otherOptions document extended type node other) :
    node.GainsInline options.mergeSpreadFields other := by
  obtain ⟨hgains, hnode, hother⟩ := h
  exact MadeOf.gainsInline hextension hgains hnode hother

theorem Extended.exists_nodeAt
    (h : Extended schema options otherOptions document extended type node other) {path : List Step}
    (hpath : AvoidsTypename path) {inner : Selection}
    (hinner : node.NodeAt schema type path inner) :
    ∃ around otherInner, other.NodeAt schema type path otherInner ∧
      Extended schema options otherOptions document extended around inner otherInner := by
  cases hinner with
  | here => exact ⟨type, other, .here, h⟩
  | @inside _ field _ hshown hinner =>
    obtain ⟨step, path, rfl⟩ := hshown.exists_cons
    obtain ⟨hkey, hpath⟩ := List.forall_mem_cons.mp hpath
    obtain ⟨around, outer, otherOuter, hextends, htype, hfield, hshows⟩ :=
      h.exists_around hextension hpath hshown
    have hrel := hextends.rel_fieldFor? hextension htype hkey
    obtain ⟨gained, hgained, hsame⟩ := exists_eq_some_of_rel hrel hfield
    obtain ⟨otherInner, hotherInner, hinside⟩ := exists_eq_some_of_rel hsame.inner hinner
    exact ⟨field.head.type.innermost, otherInner, .inside (hshows gained hgained) hotherInner,
      hinside⟩

theorem Extended.gains
    (h : Extended schema options otherOptions document extended type node other) :
    node.Gains schema options.mergeSpreadFields type other := by
  have hkept : ∀ path field, AvoidsTypename path → node.ShowsAt schema type path field →
      ∃ gained, other.ShowsAt schema type path gained ∧ field.Keeps gained := by
    intro path field hpath hshown
    obtain ⟨step, path, rfl⟩ := hshown.exists_cons
    obtain ⟨hkey, hpath⟩ := List.forall_mem_cons.mp hpath
    obtain ⟨around, inner, otherInner, hextends, htype, hfield, hshows⟩ :=
      h.exists_around hextension hpath hshown
    have hrel :=
      hextends.rel_fieldFor? hextension htype hkey
    obtain ⟨gained, hgained, hsame⟩ := exists_eq_some_of_rel hrel hfield
    exact ⟨gained, hshows gained hgained, hsame.keeps hextension⟩
  constructor
  · exact h.spreads_eq hextension
  · exact hkept
  · intro path gained hpath hshown
    obtain ⟨step, path, rfl⟩ := hshown.exists_cons
    obtain ⟨hkey, hpath⟩ := List.forall_mem_cons.mp hpath
    obtain ⟨around, inner, otherInner, hextends, htype, hgained, hshows⟩ :=
      h.exists_other_around hextension hpath hshown
    have hrel :=
      hextends.rel_fieldFor? hextension htype hkey
    obtain ⟨field, hfield, hsame⟩ := exists_eq_some_of_rel_right hrel hgained
    exact ⟨field, hshows field hfield, hsame.keeps hextension⟩
  · intro path step field hpath hkey hshown
    obtain ⟨around, inner, otherInner, hextends, htype, hfield, hshows⟩ :=
      h.exists_around hextension hpath hshown
    rw [hkey] at hfield hshows
    obtain ⟨gained, hgained⟩ :=
      (hextends.typename hextension htype).1 field hfield
    exact ⟨gained, hshows gained hgained⟩
  · intro path step gained hpath hkey hshown
    obtain ⟨around, inner, otherInner, hextends, htype, hgained, hshows⟩ :=
      h.exists_other_around hextension hpath hshown
    rw [hkey] at hgained hshows
    refine ((hextends.typename hextension htype).2 gained
      hgained).imp_right ?_
    rintro ⟨field, hfield, hhead⟩
    exact ⟨field, hshows field hfield, hhead⟩
  · intro hstring hunmasked path field hshown hname
    obtain ⟨_, hnode, _⟩ := h
    exact hkept path field (hnode.avoidsTypename hextension.sound hextension.names hstring
      hunmasked hshown (Or.inl hname)) hshown
  · intro path inner hpath hinner
    obtain ⟨_, otherInner, hotherInner, hextends⟩ := h.exists_nodeAt hextension hpath hinner
    exact ⟨otherInner, hotherInner, hextends.gainsInline hextension⟩
  · intro hstring hunmasked path inner hinner
    cases hinner with
    | here => exact List.forall_mem_nil _
    | inside hshown hinner =>
      obtain ⟨_, hnode, _⟩ := h
      exact hnode.avoidsTypename hextension.sound hextension.names hstring hunmasked hshown
        (Or.inr (by simp [hinner]))

end

end QueryShape.Flat
