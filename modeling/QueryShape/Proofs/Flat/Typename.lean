import QueryShape.Compilation
import QueryShape.Proofs.Flat.Added
import QueryShape.Proofs.Flat.Documents
import QueryShape.Proofs.Matched
import QueryShape.Proofs.Schema.Interfaces

/-!
# Adding `__typename` fields

Every document that is compiled can be compiled with `__typename` fields added to the selections of
fields and fragments. Its operations and fragments then have these fields and are the same
otherwise, unless another field is shown under that name: that one may be lost.
-/

set_option autoImplicit false

namespace QueryShape.Flat

open Typed (SelectionSet)

theorem possibleTypes_rootType {schema : Schema} {options : Options} {filePath : Option String}
    {source : Source.Document} {document : Typed.Document}
    (hcompile : Typed.Document.compile schema options filePath source = .ok document)
    {operation : Typed.Operation} (hmem : operation ∈ document.operations) :
    schema.possibleTypes operation.rootType = [operation.rootType] := by
  obtain ⟨htypes, _, htyped⟩ := Typed.Document.isTyped_of_compile hcompile
  obtain ⟨_, _, hsource⟩ := Outcome.exists_of_mem_mapM htyped.operations hmem
  obtain ⟨_, _, root, hroot, _, _, rfl⟩ := Typed.Operation.ofSource_eq_ok.mp hsource
  exact Schema.possibleTypes_of_rootType? htypes hroot

section

variable {schema : Schema} {options otherOptions : Options} {document extended : Typed.Document}
  (hextension : IsExtension schema options otherOptions document extended)
include hextension

theorem ofTyped_fragment_gains {fragment otherFragment : Typed.Fragment}
    (hmem : fragment ∈ document.fragments) (hotherMem : otherFragment ∈ extended.fragments)
    (hgains : fragment.Gains otherFragment) {flat otherFlat : Fragment}
    (hflat : Fragment.ofTyped options document fragment = .ok flat)
    (hother : Fragment.ofTyped otherOptions extended otherFragment = .ok otherFlat) :
    flat.Gains schema options.mergeSpreadFields otherFlat := by
  obtain ⟨node, hnode, rfl⟩ := fragment_ofTyped_eq_ok.mp hflat
  obtain ⟨otherNode, hotherNode, rfl⟩ := fragment_ofTyped_eq_ok.mp hother
  have hmade := MadeOf.of_hasRoot hextension.sound (.fragment hmem) hnode
  have hotherMade := MadeOf.of_hasRoot hextension.otherSound (.fragment hotherMem) hotherNode
  obtain ⟨hrest, hset⟩ := hgains
  have htype : otherFragment.type = fragment.type := by rw [hrest]
  rw [htype] at hotherMade
  constructor
  · rw [hrest, hset.possibleTypes]
  · exact Extended.gains hextension (.of_pieces (.cons hset .nil) hmade hotherMade)

theorem ofTyped_operation_gains {operation otherOperation : Typed.Operation}
    (hmem : operation ∈ document.operations) (hotherMem : otherOperation ∈ extended.operations)
    (hroot : schema.possibleTypes operation.rootType = [operation.rootType])
    (hgains : operation.Gains otherOperation) {flat otherFlat : Operation}
    (hflat : Operation.ofTyped options document operation = .ok flat)
    (hother : Operation.ofTyped otherOptions extended otherOperation = .ok otherFlat) :
    flat.Gains schema options.mergeSpreadFields otherFlat := by
  obtain ⟨names, hnames, identity, _, node, hnode, rfl⟩ := operation_ofTyped_eq_ok.mp hflat
  obtain ⟨otherNames, hotherNames, _, _, otherNode, hotherNode, rfl⟩ :=
    operation_ofTyped_eq_ok.mp hother
  have hmade := MadeOf.of_hasRoot hextension.sound (.operation hmem) hnode
  have hotherMade := MadeOf.of_hasRoot hextension.otherSound (.operation hotherMem) hotherNode
  obtain ⟨hrest, hset⟩ := hgains
  have htype : otherOperation.rootType = operation.rootType := by rw [hrest]
  rw [htype] at hotherMade
  obtain ⟨rfl, _⟩ := Typed.Document.references_eq_ok.mp hnames
  obtain ⟨rfl, _⟩ := Typed.Document.references_eq_ok.mp hotherNames
  constructor
  · rw [hextension.gains.reachableNames_eq hset, hrest]
  · exact Extended.gains hextension (.of_pieces (.cons hset .nil) hmade hotherMade)
  · intro hroots type hin key
    obtain rfl : type = operation.rootType := by simpa [hroot] using hin
    have hnone : Typed.Selection.FollowsNone options.mergeSpreadFields operation.rootType
        ([operation.selectionSet].flatMap (·.selections)) :=
      hmade.followsNone hextension.sound hroot hroots
    obtain ⟨selected, gained, hmerges, hotherMerges, hselected⟩ :
        ∃ selected gained, node.Merges options document operation.rootType selected ∧
          otherNode.Merges otherOptions extended operation.rootType gained ∧
          Typed.Selected.Gains false selected gained :=
      exists_gains hextension (.cons hset .nil) hmade hotherMade hin id fun _ => hnone
    have hunder := (hselected.filter key).forall₂ (fun hfalse => absurd hfalse (by decide))
    exact rel_imp (rel_fieldFor?_of_forall₂ hextension hmerges hotherMerges hunder)
      fun _ _ hextends => hextends.keeps hextension

end

section

variable {schema : Schema} {options : Options} {filePath : Option String}
  {source : Source.Document} {flat : Document}

theorem isUnmasked_of_compile (haliases : "" ∉ source.aliases)
    (htypename : "__typename" ∉ source.aliases)
    (hcompile : Document.compile schema options filePath source = .ok flat) :
    flat.IsUnmasked schema := by
  simp only [Document.compile, Outcome.bind_eq_ok, Outcome.mapError_eq_ok] at hcompile
  obtain ⟨document, hdocument, hflat⟩ := hcompile
  have hsound := Typed.Document.isSound_of_compile hdocument
  have hroot : ∀ {type : String} {set : SelectionSet} {node : Selection},
      document.HasRoot type set → flatten options document set = .ok node →
        node.IsUnmasked schema type :=
    fun hroot hnode => (MadeOf.of_hasRoot hsound hroot hnode).isUnmasked hsound
      (Typed.Document.hasNames_of_compile hdocument haliases)
      (fun _ => Typed.Document.isNamedIn_of_compile hdocument) htypename
  obtain ⟨hoperations, hfragments, _⟩ := document_ofTyped_eq_ok.mp hflat
  constructor
  · intro operation hmem
    obtain ⟨original, horiginal, hof⟩ := exists_of_mem_forall₂ hoperations hmem
    obtain ⟨_, _, _, _, node, hnode, rfl⟩ := operation_ofTyped_eq_ok.mp hof
    exact hroot (.operation horiginal) hnode
  · intro fragment hmem
    obtain ⟨original, horiginal, hof⟩ := exists_of_mem_forall₂ hfragments hmem
    obtain ⟨node, hnode, rfl⟩ := fragment_ofTyped_eq_ok.mp hof
    exact hroot (.fragment horiginal) hnode

theorem exists_gains_of_compile (haliases : "" ∉ source.aliases)
    (hcompile : Document.compile schema { options with addTypename := false } filePath source =
      .ok flat) :
    ∃ other, Document.compile schema { options with addTypename := true } filePath source =
      .ok other ∧ flat.Gains schema options.mergeSpreadFields other := by
  simp only [Document.compile, Outcome.bind_eq_ok, Outcome.mapError_eq_ok] at hcompile ⊢
  obtain ⟨document, hdocument, hflat⟩ := hcompile
  obtain ⟨extended, hextended, hgains, htypes⟩ :=
    Typed.Document.exists_compile_addTypename hdocument
  have hsound := Typed.Document.isSound_of_compile hdocument
  have hotherSound := Typed.Document.isSound_of_compile hextended
  have hextension : IsExtension schema { options with addTypename := false }
      { options with addTypename := true } document extended :=
    ⟨hsound, hotherSound, Typed.Document.hasNames_of_compile hdocument haliases,
      Typed.Document.hasNames_of_compile hextended haliases, hgains, rfl, rfl⟩
  obtain ⟨other, hother⟩ : ∃ other,
      Document.ofTyped { options with addTypename := true } extended = .ok other :=
    exists_document_ofTyped hotherSound.closed fun _ => hotherSound.acyclic
  refine ⟨other, ⟨extended, hextended, hother⟩, ?_⟩
  obtain ⟨hoperations, hfragments, hflatTypes⟩ := document_ofTyped_eq_ok.mp hflat
  obtain ⟨hotherOperations, hotherFragments, hotherTypes⟩ := document_ofTyped_eq_ok.mp hother
  constructor
  · refine forall₂_mapM hgains.operations (Outcome.mapM_eq_ok.mpr hoperations)
      (Outcome.mapM_eq_ok.mpr hotherOperations) ?_
    intro operation hmem otherOperation hotherMem hoperation flatOperation otherFlat
    exact ofTyped_operation_gains hextension hmem hotherMem (possibleTypes_rootType hdocument hmem)
      hoperation
  · refine forall₂_mapM hgains.fragments (Outcome.mapM_eq_ok.mpr hfragments)
      (Outcome.mapM_eq_ok.mpr hotherFragments) ?_
    intro fragment hmem otherFragment hotherMem hfragment flatFragment otherFlat
    exact ofTyped_fragment_gains hextension hmem hotherMem hfragment
  · intro hstring
    rw [← hotherTypes, ← hflatTypes]
    exact htypes (Schema.isDeclared_of_scalar hstring (by decide))

/-- Whatever document is compiled, with `__typename` fields added it is compiled to the same apart
from what is printed and from fields of that name, at the roots of operations only where fragments
are merged in. Along every path of other response names than `__typename` the same fields are shown,
with the same types, arguments and conditions, and the same fragments inside. The nodes there keep
their inline fragments, which list the same fragments; they get others only where fragments are
merged in, and these hold nothing but `__typename`. A field of another name can be shown as
`__typename`, and an added one can take its place. If there is none, and there is none if
`__typename` is not given as an alias, then all fields with other names are kept. -/
theorem gains_addTypename (haliases : "" ∉ source.aliases)
    (hcompile : Document.compile schema { options with addTypename := false } filePath source =
      .ok flat) :
    (∃ other, Document.compile schema { options with addTypename := true } filePath source =
      .ok other ∧ flat.Gains schema options.mergeSpreadFields other) ∧
    ("__typename" ∉ source.aliases → flat.IsUnmasked schema) :=
  ⟨exists_gains_of_compile haliases hcompile,
    fun htypename => isUnmasked_of_compile haliases htypename hcompile⟩

end

theorem gains_addTypename_animalsWhen :
    ∃ flat other, Document.compile Schema.animals { addTypename := false } none
        Typed.animalsWhen = .ok flat ∧
      Document.compile Schema.animals { addTypename := true } none Typed.animalsWhen = .ok other ∧
      flat.Gains Schema.animals true other ∧ flat.IsUnmasked Schema.animals := by
  obtain ⟨flat, hflat⟩ : ∃ flat, Document.compile Schema.animals { addTypename := false } none
      Typed.animalsWhen = .ok flat := Outcome.exists_eq_ok (by decide +kernel)
  have haliases : "" ∉ Typed.animalsWhen.aliases := by decide
  have htypename : "__typename" ∉ Typed.animalsWhen.aliases := by decide
  obtain ⟨⟨other, hother, hgains⟩, hunmasked⟩ := @gains_addTypename _ {} _ _ _ haliases hflat
  exact ⟨flat, other, hflat, hother, hgains, hunmasked htypename⟩

def maskedName : Source.Document where
  definitions :=
    [.operation
       { description := none
         kind := .query
         name := some "Q"
         variableDefinitions := []
         directives := []
         selections := [.field none "animal" [] [] [.field (some "__typename") "name" [] [] []]] }]

theorem exists_shown_maskedName {addTypename : Bool} {fieldName : String}
    (h : ((Document.compile Schema.animals { addTypename } none maskedName).toOption.bind
      fun flat => (flat.operation? "Q").bind
        fun operation => (operation.selection.fieldFor? "Query" "animal").bind
          fun outer => outer.selection?.bind
            fun inner => (inner.fieldFor? "Dog" "__typename").map
              fun field => (outer.head.type.innermost, field.head.fieldName)) =
      some ("Animal", fieldName)) :
    ∃ flat operation field,
      Document.compile Schema.animals { addTypename } none maskedName = .ok flat ∧
      flat.operation? "Q" = some operation ∧
      operation.selection.ShowsAt Schema.animals "Query"
        [⟨"Dog", "__typename"⟩, ⟨"Query", "animal"⟩] field ∧
      field.head.fieldName = fieldName := by
  obtain ⟨flat, hflat, h⟩ := Option.bind_eq_some_iff.mp h
  obtain ⟨operation, hoperation, h⟩ := Option.bind_eq_some_iff.mp h
  obtain ⟨outer, houter, h⟩ := Option.bind_eq_some_iff.mp h
  obtain ⟨inner, hinner, h⟩ := Option.bind_eq_some_iff.mp h
  obtain ⟨field, hfield, h⟩ := Option.map_eq_some_iff.mp h
  obtain ⟨htype, hname⟩ := Prod.mk.inj h
  have hquery : "Query" ∈ Schema.animals.possibleTypes "Query" := by decide
  have hdog : "Dog" ∈ Schema.animals.possibleTypes outer.head.type.innermost := by
    rw [htype]
    decide
  exact ⟨flat, operation, field, Outcome.toOption_eq_some.mp hflat, hoperation,
    .nested (.field hquery houter) hinner hdog hfield, hname⟩

/-- The name of dogs is shown, and with `__typename` fields added it is not. -/
theorem not_keeps_maskedName :
    ∃ flat other operation otherOperation field,
      Document.compile Schema.animals { addTypename := false } none maskedName = .ok flat ∧
      Document.compile Schema.animals { addTypename := true } none maskedName = .ok other ∧
      flat.operation? "Q" = some operation ∧ other.operation? "Q" = some otherOperation ∧
      operation.selection.ShowsAt Schema.animals "Query"
        [⟨"Dog", "__typename"⟩, ⟨"Query", "animal"⟩] field ∧
      field.head.fieldName = "name" ∧
      ¬∃ gained, otherOperation.selection.ShowsAt Schema.animals "Query"
          [⟨"Dog", "__typename"⟩, ⟨"Query", "animal"⟩] gained ∧
        gained.head.fieldName = field.head.fieldName := by
  obtain ⟨flat, operation, field, hflat, hoperation, hshown, hname⟩ :=
    @exists_shown_maskedName false "name" (by decide +kernel)
  obtain ⟨other, otherOperation, gained, hother, hotherOperation, hgained, hotherName⟩ :=
    @exists_shown_maskedName true "__typename" (by decide +kernel)
  refine ⟨flat, other, operation, otherOperation, field, hflat, hother, hoperation,
    hotherOperation, hshown, hname, ?_⟩
  rintro ⟨further, hfurther, hsame⟩
  rw [hname, hfurther.unique hgained, hotherName] at hsame
  exact absurd hsame (by decide)

end QueryShape.Flat
