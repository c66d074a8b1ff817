import QueryShape.Proofs.Flat.Pieces
import QueryShape.Proofs.Schema.Interfaces

/-!
# Well-typed nodes

What a node shows for a type can be selected on the type if the type is a possible type of all
selection sets that the node is made of. A node takes its possible types from the first of them, and
where an interface promises a wider type than an object type has, another one may be over fewer.
-/

set_option autoImplicit false

namespace QueryShape.Typed

theorem Selection.spreads_flatMap {types : List String} {name : String}
    {pieces : List SelectionSet} (h : Spreads types (pieces.flatMap (·.selections)) name) :
    ∃ piece ∈ pieces, Spreads types piece.selections name := by
  have happend : ∀ first second : List Selection,
      allSpreadsFor types (first ++ second) =
        allSpreadsFor types first ++ allSpreadsFor types second := by
    intro first second
    induction first with
    | nil => rfl
    | cons selection rest ih => simp [allSpreadsFor, ih]
  induction pieces with
  | nil => cases h
  | cons piece rest ih =>
    rw [List.flatMap_cons, ← mem_allSpreadsFor, happend, List.mem_append] at h
    rcases h with h | h
    · exact ⟨piece, List.mem_cons_self, mem_allSpreadsFor.mp h⟩
    · obtain ⟨other, hother, hspreads⟩ := ih (mem_allSpreadsFor.mp h)
      exact ⟨other, List.mem_cons_of_mem _ hother, hspreads⟩

end QueryShape.Typed

namespace QueryShape.Flat

open Typed (FragmentError SelectionSet Record TypeCase)

/-- The default fields, and those of the inline fragment of the type. -/
def Selection.fieldsFor (node : Selection) (type : String) : List Field :=
  node.fields ++ (node.inlineFragments.filter (·.type == type)).flatMap (·.fields)

/-- The nodes of the flat forms of operations and fragments, at every depth, with their types. -/
inductive HasNode (options : Options) (document : Typed.Document) : String → Selection → Prop
  | root {type : String} {set : SelectionSet} {node : Selection}
      (hroot : document.HasRoot type set) (hnode : flatten options document set = .ok node) :
      HasNode options document type node
  | nested {outerType type : String} {node inner : Selection} {field : Field}
      (hnode : HasNode options document outerType node) (hfield : field ∈ node.fieldsFor type)
      (hinner : field.selection? = some inner) :
      HasNode options document field.head.type.innermost inner

theorem HasNode.of_default {options : Options} {document : Typed.Document} {type : String}
    {node inner : Selection} {field : Field} (hnode : HasNode options document type node)
    (hfield : field ∈ node.fields) (hinner : field.selection? = some inner) :
    HasNode options document field.head.type.innermost inner :=
  @HasNode.nested options document type type node inner field hnode
    (List.mem_append_left _ hfield) hinner

/-- All fields that the node shows for the type can be selected on it, and all fragments that the
node itself lists apply to it. -/
structure Selection.IsTypedFor (schema : Schema) (document : Typed.Document) (node : Selection)
    (type : String) : Prop where
  fields : ∀ field ∈ node.fieldsFor type, (schema.field? type field.head.fieldName).isSome = true
  spreads : ∀ name ∈ node.spreads, ∃ fragment, document.fragment? name = some fragment ∧
    type ∈ fragment.selectionSet.possibleTypes

/-- The node inside of a field is made of the sets inside of fields that the pieces select for the
type under one key. Each of them is over the possible types of its own field's type. -/
structure MadeInside (schema : Schema) (options : Options) (document : Typed.Document)
    (pieces : List SelectionSet) (type : String) (members : List Typed.Selected) (field : Field)
    (inner : Selection) : Prop where
  selected : ∃ key, ∀ member ∈ members, ∃ piece ∈ pieces,
    document.SelectsField options.mergeSpreadFields piece.selections ⟨type, key⟩ member
  typesInside : ∀ member ∈ members, ∀ set, member.field.selectionSet = some set →
    set.possibleTypes = schema.possibleTypes member.field.head.type.innermost
  made : MadeOf schema options document field.head.type.innermost
    (members.filterMap (·.field.selectionSet)) inner

section

variable {flattenNested : SelectionSet → Except FragmentError Selection} {options : Options}
  {document : Typed.Document} {set : SelectionSet} {node : Selection} {typeCase : TypeCase}

theorem exists_default_of_mem
    (hnode : flattenStep options document flattenNested set = .ok node)
    (htypeCase : typeCaseOf options document set = .ok typeCase) {field : Field}
    (hfield : field ∈ node.fields) :
    ∃ typed ∈ typeCase.defaultRecord.fields, Field.ofTyped flattenNested typed = .ok field := by
  obtain ⟨_, hsame, fields, hfields, groups, _, rfl⟩ := flattenStep_eq_ok.mp hnode
  obtain rfl := Except.ok.inj (htypeCase.symm.trans hsame)
  exact Outcome.exists_of_mem_mapM hfields hfield

theorem exists_record_of_mem
    (hnode : flattenStep options document flattenNested set = .ok node)
    (htypeCase : typeCaseOf options document set = .ok typeCase) {fragment : InlineFragment}
    (hfragment : fragment ∈ node.inlineFragments) :
    ∃ record ∈ typeCase.records, fragment.type ∈ record.possibleTypes ∧
      ∀ field ∈ fragment.fields, ∃ typed ∈ record.fields,
        Field.ofTyped flattenNested typed = .ok field := by
  obtain ⟨_, hsame, _, _, groups, hgroups, rfl⟩ := flattenStep_eq_ok.mp hnode
  obtain rfl := Except.ok.inj (htypeCase.symm.trans hsame)
  obtain ⟨record, hrecord, type, htype, flats, hflats, rfl⟩ :=
    exists_record_of_mem_flatten hgroups hfragment
  exact ⟨record, List.mem_of_mem_filter hrecord, htype,
    fun field hfield => Outcome.exists_of_mem_mapM hflats hfield⟩

end

theorem Selection.mem_fieldsFor {node : Selection} {type : String} {field : Field} :
    field ∈ node.fieldsFor type ↔ field ∈ node.fields ∨
      ∃ fragment ∈ node.inlineFragments, fragment.type = type ∧ field ∈ fragment.fields := by
  simp [fieldsFor, and_assoc]

section

variable {schema : Schema} {options : Options} {document : Typed.Document} {type : String}
  {pieces : List SelectionSet} {node : Selection} (hsound : document.IsSound schema)
include hsound

namespace MadeOf

theorem exists_possibleType_of_mem (h : MadeOf schema options document type pieces node)
    {shownType : String} {field : Field} (hfield : field ∈ node.fieldsFor shownType) :
    ∃ other ∈ schema.possibleTypes type, field ∈ node.fieldsFor other := by
  obtain ⟨merged, htypes, htypeCase, hnode, _⟩ := h.exists_flattenStep hsound
  rw [← htypes]
  rcases Selection.mem_fieldsFor.mp hfield with hdefault | ⟨fragment, hfragment, rfl, _⟩
  · obtain ⟨typed, htyped, _⟩ := exists_default_of_mem hnode htypeCase hdefault
    obtain ⟨other, hother⟩ := SelectionSet.exists_possibleType_of_mem_default htyped
    exact ⟨other, hother, List.mem_append_left _ hdefault⟩
  · obtain ⟨record, hrecord, htype, _⟩ := exists_record_of_mem hnode htypeCase hfragment
    exact ⟨_, merged.sorts_typeCase.partition.within record hrecord _ htype, hfield⟩

theorem exists_members_of_mem (h : MadeOf schema options document type pieces node)
    {shownType : String} (htype : shownType ∈ schema.possibleTypes type) {field : Field}
    (hfield : field ∈ node.fieldsFor shownType) :
    ∃ key members, IsMergedFrom options document members field ∧
      ∀ member ∈ members, ∃ piece ∈ pieces,
        document.SelectsField options.mergeSpreadFields piece.selections ⟨shownType, key⟩
          member := by
  obtain ⟨merged, htypes, htypeCase, hnode, hselects⟩ := h.exists_flattenStep hsound
  obtain ⟨typed, hof, hheld⟩ : ∃ typed, Field.ofTyped (flatten options document) typed = .ok field ∧
      (typed ∈ merged.typeCase.defaultRecord.fields ∨ ∃ record ∈ merged.typeCase.records,
        shownType ∈ record.possibleTypes ∧ typed ∈ record.fields) := by
    rcases Selection.mem_fieldsFor.mp hfield with hdefault | ⟨fragment, hfragment, rfl, hinside⟩
    · obtain ⟨typed, htyped, hof⟩ := exists_default_of_mem hnode htypeCase hdefault
      exact ⟨typed, hof, Or.inl htyped⟩
    · obtain ⟨record, hrecord, hin, hall⟩ := exists_record_of_mem hnode htypeCase hfragment
      obtain ⟨typed, htyped, hof⟩ := hall field hinside
      exact ⟨typed, hof, Or.inr ⟨record, hrecord, hin, htyped⟩⟩
  obtain ⟨members, hmerge, hmembers⟩ :=
    SelectionSet.exists_selected_of_held (htypes.symm ▸ htype) hheld
  refine ⟨typed.responseKey, members, ⟨fun member hmember => ?_, typed, hmerge, hof⟩,
    fun member hmember => ?_⟩
  · exact (hselects shownType).composes h.composes (hmembers member hmember).1
  · let step : Typed.Step := ⟨shownType, typed.responseKey⟩
    have hselected : document.SelectsField options.mergeSpreadFields
        (pieces.flatMap (·.selections)) step member :=
      (Typed.Document.selectsField_iff (hselects step.type) htype member).mpr
        (hmembers member hmember)
    rwa [Typed.Document.selectsField_flatMap hsound.closed (fun _ => hsound.acyclic)
      (fun piece hpiece => (h.hasSet piece hpiece).defines hsound.closed)] at hselected

theorem exists_madeInside (h : MadeOf schema options document type pieces node)
    {shownType : String} (htype : shownType ∈ schema.possibleTypes type) {field : Field}
    (hfield : field ∈ node.fieldsFor shownType) {inner : Selection}
    (hinner : field.selection? = some inner) :
    ∃ members, MadeInside schema options document pieces shownType members field inner := by
  obtain ⟨key, members, hmembers, hselected⟩ := h.exists_members_of_mem hsound htype hfield
  refine ⟨members, ⟨key, hselected⟩, ?_, hmembers.madeOf hsound hinner⟩
  exact fun member hmember set hset => (hmembers.hasSet_of_mem hsound hmember hset).2

theorem isTypedFor (hvalid : Validity.typesValid schema = true)
    (hdistinct : schema.hasDistinctNames = true)
    (h : MadeOf schema options document type pieces node) {shownType : String}
    (htype : shownType ∈ schema.possibleTypes type)
    (hpieces : ∀ piece ∈ pieces, shownType ∈ piece.possibleTypes) :
    node.IsTypedFor schema document shownType := by
  constructor
  · intro field hfield
    obtain ⟨_, members, hmembers, hselected⟩ := h.exists_members_of_mem hsound htype hfield
    obtain ⟨first, rest, rfl, hname, _⟩ := hmembers.exists_first
    obtain ⟨piece, hpiece, selected, hselects, hmem, _⟩ := hselected first List.mem_cons_self
    obtain ⟨others, hin, hfits⟩ :=
      hselects.exists_fitsOn hsound.fits (hsound.fits piece (h.hasSet piece hpiece))
        (hpieces piece hpiece) first hmem
    obtain ⟨parent, definition, _, _, _, hdefinition, hhead, hall⟩ := hfits
    rw [hname, hhead]
    exact Schema.isSome_field?_of_possibleType hvalid hdistinct (hall shownType hin)
      (by simp [Typed.FieldHead.ofDefinition, hdefinition])
  · intro name hname
    obtain ⟨_, _, _, hnode, _⟩ := h.exists_flattenStep hsound
    obtain ⟨_, _, _, _, _, _, rfl⟩ := flattenStep_eq_ok.mp hnode
    have hspreads := SelectionSet.mem_spreadNamesFor.mp hname
    obtain ⟨piece, hpiece, hspreads⟩ := Typed.Selection.spreads_flatMap hspreads
    have hsingle := hspreads.mono (List.forall_mem_singleton.mpr htype)
    exact hsingle.exists_fragment (hsound.fits piece (h.hasSet piece hpiece)) (hpieces piece hpiece)

end MadeOf

theorem HasNode.exists_pieces (h : HasNode options document type node) :
    ∃ pieces, MadeOf schema options document type pieces node := by
  induction h with
  | root hroot hnode => exact ⟨_, .of_hasRoot hsound hroot hnode⟩
  | nested _ hfield hinner ih =>
    obtain ⟨pieces, hpieces⟩ := ih
    -- The type need not be a possible one, but the field is also shown for one that is.
    obtain ⟨shownType, htype, hfield⟩ := hpieces.exists_possibleType_of_mem hsound hfield
    obtain ⟨_, hinside⟩ := hpieces.exists_madeInside hsound htype hfield hinner
    exact ⟨_, hinside.made⟩

end

section

variable {schema : Schema} {compileOptions : Options} {filePath : Option String}
  {source : Source.Document} {document : Typed.Document}

/-- Every operation and fragment has a flat form, of which the outermost node is typed for all of
its possible types. Every node is made of selection sets of the document, and the nodes inside of it
of the sets inside of the fields that these select. However it is made of some, it is typed for each
of its possible types that is a possible type of all of them. -/
structure IsTypedInPieces (schema : Schema) (options : Options) (document : Typed.Document) :
    Prop where
  root : ∀ type set, document.HasRoot type set → ∃ node, flatten options document set = .ok node ∧
    MadeOf schema options document type [set] node ∧
    ∀ shownType ∈ schema.possibleTypes type, node.IsTypedFor schema document shownType
  node : ∀ type node, HasNode options document type node →
    (∃ pieces, MadeOf schema options document type pieces node) ∧
    ∀ pieces, MadeOf schema options document type pieces node →
      ∀ shownType ∈ schema.possibleTypes type,
        ((∀ piece ∈ pieces, shownType ∈ piece.possibleTypes) →
          node.IsTypedFor schema document shownType) ∧
        ∀ field ∈ node.fieldsFor shownType, ∀ inner, field.selection? = some inner →
          ∃ members, MadeInside schema options document pieces shownType members field inner

theorem isTypedInPieces (hsound : document.IsSound schema)
    (hvalid : Validity.typesValid schema = true) (hdistinct : schema.hasDistinctNames = true)
    (options : Options) : IsTypedInPieces schema options document := by
  constructor
  · intro type set hroot
    obtain ⟨node, hnode⟩ : ∃ node, flatten options document set = .ok node :=
      exists_flatten hsound.closed (fun _ => hsound.acyclic)
        ((Typed.Document.HasSet.root hroot).defines hsound.closed)
    have hmade := MadeOf.of_hasRoot hsound hroot hnode
    refine ⟨node, hnode, hmade, fun shownType htype => ?_⟩
    apply hmade.isTypedFor hsound hvalid hdistinct htype
    rwa [List.forall_mem_singleton, hsound.roots type set hroot]
  · intro type node hnode
    refine ⟨hnode.exists_pieces hsound, fun pieces hpieces shownType htype => ⟨?_, ?_⟩⟩
    · exact hpieces.isTypedFor hsound hvalid hdistinct htype
    · exact fun field hfield inner hinner =>
        hpieces.exists_madeInside hsound htype hfield hinner

/-- The nodes of a compiled document are typed as far as their pieces are. -/
theorem typed_of_possible_in_pieces (hdistinct : schema.hasDistinctNames = true)
    (hcompile : Typed.Document.compile schema compileOptions filePath source = .ok document)
    (options : Options) : IsTypedInPieces schema options document := by
  obtain ⟨hvalid, _, _⟩ := Typed.Document.isTyped_of_compile hcompile
  exact isTypedInPieces (Typed.Document.isSound_of_compile hcompile) hvalid hdistinct options

end

def owners : Schema :=
  .ofTypes
    [⟨"Query", .object [] [Schema.Introspection.plain "owner" (.named "Owner")]⟩,
     ⟨"Owner", .interface [] [Schema.Introspection.plain "pet" (.named "Animal")]⟩,
     ⟨"Animal", .interface [] [Schema.Introspection.plain "name" (.named "String")]⟩,
     ⟨"Dog", .object ["Animal"]
       [Schema.Introspection.plain "name" (.named "String"),
        Schema.Introspection.plain "bark" (.named "Int")]⟩,
     ⟨"Cat", .object ["Animal"] [Schema.Introspection.plain "name" (.named "String")]⟩,
     ⟨"Breeder", .object ["Owner"] [Schema.Introspection.plain "pet" (.named "Dog")]⟩]

def petOfOwner : List Source.Selection :=
  [.field none "owner" [] []
    [.field none "pet" [] [] [.field none "name" [] [] []],
     .inlineFragment (some "Breeder") []
       [.field none "pet" [] [] [.field none "bark" [] [] [], .fragmentSpread "OfDogs" []]]]]

def petOfOwnerDocument : Source.Document where
  definitions :=
    [.operation
       { description := none
         kind := .query
         name := some "Q"
         variableDefinitions := []
         directives := []
         selections := petOfOwner },
     .fragment ⟨none, "OfDogs", "Dog", [], [.field none "bark" [] [] []]⟩]

theorem exists_compile_petOfOwner :
    ∃ document, Typed.Document.compile owners {} none petOfOwnerDocument = .ok document ∧
      ∀ set, SelectionSet.ofSource owners (petOfOwnerDocument.prepared {}).fragmentType? "Query"
          petOfOwner = .ok set → document.HasRoot "Query" set := by
  obtain ⟨document, hcompile⟩ : ∃ document,
      Typed.Document.compile owners {} none petOfOwnerDocument = .ok document :=
    Outcome.exists_eq_ok (by decide +kernel)
  obtain ⟨_, _, htyped⟩ := Typed.Document.isTyped_of_compile hcompile
  refine ⟨document, hcompile, fun set hset => ?_⟩
  exact htyped.hasRoot_of_mem List.mem_cons_self rfl hset

theorem typed_of_possible_in_pieces_petOfOwner :
    ∃ document node pieces, owners.hasDistinctNames = true ∧
      Typed.Document.compile owners {} none petOfOwnerDocument = .ok document ∧
      HasNode {} document "Query" node ∧ node.IsTypedFor owners document "Query" ∧
      MadeOf owners {} document "Query" pieces node ∧
      ∀ field ∈ node.fieldsFor "Query", ∀ inner, field.selection? = some inner →
        ∃ members, MadeInside owners {} document pieces "Query" members field inner := by
  obtain ⟨document, hcompile, hroots⟩ := exists_compile_petOfOwner
  have hdistinct : owners.hasDistinctNames = true := by decide
  have hroot := hroots _ rfl
  obtain ⟨hflat, hnodes⟩ := typed_of_possible_in_pieces hdistinct hcompile {}
  obtain ⟨node, hnode, hmade, htyped⟩ := hflat _ _ hroot
  obtain ⟨_, hinside⟩ := hnodes _ _ (.root hroot hnode)
  have hquery : "Query" ∈ owners.possibleTypes "Query" := by decide
  exact ⟨document, node, _, hdistinct, hcompile, .root hroot hnode, htyped "Query" hquery, hmade,
    (hinside _ hmade "Query" hquery).2⟩

/-- The node of the pet is on animals, but shows for cats what only dogs have. -/
theorem not_typed_petOfOwner :
    ∃ document node, Typed.Document.compile owners {} none petOfOwnerDocument = .ok document ∧
      HasNode {} document "Animal" node ∧ "Cat" ∈ owners.possibleTypes "Animal" ∧
      (∃ field ∈ node.fieldsFor "Cat", owners.field? "Cat" field.head.fieldName = none) ∧
      ∃ name ∈ node.spreads, ∃ fragment, document.fragment? name = some fragment ∧
        "Cat" ∉ fragment.selectionSet.possibleTypes := by
  obtain ⟨document, hcompile, hroots⟩ := exists_compile_petOfOwner
  have hvalues : ((Typed.Document.compile owners {} none petOfOwnerDocument).toOption.bind
      fun document => (SelectionSet.ofSource owners (petOfOwnerDocument.prepared {}).fragmentType?
          "Query" petOfOwner).toOption.bind
        fun set => (flatten {} document set).toOption.bind
          fun node => node.fields[0]?.bind
            fun owner => owner.selection?.bind
              fun inner => inner.fields[0]?.bind
                fun pet => pet.selection?.bind
                  fun inside => inside.fields[1]?.bind
                    fun bark => (document.fragment? "OfDogs").map
                      fun fragment => (pet.head.type.innermost, bark.head.fieldName,
                        inside.spreads, fragment.selectionSet.possibleTypes)) =
      some ("Animal", "bark", ["OfDogs"], ["Dog"]) := by decide +kernel
  rw [hcompile, Except.toOption, Option.bind_some] at hvalues
  obtain ⟨set, hset, hvalues⟩ := Option.bind_eq_some_iff.mp hvalues
  obtain ⟨node, hnode, hvalues⟩ := Option.bind_eq_some_iff.mp hvalues
  obtain ⟨owner, howner, hvalues⟩ := Option.bind_eq_some_iff.mp hvalues
  obtain ⟨inner, hinner, hvalues⟩ := Option.bind_eq_some_iff.mp hvalues
  obtain ⟨pet, hpet, hvalues⟩ := Option.bind_eq_some_iff.mp hvalues
  obtain ⟨inside, hinside, hvalues⟩ := Option.bind_eq_some_iff.mp hvalues
  obtain ⟨bark, hbark, hvalues⟩ := Option.bind_eq_some_iff.mp hvalues
  obtain ⟨fragment, hfragment, hvalues⟩ := Option.map_eq_some_iff.mp hvalues
  simp only [Prod.mk.injEq] at hvalues
  obtain ⟨htype, hname, hspreads, htypes⟩ := hvalues
  have hroot : HasNode {} document "Query" node :=
    .root (hroots set (Outcome.toOption_eq_some.mp hset)) (Outcome.toOption_eq_some.mp hnode)
  have hpetNode :=
    (hroot.of_default (List.mem_of_getElem? howner) hinner).of_default (List.mem_of_getElem? hpet)
      hinside
  rw [htype] at hpetNode
  refine ⟨document, inside, hcompile, hpetNode, by decide, ?_,
    "OfDogs", ?_, fragment, hfragment, ?_⟩
  · refine ⟨bark, List.mem_append_left _ (List.mem_of_getElem? hbark), ?_⟩
    rw [hname]
    decide
  · rw [hspreads]
    decide
  · rw [htypes]
    decide

end QueryShape.Flat
