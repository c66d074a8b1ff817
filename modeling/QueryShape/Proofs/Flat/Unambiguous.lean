import QueryShape.Proofs.Entries
import QueryShape.Proofs.Flat.Documents
import QueryShape.Proofs.Flat.Flattened
import QueryShape.Proofs.Flat.WellTyped
import QueryShape.Proofs.Typed.Arrangement
import QueryShape.Proofs.Typed.WellFormed

/-!
# Unambiguous nodes

In a node, fields are found by their response names and inline fragments by their types. Neither
name is given twice, since no record of a type case has a key twice and the records have no type in
common, and the possible types of a type are listed once each.
-/

set_option autoImplicit false

namespace QueryShape.Typed

theorem SelectionSet.nodup_flatMap_possibleTypes {set : SelectionSet}
    (h : set.possibleTypes.Nodup) (p : Record → Bool) :
    ((set.typeCase.records.filter p).flatMap (·.possibleTypes)).Nodup := by
  rw [List.nodup_flatMap]
  constructor
  · intro record hrecord
    rw [← set.arranges_typeCase.listed record (List.mem_of_mem_filter hrecord)]
    exact List.filter_sublist.nodup h
  · exact (set.sorts_typeCase.partition.disjoint.imp fun hdisjoint type hfirst hsecond =>
      hdisjoint type hfirst hsecond).filter p

end QueryShape.Typed

namespace QueryShape.Flat

open Typed (FragmentError SelectionSet Record TypeCase)

/-- No two fields have one response name, and exactly those of a composite type have a selection. -/
structure HasUnambiguousFields (schema : Schema) (fields : List Field) : Prop where
  responseNames : (fields.map (·.responseName)).Nodup
  nests : ∀ field ∈ fields,
    (field.selection?.isSome ↔ schema.isComposite field.head.type.innermost = true)

structure InlineFragment.IsUnambiguous (schema : Schema) (types : List String)
    (fragment : InlineFragment) : Prop where
  fields : HasUnambiguousFields schema fragment.fields
  spreads : fragment.spreads.Nodup
  possibleTypes : fragment.possibleTypes = [fragment.type]
  possible : fragment.type ∈ types

/-- Everything in a node of which the types are the possible ones is found by its name. -/
structure Selection.IsUnambiguous (schema : Schema) (types : List String) (node : Selection) :
    Prop where
  fields : HasUnambiguousFields schema node.fields
  spreads : node.spreads.Nodup
  inlineFragment : ∀ fragment ∈ node.inlineFragments, fragment.IsUnambiguous schema types
  inlineTypes : (node.inlineFragments.map (·.type)).Nodup
  /-- All inline fragments are listed by their types and found for them. -/
  listed : (Node.selection node).inlineTypes? = some (node.inlineFragments.map (·.type))
  found : ∀ fragment ∈ node.inlineFragments,
    (Node.selection node).inlineFragmentFor? fragment.type = some (.inlineFragment fragment)
  single : types.length = 1 → node.inlineFragments = []

section

variable {node : Selection} (h : (node.inlineFragments.map (·.type)).Nodup)
include h

theorem inlineTypes?_of_nodup :
    (Node.selection node).inlineTypes? = some (node.inlineFragments.map (·.type)) := by
  rw [Node.inlineTypes?, Node.inlineFragments?, Option.map_some, Data.distinctEntries_eq_self]
  · rw [List.map_map]
    rfl
  · rwa [List.map_map]

theorem inlineFragmentFor?_of_nodup {fragment : InlineFragment}
    (hfragment : fragment ∈ node.inlineFragments) :
    (Node.selection node).inlineFragmentFor? fragment.type = some (.inlineFragment fragment) := by
  rw [Node.inlineFragmentFor?_selection]
  cases hfound : node.inlineFragments.reverse.find? (·.type == fragment.type) with
  | none =>
    have hnot := List.find?_eq_none.mp hfound fragment (List.mem_reverse.mpr hfragment)
    exact absurd (beq_self_eq_true fragment.type) hnot
  | some found =>
    have hmem := List.mem_reverse.mp (List.mem_of_find?_eq_some hfound)
    have htype : found.type = fragment.type := by simpa using List.find?_some hfound
    rw [List.inj_on_of_nodup_map h hmem hfragment htype]
    rfl

end

section

variable {flattenNested : SelectionSet → Except FragmentError Selection} {options : Options}
  {document : Typed.Document} {set : SelectionSet} {node : Selection} {typeCase : TypeCase}

theorem nodup_responseNames_of_ofTyped {record : Record} (hkeys : record.keys.Nodup)
    (hnamed : ∀ field ∈ record.fields, field.head.IsNamed) {flats : List Field}
    (h : record.fields.mapM (Field.ofTyped flattenNested) = .ok flats) :
    (flats.map (·.responseName)).Nodup := by
  have hboth := (List.forall₂_and_left _ _).mpr ⟨fun _ hfield => hfield, Outcome.mapM_eq_ok.mp h⟩
  have hnames : flats.map (·.responseName) = record.keys :=
    map_eq_of_forall₂ hboth fun field flat hflat =>
      responseName_of_ofTyped_field (hnamed field hflat.1) hflat.2
  rwa [hnames]

theorem inlineTypes_of_flattenStep
    (hnode : flattenStep options document flattenNested set = .ok node)
    (htypeCase : typeCaseOf options document set = .ok typeCase) :
    node.inlineFragments.map (·.type) =
      (typeCase.records.filter (needsInlineFragments options set)).flatMap (·.possibleTypes) := by
  obtain ⟨_, hsame, _, _, groups, hgroups, rfl⟩ := flattenStep_eq_ok.mp hnode
  obtain rfl := Except.ok.inj (htypeCase.symm.trans hsame)
  rw [List.map_flatten, List.flatMap_def]
  congr 1
  apply map_eq_of_forall₂ (Outcome.mapM_eq_ok.mp hgroups)
  intro record group hgroup
  obtain ⟨flats, _, rfl⟩ := inlineGroup_eq_ok.mp hgroup
  rw [inlineFragmentsFor, List.map_map]
  exact List.map_id _

end

section

variable {schema : Schema} {options : Options} {document : Typed.Document} {type : String}
  {pieces : List SelectionSet} {node : Selection} (hsound : document.IsSound schema)
include hsound

theorem IsMergedFrom.isSome_selection?_iff {members : List Typed.Selected} {field : Field}
    (h : IsMergedFrom options document members field) :
    field.selection?.isSome ↔ schema.isComposite field.head.type.innermost = true := by
  obtain ⟨first, rest, rfl, _, htype⟩ := h.exists_first
  obtain ⟨set, hset, hmem⟩ := h.composes first List.mem_cons_self
  have hfits := Typed.Selection.allFit_iff.mp (hsound.fits set hset) _ hmem
  obtain ⟨merged, hmerged, hflat⟩ := h.merges
  have hjoined := Typed.Field.selectionSet_mergeAll ((first :: rest).map Typed.Selected.conditional)
  rw [hmerged, Option.bind_some, List.map_cons, Typed.Field.joined?,
    Typed.Selected.selectionSet_conditional] at hjoined
  rw [htype, ← hfits.field.1]
  rcases ofTyped_field_eq_ok.mp hflat with ⟨hnone, rfl⟩ | ⟨nested, inner, hnested, _, rfl⟩
  · rw [hnone, eq_comm, Option.map_eq_none_iff] at hjoined
    simp [Field.selection?, hjoined]
  · rw [hnested, eq_comm, Option.map_eq_some_iff] at hjoined
    obtain ⟨own, hown, _⟩ := hjoined
    simp [Field.selection?, hown]

namespace MadeOf

theorem isSome_selection?_iff (h : MadeOf schema options document type pieces node)
    {shownType : String} {field : Field} (hfield : field ∈ node.fieldsFor shownType) :
    field.selection?.isSome ↔ schema.isComposite field.head.type.innermost = true := by
  obtain ⟨other, hother, hfield⟩ := h.exists_possibleType_of_mem hsound hfield
  obtain ⟨_, _, hmembers, _⟩ := h.exists_members_of_mem hsound hother hfield
  exact hmembers.isSome_selection?_iff hsound

theorem isUnambiguous (hvalid : Validity.typesValid schema = true)
    (hdistinct : schema.hasDistinctNames = true) (hnames : document.HasNames)
    (h : MadeOf schema options document type pieces node) :
    node.IsUnambiguous schema (schema.possibleTypes type) := by
  obtain ⟨merged, htypes, htypeCase, hnode, _⟩ := h.exists_flattenStep hsound
  have hnamed := isNamed_of_mem_fields htypeCase hnames (h.composes.hasNames hnames)
  have hkeys := merged.hasDistinctKeys_typeCase
  have hpartition := merged.sorts_typeCase.partition
  have hinline := inlineTypes_of_flattenStep hnode htypeCase
  have hnodup : (node.inlineFragments.map (·.type)).Nodup := by
    rw [hinline]
    exact merged.nodup_flatMap_possibleTypes
      (htypes ▸ Schema.nodup_possibleTypes hvalid hdistinct type) _
  have hnests (shownType : String) : ∀ field ∈ node.fieldsFor shownType,
      (field.selection?.isSome ↔ schema.isComposite field.head.type.innermost = true) :=
    fun field => h.isSome_selection?_iff hsound
  obtain ⟨_, hsame, fields, hfields, groups, hgroups, rfl⟩ := flattenStep_eq_ok.mp hnode
  obtain rfl := Except.ok.inj (htypeCase.symm.trans hsame)
  constructor
  · refine ⟨nodup_responseNames_of_ofTyped hkeys.defaultRecord ?_ hfields, ?_⟩
    · exact fun field hfield => hnamed field (TypeCase.mem_fields.mpr (Or.inl hfield))
    · exact fun field hfield => hnests type field (Selection.mem_fieldsFor.mpr (Or.inl hfield))
  · exact nodup_distinct _
  · intro fragment hfragment
    obtain ⟨record, hrecord, own, hown, flats, hflats, rfl⟩ :=
      exists_record_of_mem_flatten hgroups hfragment
    have hrecord := List.mem_of_mem_filter hrecord
    refine ⟨⟨nodup_responseNames_of_ofTyped (hkeys.record record hrecord) ?_ hflats, ?_⟩,
      nodup_distinct _, rfl, htypes ▸ hpartition.within record hrecord own hown⟩
    · exact fun field hfield =>
        hnamed field (TypeCase.mem_fields.mpr (Or.inr ⟨record, hrecord, hfield⟩))
    · exact fun field hfield => hnests own field
        (Selection.mem_fieldsFor.mpr (Or.inr ⟨_, hfragment, rfl, hfield⟩))
  · exact hnodup
  · exact inlineTypes?_of_nodup hnodup
  · exact fun fragment => inlineFragmentFor?_of_nodup hnodup
  · intro hlength
    obtain ⟨single, hsingle⟩ := List.length_eq_one_iff.mp hlength
    rw [← List.map_eq_nil_iff, hinline, List.flatMap_eq_nil_iff]
    intro record hrecord
    obtain ⟨hrecord, hneeds⟩ := List.mem_filter.mp hrecord
    -- A record is not empty, so that it has the only type and needs no inline fragment.
    obtain ⟨own, hown⟩ := List.exists_mem_of_ne_nil _ (hpartition.nonempty record hrecord)
    have hin := hpartition.within record hrecord own hown
    rw [htypes, hsingle] at hin
    obtain rfl := List.mem_singleton.mp hin
    simp [needsInlineFragments, hsingle, PossibleTypes.contained, hown] at hneeds

end MadeOf

end

section

variable {schema : Schema} {compileOptions : Options} {filePath : Option String}
  {source : Source.Document} {document : Typed.Document}

/-- The operations and fragments are nodes of the document. Every node of it, at any depth, is the
flat form of a selection set over the possible types of its type, and everything in the node is
found by its name. -/
structure Document.IsUnambiguous (schema : Schema) (options : Options) (document : Typed.Document)
    (flat : Document) : Prop where
  operation : ∀ operation ∈ flat.operations,
    HasNode options document operation.rootType operation.selection
  fragment : ∀ fragment ∈ flat.fragments,
    HasNode options document fragment.type fragment.selection
  node : ∀ type node, HasNode options document type node →
    ∃ set : SelectionSet, set.possibleTypes = schema.possibleTypes type ∧
      flatten options document set = .ok node ∧ node.IsUnambiguous schema set.possibleTypes

theorem exists_isUnambiguous (hsound : document.IsSound schema) (hnames : document.HasNames)
    (hvalid : Validity.typesValid schema = true) (hdistinct : schema.hasDistinctNames = true)
    (options : Options) :
    ∃ flat, Document.ofTyped options document = .ok flat ∧
      flat.IsUnambiguous schema options document := by
  obtain ⟨flat, hflat⟩ :=
    @exists_document_ofTyped options document hsound.closed fun _ => hsound.acyclic
  obtain ⟨hoperations, hfragments, _⟩ := document_ofTyped_eq_ok.mp hflat
  refine ⟨flat, hflat, fun operation hmem => ?_, fun fragment hmem => ?_, fun type node hnode => ?_⟩
  · obtain ⟨original, horiginal, hof⟩ :=
      Outcome.exists_of_mem_mapM (Outcome.mapM_eq_ok.mpr hoperations) hmem
    obtain ⟨_, _, _, _, selection, hselection, rfl⟩ := operation_ofTyped_eq_ok.mp hof
    exact .root (.operation horiginal) hselection
  · obtain ⟨original, horiginal, hof⟩ :=
      Outcome.exists_of_mem_mapM (Outcome.mapM_eq_ok.mpr hfragments) hmem
    obtain ⟨selection, hselection, rfl⟩ := fragment_ofTyped_eq_ok.mp hof
    exact .root (.fragment horiginal) hselection
  · obtain ⟨pieces, hpieces⟩ := hnode.exists_pieces hsound
    exact ⟨_, rfl, hpieces.flat, hpieces.isUnambiguous hsound hvalid hdistinct hnames⟩

/-- A compiled document has an unambiguous flat form under all options. -/
theorem unambiguous_of_compile (hdistinct : schema.hasDistinctNames = true)
    (hcompile : Typed.Document.compile schema compileOptions filePath source = .ok document)
    (haliases : "" ∉ source.aliases) (options : Options) :
    ∃ flat, Document.ofTyped options document = .ok flat ∧
      flat.IsUnambiguous schema options document := by
  obtain ⟨hvalid, _, _⟩ := Typed.Document.isTyped_of_compile hcompile
  exact exists_isUnambiguous (Typed.Document.isSound_of_compile hcompile)
    (Typed.Document.hasNames_of_compile hcompile haliases) hvalid hdistinct options

end

theorem unambiguous_of_compile_animalsWhen :
    ∃ document flat fragment, Schema.animals.hasDistinctNames = true ∧
      Typed.Document.compile Schema.animals {} none Typed.animalsWhen = .ok document ∧
      "" ∉ Typed.animalsWhen.aliases ∧ Document.ofTyped {} document = .ok flat ∧
      flat.fragment? "OfAnimals" = some fragment ∧
      fragment.selection.inlineFragments.map (·.type) = ["Dog", "Cat"] ∧
      fragment.selection.IsUnambiguous Schema.animals ["Dog", "Cat"] := by
  have hdistinct : Schema.animals.hasDistinctNames = true := by decide
  have haliases : "" ∉ Typed.animalsWhen.aliases := by decide
  obtain ⟨document, _, hcompile, _⟩ := Typed.exists_fragment_animalsWhen
  obtain ⟨flat, hflat, _, hfragments, hnodes⟩ :=
    unambiguous_of_compile hdistinct hcompile haliases {}
  have hvalues : ((Typed.Document.compile Schema.animals {} none Typed.animalsWhen).toOption.bind
      fun document => (Document.ofTyped {} document).toOption.bind
        fun flat => (flat.fragment? "OfAnimals").map
          fun fragment => (fragment.type, fragment.selection.inlineFragments.map (·.type))) =
      some ("Animal", ["Dog", "Cat"]) := by decide +kernel
  rw [hcompile, Except.toOption, Option.bind_some, hflat, Except.toOption, Option.bind_some]
    at hvalues
  obtain ⟨fragment, hfragment, hvalues⟩ := Option.map_eq_some_iff.mp hvalues
  obtain ⟨htype, hinline⟩ := Prod.mk.inj hvalues
  have hnode := hfragments fragment (List.mem_of_find?_eq_some hfragment)
  rw [htype] at hnode
  obtain ⟨set, htypes, _, hunambiguous⟩ := hnodes _ _ hnode
  have hanimals : Schema.animals.possibleTypes "Animal" = ["Dog", "Cat"] := by decide
  rw [htypes, hanimals] at hunambiguous
  exact ⟨document, flat, fragment, hdistinct, hcompile, haliases, hflat, hfragment, hinline,
    hunambiguous⟩

end QueryShape.Flat
