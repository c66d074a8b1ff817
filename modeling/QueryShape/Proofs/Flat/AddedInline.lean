import QueryShape.Proofs.Flat.Pieces
import QueryShape.Proofs.Typed.AddedVisited
import QueryShape.Proofs.Typed.WellFormed

/-!
# Inline fragments of nodes with `__typename` fields added

A node keeps its inline fragments when `__typename` fields are added, and these list the same
fragments of the document. Further ones come only where fragments are merged in: a fragment whose
own selections were all excluded has the added field, which sets the types of the fragment apart.
-/

set_option autoImplicit false

namespace QueryShape.Flat

open Typed (FragmentError SelectionSet Record TypeCase Visited)

/-- The other node has all inline fragments of the node, which list the same fragments. Others it
has only where fragments are merged in. These show nothing but `__typename`, and list what is listed
for all types and possibly more. -/
structure Selection.GainsInline (merging : Bool) (node other : Selection) : Prop where
  kept : ∀ type fragment, node.inlineFor? type = some fragment →
    ∃ gained, other.inlineFor? type = some gained ∧ gained.spreads = fragment.spreads
  added : ∀ type gained, node.inlineFor? type = none → other.inlineFor? type = some gained →
    merging = true ∧ (∀ field ∈ gained.fields, field.responseName = "__typename") ∧
      ∀ name ∈ node.spreads, name ∈ gained.spreads

/-- What is known of a compiled document, and of what it is compiled to with `__typename` fields
added. -/
structure IsExtension (schema : Schema) (options otherOptions : Options)
    (document extended : Typed.Document) : Prop where
  sound : document.IsSound schema
  otherSound : extended.IsSound schema
  names : document.HasNames
  otherNames : extended.HasNames
  gains : document.Gains extended
  mergeSpreadFields : otherOptions.mergeSpreadFields = options.mergeSpreadFields
  omitEmptyInlineFragments :
    otherOptions.omitEmptyInlineFragments = options.omitEmptyInlineFragments

section

variable {options : Options} {document : Typed.Document} {set : SelectionSet} {node : Selection}
  {flattenNested : SelectionSet → Except FragmentError Selection} {typeCase : TypeCase}

theorem mem_possibleTypes_of_inlineFor?
    (hnode : flattenStep options document flattenNested set = .ok node) {type : String}
    {fragment : InlineFragment} (h : node.inlineFor? type = some fragment) :
    type ∈ set.possibleTypes := by
  obtain ⟨typeCase, htypeCase, _, _, groups, hgroups, rfl⟩ := flattenStep_eq_ok.mp hnode
  obtain ⟨merged, rfl, htypes, _⟩ := exists_merged_of_typeCaseOf htypeCase
  obtain ⟨record, hrecord, own, hown, _, _, rfl⟩ := exists_record_of_mem_flatten hgroups
    (List.mem_reverse.mp (List.mem_of_find?_eq_some h))
  obtain rfl : own = type := by simpa [InlineFragment.type] using List.find?_some h
  rw [← htypes]
  exact merged.sorts_typeCase.partition.within record (List.mem_of_mem_filter hrecord) own hown

theorem needsInlineFragments_eq_true {record : Record} :
    needsInlineFragments options set record = true ↔
      PossibleTypes.contained set.possibleTypes record.possibleTypes = false ∧
        (options.omitEmptyInlineFragments = true → record.fields = [] →
          ∃ name ∈ set.spreadNamesFor record.possibleTypes, name ∉ set.spreadNames) := by
  rw [needsInlineFragments]
  cases PossibleTypes.contained set.possibleTypes record.possibleTypes <;>
    cases options.omitEmptyInlineFragments <;> cases record.fields <;> simp

theorem needsInlineFragments_mono {otherOptions : Options} {other : SelectionSet}
    {record otherRecord : Record}
    (homit : otherOptions.omitEmptyInlineFragments = options.omitEmptyInlineFragments)
    (htypes : other.possibleTypes = set.possibleTypes)
    (hspreads : ∀ types, other.spreadNamesFor types = set.spreadNamesFor types)
    (hmem : ∀ type ∈ otherRecord.possibleTypes, type ∈ record.possibleTypes)
    (hfields : otherRecord.fields = [] → record.fields = [])
    (h : needsInlineFragments options set record = true) :
    needsInlineFragments otherOptions other otherRecord = true := by
  obtain ⟨hapart, hnames⟩ := needsInlineFragments_eq_true.mp h
  refine needsInlineFragments_eq_true.mpr ⟨?_, fun homitted hempty => ?_⟩
  · rw [Bool.eq_false_iff] at hapart ⊢
    intro hcontained
    rw [PossibleTypes.contained_eq_true, htypes] at hcontained
    exact hapart (PossibleTypes.contained_eq_true.mpr fun type htype =>
      hmem type (hcontained type htype))
  · obtain ⟨name, hname, hnot⟩ := hnames (homit ▸ homitted) (hfields hempty)
    refine ⟨name, ?_, ?_⟩
    · rw [hspreads, SelectionSet.mem_spreadNamesFor]
      exact (SelectionSet.mem_spreadNamesFor.mp hname).mono hmem
    · rwa [SelectionSet.spreadNames, hspreads, htypes]

end

section

variable {schema : Schema} {options otherOptions : Options} {document extended : Typed.Document}
  (hextension : IsExtension schema options otherOptions document extended)
include hextension

theorem exists_visited_of_typeCaseOf {inside : Bool} {set other : SelectionSet}
    (hset : set.Gains inside other) {typeCase otherTypeCase : TypeCase}
    (htypeCase : typeCaseOf options document set = .ok typeCase)
    (hother : typeCaseOf otherOptions extended other = .ok otherTypeCase) :
    ∃ merged otherMerged : SelectionSet,
      merged.typeCase = typeCase ∧ otherMerged.typeCase = otherTypeCase ∧
      merged.possibleTypes = set.possibleTypes ∧ otherMerged.possibleTypes = set.possibleTypes ∧
      Visited.Gains (fun member => member.IsTypename ∧
        (options.mergeSpreadFields = false → member.conditions = [])) merged.visited
        otherMerged.visited := by
  rw [typeCaseOf] at htypeCase
  rw [typeCaseOf, hextension.mergeSpreadFields] at hother
  cases hmerge : options.mergeSpreadFields with
  | false =>
    rw [hmerge] at htypeCase hother
    exact ⟨set, other, Except.ok.inj htypeCase, Except.ok.inj hother, rfl, hset.possibleTypes,
      hset.visited.mono fun _ h => ⟨h.1, fun _ => h.2⟩⟩
  | true =>
    rw [hmerge] at htypeCase hother
    simp only [if_true, Outcome.bind_eq_ok, Outcome.pure_eq_ok] at htypeCase hother
    obtain ⟨merged, hmerged, rfl⟩ := htypeCase
    obtain ⟨otherMerged, hotherMerged, rfl⟩ := hother
    refine ⟨merged, otherMerged, rfl, rfl, ?_, ?_, ?_⟩
    · exact (Typed.Document.selects_of_inlined hmerged "").1
    · rw [(Typed.Document.selects_of_inlined hotherMerged "").1, hset.possibleTypes]
    · exact (hextension.gains.visited_inlined hset hmerged hotherMerged).mono
        fun _ h => ⟨h, by simp⟩

end

section

variable {options otherOptions : Options} {set other merged otherMerged : SelectionSet}
  {record otherRecord : Record} {type : String}
  (hvisited : Visited.Gains (fun member => member.IsTypename ∧
    (options.mergeSpreadFields = false → member.conditions = [])) merged.visited
    otherMerged.visited)
  (htypes : otherMerged.possibleTypes = merged.possibleTypes)
  (hrecord : record ∈ merged.typeCase.records) (hin : type ∈ record.possibleTypes)
  (hother : otherRecord ∈ otherMerged.typeCase.records)
  (hotherIn : type ∈ otherRecord.possibleTypes)
include hvisited htypes hrecord hin hother hotherIn

theorem eq_typename_of_mem_keys (hfields : record.fields = []) {key : String}
    (hkey : key ∈ otherRecord.keys) : key = "__typename" := by
  rcases SelectionSet.mem_keys_of_gained hvisited htypes hrecord hin hother hotherIn hkey with
    hold | ⟨member, ⟨htypename, _⟩, hmember, _⟩
  · exact absurd hold (Typed.Record.fields_eq_nil.mp hfields key)
  · exact Option.some.inj (hmember.symm.trans htypename)

/-- What is shown by the inline fragment of a record that had nothing to show. -/
theorem responseName_eq_typename {flattenNested : SelectionSet → Except FragmentError Selection}
    (hfields : record.fields = []) (hnamed : ∀ field ∈ otherRecord.fields, field.head.IsNamed)
    {flats : List Field}
    (hflats : otherRecord.fields.mapM (Field.ofTyped flattenNested) = .ok flats) :
    ∀ field ∈ flats, field.responseName = "__typename" := by
  intro field hfield
  obtain ⟨original, horiginal, hof⟩ := Outcome.exists_of_mem_mapM hflats hfield
  rw [responseName_of_ofTyped_field (hnamed original horiginal) hof]
  exact eq_typename_of_mem_keys hvisited htypes hrecord hin hother hotherIn hfields
    (List.mem_map_of_mem horiginal)

variable {inside : Bool} (hset : set.Gains inside other)
  (homit : otherOptions.omitEmptyInlineFragments = options.omitEmptyInlineFragments)
include hset homit

theorem needsInlineFragments_of_gained (h : needsInlineFragments options set record = true) :
    needsInlineFragments otherOptions other otherRecord = true := by
  refine needsInlineFragments_mono homit hset.possibleTypes hset.spreadNamesFor_eq ?_ ?_ h
  · intro shared hshared
    exact SelectionSet.mem_record_of_gained hvisited htypes hrecord hin hother hotherIn hshared
  · rw [Typed.Record.fields_eq_nil, Typed.Record.fields_eq_nil]
    intro hnone key hkey
    exact hnone key
      (SelectionSet.mem_keys_of_kept hvisited htypes hrecord hin hother hotherIn hkey)

/-- Without fragments merged in, added fields are among the default fields. -/
theorem needsInlineFragments_of_not_merging (hmerge : options.mergeSpreadFields = false)
    (h : needsInlineFragments otherOptions other otherRecord = true) :
    needsInlineFragments options set record = true := by
  have hall : ∀ member : Visited, (member.IsTypename ∧
      (options.mergeSpreadFields = false → member.conditions = [])) →
        ∀ type ∈ merged.possibleTypes, member.AppliesTo type := by
    rintro member ⟨_, hconditions⟩ type _
    rw [Visited.AppliesTo, hconditions hmerge]
    exact List.forall_mem_nil _
  refine needsInlineFragments_mono homit.symm hset.possibleTypes.symm
    (fun types => (hset.spreadNamesFor_eq types).symm) ?_ ?_ h
  · intro shared hshared
    exact SelectionSet.mem_record_of_kept hvisited htypes hrecord hin hother hotherIn hall hshared
  · rw [Typed.Record.fields_eq_nil, Typed.Record.fields_eq_nil]
    intro hnone key hkey
    rcases SelectionSet.mem_keys_of_gained hvisited htypes hrecord hin hother hotherIn hkey with
      hold | ⟨member, hadded, _, hpartial⟩
    · exact hnone key hold
    · exact hpartial (hall member hadded)

end

theorem MadeOf.gainsInline {schema : Schema} {options otherOptions : Options}
    {document extended : Typed.Document}
    (hextension : IsExtension schema options otherOptions document extended) {inside : Bool}
    {pieces others : List SelectionSet} {type : String} {node other : Selection}
    (hgains : List.Forall₂ (SelectionSet.Gains inside) pieces others)
    (hnode : MadeOf schema options document type pieces node)
    (hother : MadeOf schema otherOptions extended type others other) :
    node.GainsInline options.mergeSpreadFields other := by
  have hset : SelectionSet.Gains inside
      ⟨schema.possibleTypes type, pieces.flatMap (·.selections)⟩
      ⟨schema.possibleTypes type, others.flatMap (·.selections)⟩ :=
    ⟨rfl, Typed.Selection.Gains.flatMap hgains⟩
  have homit := hextension.omitEmptyInlineFragments
  obtain ⟨_, _, htypeCase, hstep, _⟩ := hnode.exists_flattenStep hextension.sound
  obtain ⟨_, _, hotherCase, hotherStep, _⟩ := hother.exists_flattenStep hextension.otherSound
  obtain ⟨merged, otherMerged, hmerged, hotherMerged, htypes, hotherTypes, hvisited⟩ :=
    exists_visited_of_typeCaseOf hextension hset htypeCase hotherCase
  rw [← hmerged] at htypeCase
  rw [← hotherMerged] at hotherCase
  have hsame := hotherTypes.trans htypes.symm
  have hnamed := isNamed_of_mem_fields hotherCase hextension.otherNames
    (hother.composes.hasNames hextension.otherNames)
  have hrecords : ∀ shown ∈ schema.possibleTypes type,
      (∃ record ∈ merged.typeCase.records, shown ∈ record.possibleTypes) ∧
        ∃ record ∈ otherMerged.typeCase.records, shown ∈ record.possibleTypes := fun shown hshown =>
    ⟨merged.sorts_typeCase.partition.covered shown (htypes ▸ hshown),
      otherMerged.sorts_typeCase.partition.covered shown (hotherTypes ▸ hshown)⟩
  constructor
  · intro shown fragment hfound
    obtain ⟨⟨record, hrecord, hin⟩, otherRecord, hotherRecord, hotherIn⟩ :=
      hrecords shown (mem_possibleTypes_of_inlineFor? hstep hfound)
    have hinline := inlineFor?_of_flattenStep hstep htypeCase hrecord hin
    have hotherInline := inlineFor?_of_flattenStep hotherStep hotherCase hotherRecord hotherIn
    split at hinline
    · rename_i hneeds
      rw [if_pos (needsInlineFragments_of_gained hvisited hsame hrecord hin hotherRecord hotherIn
        hset homit hneeds)] at hotherInline
      obtain ⟨flats, _, heq⟩ := hinline
      obtain ⟨otherFlats, _, hgained⟩ := hotherInline
      obtain rfl := Option.some.inj (heq.symm.trans hfound)
      exact ⟨_, hgained, hset.spreadNamesFor_eq [shown]⟩
    · exact absurd (hinline.symm.trans hfound) (Option.some_ne_none fragment).symm
  · intro shown gained hnone hfound
    have hshown := mem_possibleTypes_of_inlineFor? hotherStep hfound
    obtain ⟨⟨record, hrecord, hin⟩, otherRecord, hotherRecord, hotherIn⟩ := hrecords shown hshown
    have hinline := inlineFor?_of_flattenStep hstep htypeCase hrecord hin
    have hotherInline := inlineFor?_of_flattenStep hotherStep hotherCase hotherRecord hotherIn
    split at hinline
    · obtain ⟨flats, _, heq⟩ := hinline
      exact absurd (heq.symm.trans hnone) (Option.some_ne_none _)
    rename_i hneeds
    split at hotherInline
    · rename_i hotherNeeds
      obtain ⟨flats, hflats, heq⟩ := hotherInline
      obtain rfl := Option.some.inj (heq.symm.trans hfound)
      refine ⟨?_, ?_, fun name hname => ?_⟩
      · by_contra hmerge
        exact hneeds (needsInlineFragments_of_not_merging hvisited hsame hrecord hin hotherRecord
          hotherIn hset homit (Bool.eq_false_iff.mpr hmerge) hotherNeeds)
      · refine responseName_eq_typename hvisited hsame hrecord hin hotherRecord hotherIn
          (fields_eq_nil_of_not_needs htypeCase hrecord (Bool.eq_false_iff.mpr hneeds)) ?_ hflats
        exact fun field hfield => hnamed field
          (Typed.TypeCase.mem_fields.mpr (Or.inr ⟨otherRecord, hotherRecord, hfield⟩))
      · rw [hnode.spreads_eq hextension.sound, SelectionSet.spreadNames,
          SelectionSet.mem_spreadNamesFor] at hname
        show name ∈ SelectionSet.spreadNamesFor _ [shown]
        rw [hset.spreadNamesFor_eq, SelectionSet.mem_spreadNamesFor]
        exact hname.mono (List.forall_mem_singleton.mpr hshown)
    · exact absurd (hotherInline.symm.trans hfound) (Option.some_ne_none gained).symm

end QueryShape.Flat
