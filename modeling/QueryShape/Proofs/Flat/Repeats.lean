import QueryShape.Proofs.Flat.Flattening
import QueryShape.Proofs.Typed.Conditional
import QueryShape.Proofs.Typed.Repeats
import QueryShape.Proofs.Typed.WellFormed

/-!
# Selecting the same again changes nothing

Merging fields appends nested selections even if they are selected already, so that a type case is
changed by selections that occur again. Its flat form is not: by induction on the depth the longer
nested sets have the flat forms of the shorter ones.
-/

set_option autoImplicit false

namespace QueryShape.Flat

open Typed (FragmentError SelectionSet Record TypeCase)

section

variable {flattenNested : SelectionSet → Except FragmentError Selection}

/-- The selection set of the field is flattened alike if selections occur in it again. -/
def FlattensAlike (flattenNested : SelectionSet → Except FragmentError Selection)
    (field : Typed.Field) : Prop :=
  ∀ nested, field.selectionSet = some nested → ∀ other, nested.Repeats other →
    flattenNested other = flattenNested nested

theorem ofTyped_field_of_repeats {field other : Typed.Field} (h : field.Repeats other)
    (halike : FlattensAlike flattenNested field) :
    Field.ofTyped flattenNested other = Field.ofTyped flattenNested field := by
  obtain ⟨hhead, hset⟩ := h
  rw [Field.ofTyped, Field.ofTyped, hhead]
  cases hnested : field.selectionSet with
  | none =>
    rw [hnested] at hset
    generalize other.selectionSet = found at hset ⊢
    cases hset
    rfl
  | some nested =>
    rw [hnested] at hset
    generalize other.selectionSet = found at hset ⊢
    cases hset with
    | some hrepeats => simp only [halike nested hnested _ hrepeats]

theorem mapM_ofTyped_of_repeats {fields others : List Typed.Field}
    (h : List.Forall₂ Typed.Field.Repeats fields others)
    (halike : ∀ field ∈ fields, FlattensAlike flattenNested field) :
    others.mapM (Field.ofTyped flattenNested) = fields.mapM (Field.ofTyped flattenNested) :=
  Outcome.mapM_eq_of_forall₂ h fun field hfield _ hrepeats =>
    ofTyped_field_of_repeats hrepeats (halike field hfield)

variable {set other : SelectionSet} (h : set.Repeats other)
include h

theorem spreadNames_of_repeats : other.spreadNames = set.spreadNames := by
  rw [SelectionSet.spreadNames, h.possibleTypes, h.spreadNamesFor_eq, ← SelectionSet.spreadNames]

theorem needsInlineFragments_of_repeats (options : Options) {record otherRecord : Record}
    (hrecord : record.Repeats otherRecord) :
    needsInlineFragments options other otherRecord = needsInlineFragments options set record := by
  have hempty : otherRecord.fields.isEmpty = record.fields.isEmpty := by
    rw [Bool.eq_iff_iff, List.isEmpty_iff_length_eq_zero, List.isEmpty_iff_length_eq_zero,
      hrecord.fields.length_eq]
  rw [needsInlineFragments, h.possibleTypes, hrecord.possibleTypes, hempty, h.spreadNamesFor_eq,
    spreadNames_of_repeats h, ← needsInlineFragments]

theorem inlineGroup_of_repeats {record otherRecord : Record}
    (hrecord : record.Repeats otherRecord)
    (halike : ∀ field ∈ record.fields, FlattensAlike flattenNested field) :
    inlineGroup flattenNested other otherRecord = inlineGroup flattenNested set record := by
  have hfragments : inlineFragmentsFor other otherRecord = inlineFragmentsFor set record := by
    funext fields
    simp only [inlineFragmentsFor, hrecord.possibleTypes, h.spreadNamesFor_eq]
  rw [inlineGroup, mapM_ofTyped_of_repeats hrecord.fields halike, hfragments, ← inlineGroup]

theorem flattenStep_of_repeats {options : Options} {document : Typed.Document}
    {typeCase otherCase : TypeCase} (htypeCase : typeCaseOf options document set = .ok typeCase)
    (hotherCase : typeCaseOf options document other = .ok otherCase)
    (hcases : typeCase.Repeats otherCase)
    (halike : ∀ field ∈ typeCase.fields, FlattensAlike flattenNested field) :
    flattenStep options document flattenNested other =
      flattenStep options document flattenNested set := by
  have hfields : otherCase.defaultRecord.fields.mapM (Field.ofTyped flattenNested) =
      typeCase.defaultRecord.fields.mapM (Field.ofTyped flattenNested) :=
    mapM_ofTyped_of_repeats hcases.defaultFields fun field hfield =>
      halike field (TypeCase.mem_fields.mpr (Or.inl hfield))
  have hgroups : (otherCase.records.filter (needsInlineFragments options other)).mapM
        (inlineGroup flattenNested other) =
      (typeCase.records.filter (needsInlineFragments options set)).mapM
        (inlineGroup flattenNested set) := by
    have hsame : ∀ ⦃record otherRecord : Record⦄, record.Repeats otherRecord →
        (needsInlineFragments options set record = true ↔
          needsInlineFragments options other otherRecord = true) := by
      intro record otherRecord hrecord
      rw [needsInlineFragments_of_repeats h options hrecord]
    have hneeds := List.rel_filter hsame hcases.records
    apply Outcome.mapM_eq_of_forall₂ hneeds
    intro record hrecord otherRecord hrepeats
    apply inlineGroup_of_repeats h hrepeats
    intro field hfield
    exact halike field
      (TypeCase.mem_fields.mpr (Or.inr ⟨record, List.mem_of_mem_filter hrecord, hfield⟩))
  rw [flattenStep, flattenStep, htypeCase, hotherCase]
  change (otherCase.defaultRecord.fields.mapM (Field.ofTyped flattenNested) >>= fun _ => _) =
    typeCase.defaultRecord.fields.mapM (Field.ofTyped flattenNested) >>= fun _ => _
  simp only [hfields, hgroups, spreadNames_of_repeats h]

end

section

variable {schema : Schema} {document : Typed.Document} (hsound : document.IsSound schema)
include hsound

theorem isRegular_of_selects {set merged : SelectionSet} (hset : document.Composes set.selections)
    {follow : Bool} (hselects : ∀ type, document.Selects follow type [] set.possibleTypes
      set.selections (merged.selectedFor type)) :
    ∀ field types, .field field types ∈ merged.occurrences → field.head.IsRegular := by
  intro field types hmem
  obtain ⟨type, htype, hin⟩ := SelectionSet.exists_possibleType_of_mem_occurrences hmem
  have hfield : field ∈ Typed.fieldsFor type field.responseKey merged.occurrences := by
    exact Typed.mem_fieldsWhere.mpr ⟨types, hmem, List.contains_iff_mem.mpr hin, rfl⟩
  rw [SelectionSet.fieldsFor_occurrences, Typed.Selection.fieldsFor_allOccurrences,
    if_pos htype] at hfield
  obtain ⟨member, hmember, rfl⟩ := List.mem_map.mp (List.mem_of_mem_filter hfield)
  rw [Typed.Selected.head_conditional]
  exact ((hselects type).isPlain hsound.fits hset member hmember).isRegular_under member.checks

variable {options : Options} {set other : SelectionSet}

theorem exists_typeCaseOf_repeats (hset : document.Composes set.selections)
    (h : set.Repeats other) {typeCase : TypeCase}
    (htypeCase : typeCaseOf options document set = .ok typeCase) :
    ∃ otherCase, typeCaseOf options document other = .ok otherCase ∧
      typeCase.Repeats otherCase := by
  rw [typeCaseOf] at htypeCase ⊢
  cases hmerge : options.mergeSpreadFields with
  | false =>
    rw [hmerge] at htypeCase
    simp only [Bool.false_eq_true, if_false, Outcome.pure_eq_ok] at htypeCase ⊢
    subst htypeCase
    have hselects : ∀ type, document.Selects false type [] set.possibleTypes set.selections
        (set.selectedFor type) :=
      fun type => Typed.Document.Selects.of_passing document type [] _ _
    exact ⟨_, rfl, h.typeCase (isRegular_of_selects hsound hset hselects)⟩
  | true =>
    rw [hmerge] at htypeCase
    simp only [if_true, Outcome.bind_eq_ok, Outcome.pure_eq_ok] at htypeCase ⊢
    obtain ⟨merged, hmerged, rfl⟩ := htypeCase
    obtain ⟨mergedOther, hmergedOther, hrepeats⟩ := h.exists_inlined hmerged
    refine ⟨_, ⟨mergedOther, hmergedOther, rfl⟩, hrepeats.typeCase ?_⟩
    exact isRegular_of_selects hsound hset fun type =>
      (Typed.Document.selects_of_inlined hmerged type).2

omit hsound in
theorem composes_nested (hset : document.Composes set.selections) {typeCase : TypeCase}
    (htypeCase : typeCaseOf options document set = .ok typeCase) {field : Typed.Field}
    (hfield : field ∈ typeCase.fields) {nested : SelectionSet}
    (hnested : field.selectionSet = some nested) : document.Composes nested.selections := by
  obtain ⟨_, _, _, hselects, _, horigin⟩ := exists_origins_of_mem_fields htypeCase hfield hnested
  intro selection hselection
  obtain ⟨origin, hmem, inner, hinner, hin⟩ := horigin selection hselection
  obtain ⟨outer, houter, horiginMem⟩ := hselects.composes hset hmem
  rw [Typed.Field.toSelection, hinner] at horiginMem
  exact ⟨inner, houter.inner horiginMem rfl, hin⟩

theorem flatten_of_repeats (hset : document.Composes set.selections) (h : set.Repeats other) :
    flatten options document other = flatten options document set := by
  have hacyclic : options.mergeSpreadFields = true → document.IsAcyclic := fun _ => hsound.acyclic
  induction hdepth : Typed.Selection.allDepthThrough (spreadDepth options document) set.selections
    using Nat.strong_induction_on generalizing set other with
  | h depth ih =>
    have hdefines := hset.defines hsound.closed
    have hotherSet : document.Composes other.selections := by
      obtain ⟨extra, hextra, hsubset⟩ := h.selections
      rw [hextra]
      intro selection hselection
      rcases List.mem_append.mp hselection with hselection | hselection
      · exact hset selection hselection
      · exact hset selection (hsubset selection hselection)
    obtain ⟨typeCase, htypeCase⟩ := exists_typeCaseOf hsound.closed hacyclic hdefines
    obtain ⟨otherCase, hotherCase, hcases⟩ := exists_typeCaseOf_repeats hsound hset h htypeCase
    rw [flatten_eq hsound.closed hacyclic hdefines,
      flatten_eq hsound.closed hacyclic (hotherSet.defines hsound.closed)]
    -- Further selections do not make the depth grow, so that it goes down with the shorter set.
    apply flattenStep_of_repeats h htypeCase hotherCase hcases
    intro field hfield nested hnested repeated hrepeated
    exact ih _ (hdepth ▸ depth_nested_lt htypeCase hacyclic hfield hnested)
      (composes_nested hset htypeCase hfield hnested) hrepeated rfl

end

section

variable {schema : Schema} {options compileOptions : Options} {filePath : Option String}
  {source : Source.Document} {document : Typed.Document}

/-- Whatever selections of a compiled document make up a set: it has a flat form, which does not
change if some of its selections are added again, in any order and number. -/
theorem flatten_append_repeated
    (hcompile : Typed.Document.compile schema compileOptions filePath source = .ok document)
    {set : SelectionSet} (hset : document.Composes set.selections)
    {extra : List Typed.Selection} (hextra : ∀ selection ∈ extra, selection ∈ set.selections) :
    ∃ node, flatten options document set = .ok node ∧
      flatten options document { set with selections := set.selections ++ extra } = .ok node := by
  have hsound := Typed.Document.isSound_of_compile hcompile
  obtain ⟨node, hnode⟩ : ∃ node, flatten options document set = .ok node :=
    exists_flatten hsound.closed (fun _ => hsound.acyclic) (hset.defines hsound.closed)
  have hrepeats : set.Repeats { set with selections := set.selections ++ extra } :=
    ⟨rfl, extra, rfl, hextra⟩
  exact ⟨node, hnode, (flatten_of_repeats hsound hset hrepeats).trans hnode⟩

end

theorem flatten_append_repeated_animalsWhen :
    ∃ document fragment node,
      Typed.Document.compile Schema.animals {} none Typed.animalsWhen = .ok document ∧
      document.fragment? "OfAnimals" = some fragment ∧
      fragment.selectionSet.selections.length = 3 ∧
      flatten {} document fragment.selectionSet = .ok node ∧
      flatten {} document { fragment.selectionSet with
        selections := fragment.selectionSet.selections ++
          fragment.selectionSet.selections.reverse } = .ok node := by
  obtain ⟨document, fragment, hcompile, hfragment, hlength⟩ := Typed.exists_fragment_animalsWhen
  have hset : document.Composes fragment.selectionSet.selections :=
    (Typed.Document.hasSet_of_fragment? hfragment).composes
  have hextra : ∀ selection ∈ fragment.selectionSet.selections.reverse,
      selection ∈ fragment.selectionSet.selections := fun selection => List.mem_reverse.mp
  obtain ⟨node, hnode, hrepeated⟩ := flatten_append_repeated hcompile hset hextra
  exact ⟨document, fragment, node, hcompile, hfragment, hlength, hnode, hrepeated⟩

end QueryShape.Flat
