import QueryShape.Flat.OfTyped
import QueryShape.Proofs.Typed.Nested
import QueryShape.Proofs.Typed.Inlining
import QueryShape.Proofs.Typed.Keys

/-!
# The type case that a selection set is flattened by

Whether fragments are inlined first or not, the type case holds for every type what the selection
set selects for it. What is inside its fields is inside fields that the set selects, and so spreads
defined fragments only and is nested less deeply than the set.
-/

set_option autoImplicit false

namespace QueryShape.Typed

def TypeCase.fields (typeCase : TypeCase) : List Field :=
  typeCase.defaultRecord.fields ++ typeCase.records.flatMap (·.fields)

theorem TypeCase.mem_fields {typeCase : TypeCase} {field : Field} :
    field ∈ typeCase.fields ↔
      field ∈ typeCase.defaultRecord.fields ∨
        ∃ record ∈ typeCase.records, field ∈ record.fields := by
  rw [fields, List.mem_append, List.mem_flatMap]

end QueryShape.Typed

namespace QueryShape.Flat

open Typed (FragmentError SelectionSet Record TypeCase)

section

variable {options : Options} {document : Typed.Document} {set : SelectionSet} {typeCase : TypeCase}

/-- The type case that a set is flattened by holds for every type what the set selects for it, with
spreads followed if the options say so. -/
theorem exists_merged_of_typeCaseOf (h : typeCaseOf options document set = .ok typeCase) :
    ∃ merged : SelectionSet, merged.typeCase = typeCase ∧
      merged.possibleTypes = set.possibleTypes ∧
      ∀ type, document.Selects options.mergeSpreadFields type [] set.possibleTypes set.selections
        (merged.selectedFor type) := by
  rw [typeCaseOf] at h
  cases hmerge : options.mergeSpreadFields with
  | false =>
    rw [hmerge] at h
    simp only [Bool.false_eq_true, if_false, Outcome.pure_eq_ok] at h
    exact ⟨set, h, rfl, fun type => Typed.Document.Selects.of_passing document type [] _ _⟩
  | true =>
    rw [hmerge] at h
    simp only [if_true, Outcome.bind_eq_ok, Outcome.pure_eq_ok] at h
    obtain ⟨merged, hmerged, rfl⟩ := h
    refine ⟨merged, rfl, ?_, fun type => ?_⟩
    · exact (Typed.Document.selects_of_inlined hmerged "").1
    · exact (Typed.Document.selects_of_inlined hmerged type).2

theorem exists_typeCaseOf (hclosed : document.IsClosed)
    (hacyclic : options.mergeSpreadFields = true → document.IsAcyclic)
    (hset : document.Defines set.selections) :
    ∃ typeCase, typeCaseOf options document set = .ok typeCase := by
  rw [typeCaseOf]
  cases hmerge : options.mergeSpreadFields with
  | false => exact ⟨set.typeCase, rfl⟩
  | true =>
    obtain ⟨merged, hmerged⟩ := Typed.Document.exists_inlined hclosed (hacyclic hmerge) hset
    rw [hmerged]
    exact ⟨merged.typeCase, rfl⟩

theorem exists_members_of_mem_fields {merged : SelectionSet} {field : Typed.Field}
    (hfield : field ∈ merged.typeCase.fields) :
    ∃ type ∈ merged.possibleTypes, ∃ members : List Typed.Selected,
      Typed.Field.mergeAll (members.map Typed.Selected.conditional) = some field ∧
        ∀ member ∈ members, member ∈ merged.selectedFor type ∧
          member.field.responseKey = field.responseKey := by
  rcases TypeCase.mem_fields.mp hfield with hdefault | ⟨record, hrecord, hfield⟩
  · obtain ⟨type, htype⟩ := SelectionSet.exists_possibleType_of_mem_default hdefault
    exact ⟨type, htype, SelectionSet.exists_selected_of_held htype (Or.inl hdefault)⟩
  · obtain ⟨type, htype⟩ := List.exists_mem_of_ne_nil _
      (merged.sorts_typeCase.partition.nonempty record hrecord)
    have hin := merged.sorts_typeCase.partition.within record hrecord type htype
    exact ⟨type, hin, SelectionSet.exists_selected_of_held hin
      (Or.inr ⟨record, hrecord, htype, hfield⟩)⟩

theorem exists_selected_of_mem_fields (h : typeCaseOf options document set = .ok typeCase)
    {field : Typed.Field} (hfield : field ∈ typeCase.fields) :
    ∃ type ∈ set.possibleTypes, ∃ selected,
      document.Selects options.mergeSpreadFields type [] set.possibleTypes set.selections selected ∧
      ∃ fields, Typed.Field.mergeAll fields = some field ∧
        ∀ member ∈ fields, ∃ origin ∈ selected, origin.conditional = member := by
  obtain ⟨merged, rfl, htypes, hselects⟩ := exists_merged_of_typeCaseOf h
  obtain ⟨type, htype, members, hmerge, hmembers⟩ := exists_members_of_mem_fields hfield
  refine ⟨type, htypes ▸ htype, _, hselects type, _, hmerge, ?_⟩
  rw [List.forall_mem_map]
  exact fun member hmember => ⟨member, (hmembers member hmember).1, rfl⟩

theorem exists_origins_of_mem_fields (h : typeCaseOf options document set = .ok typeCase)
    {field : Typed.Field} (hfield : field ∈ typeCase.fields) {nested : SelectionSet}
    (hnested : field.selectionSet = some nested) :
    ∃ type ∈ set.possibleTypes, ∃ selected,
      document.Selects options.mergeSpreadFields type [] set.possibleTypes set.selections selected ∧
      (∃ origin ∈ selected, ∃ inner, origin.field.selectionSet = some inner) ∧
      ∀ selection ∈ nested.selections, ∃ origin ∈ selected, ∃ inner,
        origin.field.selectionSet = some inner ∧ selection ∈ inner.selections := by
  obtain ⟨type, htype, selected, hselects, fields, hmerge, horigin⟩ :=
    exists_selected_of_mem_fields h hfield
  have hjoined : Typed.Field.joined? fields = some nested := by
    rw [← Typed.Field.selectionSet_mergeAll, hmerge]
    exact hnested
  refine ⟨type, htype, selected, hselects, ?_, ?_⟩
  · obtain ⟨member, hmember, inner, hinner⟩ := Typed.Field.exists_selectionSet_of_joined? hjoined
    obtain ⟨origin, hmem, rfl⟩ := horigin member hmember
    exact ⟨origin, hmem, inner, hinner⟩
  · intro selection hselection
    obtain ⟨member, hmember, inner, hinner, hin⟩ :=
      Typed.Field.exists_of_mem_joined? hjoined hselection
    obtain ⟨origin, hmem, rfl⟩ := horigin member hmember
    exact ⟨origin, hmem, inner, hinner, hin⟩

theorem defines_nested (h : typeCaseOf options document set = .ok typeCase)
    (hclosed : document.IsClosed) (hset : document.Defines set.selections)
    {field : Typed.Field} (hfield : field ∈ typeCase.fields) {nested : SelectionSet}
    (hnested : field.selectionSet = some nested) : document.Defines nested.selections := by
  obtain ⟨type, _, selected, hselects, _, horigin⟩ := exists_origins_of_mem_fields h hfield hnested
  apply Typed.Document.defines_iff.mpr
  intro selection hselection
  obtain ⟨origin, hmem, inner, hinner, hin⟩ := horigin selection hselection
  exact Typed.Document.defines_iff.mp (hselects.defines hclosed hset hmem hinner) selection hin

noncomputable def spreadDepth (options : Options) (document : Typed.Document) (name : String) :
    Nat :=
  if options.mergeSpreadFields then document.fragmentDepth name else 0

theorem depth_nested_lt (h : typeCaseOf options document set = .ok typeCase)
    (hacyclic : options.mergeSpreadFields = true → document.IsAcyclic)
    {field : Typed.Field} (hfield : field ∈ typeCase.fields) {nested : SelectionSet}
    (hnested : field.selectionSet = some nested) :
    Typed.Selection.allDepthThrough (spreadDepth options document) nested.selections <
      Typed.Selection.allDepthThrough (spreadDepth options document) set.selections := by
  obtain ⟨type, _, selected, hselects, ⟨first, hfirst, outer, houter⟩, horigin⟩ :=
    exists_origins_of_mem_fields h hfield hnested
  have hfragment : options.mergeSpreadFields = true → ∀ name fragment,
      document.fragment? name = some fragment →
        Typed.Selection.allDepthThrough (spreadDepth options document)
          fragment.selectionSet.selections ≤ spreadDepth options document name := by
    intro hmerge name fragment hdefined
    have hfollow : spreadDepth options document = document.fragmentDepth := by
      funext name
      simp [spreadDepth, hmerge]
    rw [hfollow]
    exact Typed.Document.allDepthThrough_fragment_le (hacyclic hmerge) hdefined
  have hpositive := hselects.depth_lt hfragment hfirst houter
  apply Nat.lt_of_le_of_lt (Typed.Selection.allDepthThrough_le.mpr _)
    (Nat.sub_one_lt_of_lt hpositive)
  intro selection hselection
  obtain ⟨origin, hmem, inner, hinner, hin⟩ := horigin selection hselection
  exact Nat.le_sub_one_of_lt (Nat.lt_of_le_of_lt (Typed.Selection.depthThrough_le_of_mem hin)
    (hselects.depth_lt hfragment hmem hinner))

theorem depthBound_eq (document : Typed.Document) (set : SelectionSet) :
    depthBound document set =
      set.depth + (document.fragments.map fun fragment => fragment.selectionSet.depth).sum := by
  rw [depthBound]
  induction document.fragments with
  | nil => rfl
  | cons fragment rest ih =>
    rw [List.foldr_cons, ih, List.map_cons, List.sum_cons]
    omega

theorem depth_lt_depthBound (options : Options) (document : Typed.Document) (set : SelectionSet) :
    Typed.Selection.allDepthThrough (spreadDepth options document) set.selections <
      depthBound document set + 1 := by
  rw [depthBound_eq]
  apply Nat.lt_succ_of_le
  apply Typed.Selection.allDepthThrough_le_maxDepth_add
  intro name _
  rw [spreadDepth]
  split
  · exact Typed.Document.reachCost_le _ name
  · exact Nat.zero_le _

end

end QueryShape.Flat
