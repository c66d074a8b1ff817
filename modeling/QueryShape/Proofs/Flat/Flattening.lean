import QueryShape.Proofs.Flat.TypeCase

/-!
# Flattening without a bound

The bound on the depth that flattening goes to is never met in a closed document whose fragments do
not spread each other in a cycle: every selection set has a flat form, which is one step over the
flat forms of the sets inside its fields.
-/

set_option autoImplicit false

namespace QueryShape.Flat

open Typed (FragmentError SelectionSet Record TypeCase)

def inlineGroup (flattenNested : SelectionSet → Except FragmentError Selection)
    (set : SelectionSet) (record : Record) : Except FragmentError (List InlineFragment) := do
  return inlineFragmentsFor set record (← record.fields.mapM (Field.ofTyped flattenNested))

/-- One step of flattening, given how nested sets are flattened. -/
def flattenStep (options : Options) (document : Typed.Document)
    (flattenNested : SelectionSet → Except FragmentError Selection) (set : SelectionSet) :
    Except FragmentError Selection := do
  let typeCase ← typeCaseOf options document set
  let fields ← typeCase.defaultRecord.fields.mapM (Field.ofTyped flattenNested)
  let groups ←
    (typeCase.records.filter (needsInlineFragments options set)).mapM
      (inlineGroup flattenNested set)
  return { fields, spreads := set.spreadNames, inlineFragments := groups.flatten }

section

variable {options : Options} {document : Typed.Document} {set : SelectionSet}
  {flattenNested : SelectionSet → Except FragmentError Selection} {node : Selection}

theorem ofTyped_succ (bound : Nat) :
    Selection.ofTyped options document (bound + 1) set =
      flattenStep options document (Selection.ofTyped options document bound) set :=
  rfl

theorem flattenStep_eq_ok :
    flattenStep options document flattenNested set = .ok node ↔
      ∃ typeCase, typeCaseOf options document set = .ok typeCase ∧
        ∃ fields, typeCase.defaultRecord.fields.mapM (Field.ofTyped flattenNested) = .ok fields ∧
        ∃ groups, (typeCase.records.filter (needsInlineFragments options set)).mapM
            (inlineGroup flattenNested set) = .ok groups ∧
          ⟨fields, set.spreadNames, groups.flatten⟩ = node := by
  simp only [flattenStep, Outcome.bind_eq_ok, Outcome.pure_eq_ok]

theorem inlineGroup_eq_ok {record : Record} {group : List InlineFragment} :
    inlineGroup flattenNested set record = .ok group ↔
      ∃ fields, record.fields.mapM (Field.ofTyped flattenNested) = .ok fields ∧
        inlineFragmentsFor set record fields = group := by
  simp only [inlineGroup, Outcome.bind_eq_ok, Outcome.pure_eq_ok]

theorem exists_record_of_mem_flatten {records : List Record} {groups : List (List InlineFragment)}
    (h : records.mapM (inlineGroup flattenNested set) = .ok groups) {fragment : InlineFragment}
    (hfragment : fragment ∈ groups.flatten) :
    ∃ record ∈ records, ∃ type ∈ record.possibleTypes, ∃ flats,
      record.fields.mapM (Field.ofTyped flattenNested) = .ok flats ∧
        fragment = .mk type flats (set.spreadNamesFor [type]) := by
  obtain ⟨group, hgroup, hmem⟩ := List.mem_flatten.mp hfragment
  obtain ⟨record, hrecord, hof⟩ := Outcome.exists_of_mem_mapM h hgroup
  obtain ⟨flats, hflats, rfl⟩ := inlineGroup_eq_ok.mp hof
  obtain ⟨type, htype, rfl⟩ := List.mem_map.mp hmem
  exact ⟨record, hrecord, type, htype, flats, hflats, rfl⟩

theorem ofTyped_field_eq_ok {field : Typed.Field} {flat : Field} :
    Field.ofTyped flattenNested field = .ok flat ↔
      (field.selectionSet = none ∧ .leaf (.ofTyped field.head) = flat) ∨
      ∃ nested inner, field.selectionSet = some nested ∧ flattenNested nested = .ok inner ∧
        .composite (.ofTyped field.head) inner.fields inner.spreads inner.inlineFragments =
          flat := by
  rw [Field.ofTyped]
  cases field.selectionSet with
  | none => simp
  | some nested =>
    simp only [Outcome.bind_eq_ok, Outcome.pure_eq_ok]
    simp

theorem exists_ofTyped_field {field : Typed.Field}
    (h : ∀ nested, field.selectionSet = some nested → ∃ inner, flattenNested nested = .ok inner) :
    ∃ flat, Field.ofTyped flattenNested field = .ok flat := by
  cases hset : field.selectionSet with
  | none => exact ⟨_, ofTyped_field_eq_ok.mpr (Or.inl ⟨hset, rfl⟩)⟩
  | some nested =>
    obtain ⟨inner, hinner⟩ := h nested hset
    exact ⟨_, ofTyped_field_eq_ok.mpr (Or.inr ⟨nested, inner, hset, hinner, rfl⟩)⟩

theorem ofTyped_field_of_imp {others : SelectionSet → Except FragmentError Selection}
    {field : Typed.Field} {flat : Field}
    (h : ∀ nested, field.selectionSet = some nested → ∀ inner,
      flattenNested nested = .ok inner → others nested = .ok inner)
    (hflat : Field.ofTyped flattenNested field = .ok flat) :
    Field.ofTyped others field = .ok flat := by
  rcases ofTyped_field_eq_ok.mp hflat with hleaf | ⟨nested, inner, hset, hinner, heq⟩
  · exact ofTyped_field_eq_ok.mpr (Or.inl hleaf)
  · exact ofTyped_field_eq_ok.mpr
      (Or.inr ⟨nested, inner, hset, h nested hset inner hinner, heq⟩)

variable {typeCase : TypeCase} (htypeCase : typeCaseOf options document set = .ok typeCase)
include htypeCase

theorem exists_flattenStep
    (h : ∀ field ∈ typeCase.fields, ∀ nested, field.selectionSet = some nested →
      ∃ inner, flattenNested nested = .ok inner) :
    ∃ node, flattenStep options document flattenNested set = .ok node := by
  obtain ⟨fields, hfields⟩ := Outcome.exists_mapM_eq_ok fun field hfield =>
    exists_ofTyped_field (h field (TypeCase.mem_fields.mpr (Or.inl hfield)))
  obtain ⟨groups, hgroups⟩ : ∃ groups,
      (typeCase.records.filter (needsInlineFragments options set)).mapM
        (inlineGroup flattenNested set) = .ok groups := by
    apply Outcome.exists_mapM_eq_ok
    intro record hrecord
    have hmem := List.mem_of_mem_filter hrecord
    obtain ⟨fields, hfields⟩ := Outcome.exists_mapM_eq_ok fun field hfield =>
      exists_ofTyped_field (h field (TypeCase.mem_fields.mpr (Or.inr ⟨record, hmem, hfield⟩)))
    exact ⟨_, inlineGroup_eq_ok.mpr ⟨fields, hfields, rfl⟩⟩
  exact ⟨_, flattenStep_eq_ok.mpr ⟨typeCase, htypeCase, fields, hfields, groups, hgroups, rfl⟩⟩

theorem flattenStep_of_imp {other : Typed.Document}
    {others : SelectionSet → Except FragmentError Selection}
    (hother : typeCaseOf options other set = .ok typeCase)
    (h : ∀ field ∈ typeCase.fields, ∀ nested, field.selectionSet = some nested →
      ∀ inner, flattenNested nested = .ok inner → others nested = .ok inner)
    (hnode : flattenStep options document flattenNested set = .ok node) :
    flattenStep options other others set = .ok node := by
  obtain ⟨_, hsame, fields, hfields, groups, hgroups, rfl⟩ := flattenStep_eq_ok.mp hnode
  obtain rfl := Except.ok.inj (htypeCase.symm.trans hsame)
  refine flattenStep_eq_ok.mpr ⟨typeCase, hother, fields, ?_, groups, ?_, rfl⟩
  · apply Outcome.mapM_eq_ok_of_imp _ hfields
    intro field hfield flat
    exact ofTyped_field_of_imp (h field (TypeCase.mem_fields.mpr (Or.inl hfield)))
  · apply Outcome.mapM_eq_ok_of_imp _ hgroups
    intro record hrecord group hgroup
    have hmem := List.mem_of_mem_filter hrecord
    obtain ⟨fields, hfields, rfl⟩ := inlineGroup_eq_ok.mp hgroup
    refine inlineGroup_eq_ok.mpr ⟨fields, ?_, rfl⟩
    apply Outcome.mapM_eq_ok_of_imp _ hfields
    intro field hfield flat
    exact ofTyped_field_of_imp (h field (TypeCase.mem_fields.mpr (Or.inr ⟨record, hmem, hfield⟩)))

end

section

variable {options : Options} {document : Typed.Document} {set : SelectionSet} {node : Selection}

/-- A larger bound gives the same flat form, also in another document with the same type cases. -/
theorem ofTyped_of_imp {other : Typed.Document}
    (hother : ∀ set typeCase, typeCaseOf options document set = .ok typeCase →
      typeCaseOf options other set = .ok typeCase)
    {bound larger : Nat} (hle : bound ≤ larger)
    (h : Selection.ofTyped options document bound set = .ok node) :
    Selection.ofTyped options other larger set = .ok node := by
  induction bound generalizing larger set node with
  | zero => cases h
  | succ bound ih =>
    obtain ⟨larger, rfl⟩ := Nat.exists_eq_add_of_lt hle
    rw [ofTyped_succ] at h
    obtain ⟨typeCase, htypeCase, _⟩ := flattenStep_eq_ok.mp h
    rw [ofTyped_succ]
    apply flattenStep_of_imp htypeCase (hother set typeCase htypeCase) _ h
    intro _ _ nested _ inner hinner
    exact ih (Nat.le_add_right bound larger) hinner

theorem ofTyped_mono {bound larger : Nat} (hle : bound ≤ larger)
    (h : Selection.ofTyped options document bound set = .ok node) :
    Selection.ofTyped options document larger set = .ok node :=
  ofTyped_of_imp (fun _ _ => id) hle h

variable (hclosed : document.IsClosed)
  (hacyclic : options.mergeSpreadFields = true → document.IsAcyclic)
include hclosed hacyclic

theorem exists_ofTyped {bound : Nat} (hset : document.Defines set.selections)
    (hbound : Typed.Selection.allDepthThrough (spreadDepth options document) set.selections <
      bound) : ∃ node, Selection.ofTyped options document bound set = .ok node := by
  induction bound generalizing set with
  | zero => omega
  | succ bound ih =>
    obtain ⟨typeCase, htypeCase⟩ := exists_typeCaseOf hclosed hacyclic hset
    rw [ofTyped_succ]
    apply exists_flattenStep htypeCase
    intro field hfield nested hnested
    have hlt := depth_nested_lt htypeCase hacyclic hfield hnested
    exact ih (defines_nested htypeCase hclosed hset hfield hnested) (by omega)

theorem exists_flatten (hset : document.Defines set.selections) :
    ∃ node, flatten options document set = .ok node :=
  exists_ofTyped hclosed hacyclic hset (depth_lt_depthBound options document set)

/-- The flat form of a selection set is one step over the flat forms of the sets inside its fields.
-/
theorem flatten_eq (hset : document.Defines set.selections) :
    flatten options document set =
      flattenStep options document (flatten options document) set := by
  obtain ⟨node, hnode⟩ := exists_flatten hclosed hacyclic hset
  rw [hnode]
  symm
  rw [flatten, ofTyped_succ] at hnode
  obtain ⟨typeCase, htypeCase, _⟩ := flattenStep_eq_ok.mp hnode
  apply flattenStep_of_imp htypeCase htypeCase _ hnode
  intro field hfield nested hnested inner hinner
  have hdefines := defines_nested htypeCase hclosed hset hfield hnested
  obtain ⟨other, hother⟩ := exists_flatten hclosed hacyclic hdefines
  -- The two flat forms of the nested set have different bounds, and agree at the larger one.
  have hlarger :=
    ofTyped_mono (Nat.le_max_left _ (depthBound document nested + 1)) hinner
  have hsame := ofTyped_mono (Nat.le_max_right (depthBound document set) _) hother
  rw [hother, ← hsame, hlarger]

end

end QueryShape.Flat
