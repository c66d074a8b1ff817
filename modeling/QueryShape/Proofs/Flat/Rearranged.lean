import QueryShape.Proofs.Flat.Repeats
import QueryShape.Proofs.Typed.Mergeable

/-!
# The order of selections only affects order

The flat form of selections in another order is the same up to the order of fields, of conditions
and of the names of fragments, at every depth, if fields that are merged differ in their conditions
and nested selections only. Inline fragments follow the possible types and stay in their order.
-/

set_option autoImplicit false

namespace QueryShape.Flat

open Typed (FragmentError SelectionSet Record TypeCase)

structure FieldHead.Reorders (head other : FieldHead) : Prop where
  rest : other = { head with conditions := other.conditions }
  conditions : Option.Rel List.Perm head.conditions other.conditions

mutual

/-- The other field has everything that the field has, in another order. -/
inductive Field.Reorders : Field → Field → Prop
  | leaf {head other : FieldHead} (hhead : head.Reorders other) :
      Field.Reorders (.leaf head) (.leaf other)
  | composite {head other : FieldHead} {fields ordered otherFields : List Field}
      {spreads otherSpreads : List String} {fragments otherFragments : List InlineFragment}
      (hhead : head.Reorders other) (hperm : fields.Perm ordered)
      (hfields : List.Forall₂ Field.Reorders ordered otherFields)
      (hspreads : spreads.Perm otherSpreads)
      (hfragments : List.Forall₂ InlineFragment.Reorders fragments otherFragments) :
      Field.Reorders (.composite head fields spreads fragments)
        (.composite other otherFields otherSpreads otherFragments)

inductive InlineFragment.Reorders : InlineFragment → InlineFragment → Prop
  | mk {type : String} {fields ordered otherFields : List Field}
      {spreads otherSpreads : List String} (hperm : fields.Perm ordered)
      (hfields : List.Forall₂ Field.Reorders ordered otherFields)
      (hspreads : spreads.Perm otherSpreads) :
      InlineFragment.Reorders (.mk type fields spreads) (.mk type otherFields otherSpreads)

end

/-- The other node has everything that the node has, in another order. -/
structure Selection.Reorders (node other : Selection) : Prop where
  fields : Matched Field.Reorders node.fields other.fields
  spreads : node.spreads.Perm other.spreads
  inlineFragments : List.Forall₂ InlineFragment.Reorders node.inlineFragments other.inlineFragments

theorem reorders_head_ofTyped {field other : Typed.Field} (h : field.Rearranges other) :
    (FieldHead.ofTyped field.head).Reorders (.ofTyped other.head) := by
  obtain ⟨hhead, hperm, _⟩ := h
  generalize other.head = otherHead at hhead hperm ⊢
  generalize otherHead.conditions = conditions at hhead hperm
  subst hhead
  constructor
  · rfl
  · have hempty : field.head.conditions.isEmpty = conditions.isEmpty := by
      rw [Bool.eq_iff_iff, List.isEmpty_iff, List.isEmpty_iff]
      exact ⟨fun hnil => (hnil ▸ hperm).nil_eq.symm, fun hnil => (hnil ▸ hperm).eq_nil⟩
    simp only [FieldHead.ofTyped, hempty]
    split
    · exact .none
    · exact .some hperm

section

variable {flattenNested : SelectionSet → Except FragmentError Selection}

def FlattensInOrder (flattenNested : SelectionSet → Except FragmentError Selection)
    (field : Typed.Field) : Prop :=
  ∀ nested, field.selectionSet = some nested → ∀ other, nested.Rearranges other →
    ∀ inner otherInner, flattenNested nested = .ok inner → flattenNested other = .ok otherInner →
      inner.Reorders otherInner

theorem reorders_of_ofTyped_field {field other : Typed.Field} (h : field.Rearranges other)
    (halike : FlattensInOrder flattenNested field) {flat otherFlat : Field}
    (hflat : Field.ofTyped flattenNested field = .ok flat)
    (hother : Field.ofTyped flattenNested other = .ok otherFlat) : flat.Reorders otherFlat := by
  have hhead := reorders_head_ofTyped h
  have hset := h.selectionSet
  rcases ofTyped_field_eq_ok.mp hflat with ⟨hnone, rfl⟩ | ⟨nested, inner, hnested, hinner, rfl⟩
  · rw [hnone] at hset
    rcases ofTyped_field_eq_ok.mp hother with ⟨_, rfl⟩ | ⟨_, _, hsome, _, _⟩
    · exact .leaf hhead
    · rw [hsome] at hset
      cases hset
  · rw [hnested] at hset
    rcases ofTyped_field_eq_ok.mp hother with
      ⟨hnone, _⟩ | ⟨otherNested, otherInner, hsome, hotherInner, rfl⟩
    · rw [hnone] at hset
      cases hset
    · rw [hsome] at hset
      cases hset with
      | some hset =>
        obtain ⟨⟨_, hperm, hfields⟩, hspreads, hfragments⟩ :=
          halike nested hnested otherNested hset inner otherInner hinner hotherInner
        exact .composite hhead hperm hfields hspreads hfragments

theorem reorders_mapM_ofTyped {fields others : List Typed.Field}
    (h : Matched Typed.Field.Rearranges fields others)
    (halike : ∀ field ∈ fields, FlattensInOrder flattenNested field) {flats otherFlats : List Field}
    (hflats : fields.mapM (Field.ofTyped flattenNested) = .ok flats)
    (hothers : others.mapM (Field.ofTyped flattenNested) = .ok otherFlats) :
    Matched Field.Reorders flats otherFlats :=
  h.mapM hflats hothers fun field hfield _ hrearranges _ _ =>
    reorders_of_ofTyped_field hrearranges (halike field hfield)

variable {set other : SelectionSet} (h : set.Rearranges other)
include h

theorem spreadNames_of_rearranges : set.spreadNames.Perm other.spreadNames := by
  rw [SelectionSet.spreadNames, SelectionSet.spreadNames, h.possibleTypes]
  exact h.spreadNamesFor_perm set.possibleTypes

theorem needsInlineFragments_of_rearranges (options : Options) {record otherRecord : Record}
    (hrecord : record.Rearranges otherRecord) :
    needsInlineFragments options other otherRecord = needsInlineFragments options set record := by
  have hempty : otherRecord.fields.isEmpty = record.fields.isEmpty := by
    rw [Bool.eq_iff_iff, List.isEmpty_iff_length_eq_zero, List.isEmpty_iff_length_eq_zero,
      hrecord.fields.length_eq]
  have hnames : (other.spreadNamesFor record.possibleTypes).any (· ∉ other.spreadNames) =
      (set.spreadNamesFor record.possibleTypes).any (· ∉ set.spreadNames) := by
    rw [(h.spreadNamesFor_perm record.possibleTypes).any_eq]
    simp only [(spreadNames_of_rearranges h).mem_iff]
  rw [needsInlineFragments, h.possibleTypes, hrecord.possibleTypes, hempty, hnames,
    ← needsInlineFragments]

theorem reorders_inlineGroup {record otherRecord : Record}
    (hrecord : record.Rearranges otherRecord)
    (halike : ∀ field ∈ record.fields, FlattensInOrder flattenNested field)
    {group otherGroup : List InlineFragment}
    (hgroup : inlineGroup flattenNested set record = .ok group)
    (hother : inlineGroup flattenNested other otherRecord = .ok otherGroup) :
    List.Forall₂ InlineFragment.Reorders group otherGroup := by
  obtain ⟨flats, hflats, rfl⟩ := inlineGroup_eq_ok.mp hgroup
  obtain ⟨otherFlats, hotherFlats, rfl⟩ := inlineGroup_eq_ok.mp hother
  obtain ⟨_, hperm, hfields⟩ := reorders_mapM_ofTyped hrecord.fields halike hflats hotherFlats
  rw [inlineFragmentsFor, inlineFragmentsFor, hrecord.possibleTypes, List.forall₂_map_left_iff,
    List.forall₂_map_right_iff, List.forall₂_same]
  exact fun type _ => .mk hperm hfields (h.spreadNamesFor_perm [type])

theorem reorders_flattenStep {options : Options} {document : Typed.Document}
    {typeCase otherCase : TypeCase} (htypeCase : typeCaseOf options document set = .ok typeCase)
    (hotherCase : typeCaseOf options document other = .ok otherCase)
    (hcases : typeCase.Rearranges otherCase)
    (halike : ∀ field ∈ typeCase.fields, FlattensInOrder flattenNested field)
    {node otherNode : Selection}
    (hnode : flattenStep options document flattenNested set = .ok node)
    (hother : flattenStep options document flattenNested other = .ok otherNode) :
    node.Reorders otherNode := by
  obtain ⟨_, hsame, fields, hfields, groups, hgroups, rfl⟩ := flattenStep_eq_ok.mp hnode
  obtain rfl := Except.ok.inj (htypeCase.symm.trans hsame)
  obtain ⟨_, hsame, otherFields, hotherFields, otherGroups, hotherGroups, rfl⟩ :=
    flattenStep_eq_ok.mp hother
  obtain rfl := Except.ok.inj (hotherCase.symm.trans hsame)
  constructor
  · exact reorders_mapM_ofTyped hcases.defaultFields
      (fun field hfield => halike field (TypeCase.mem_fields.mpr (Or.inl hfield))) hfields
      hotherFields
  · exact spreadNames_of_rearranges h
  · have hneeds : List.Forall₂ Typed.Record.Rearranges
        (typeCase.records.filter (needsInlineFragments options set))
        (otherCase.records.filter (needsInlineFragments options other)) := by
      refine List.rel_filter (fun record otherRecord hrecord => ?_) hcases.records
      simp only [needsInlineFragments_of_rearranges h options hrecord]
    apply List.rel_flatten
    apply forall₂_mapM hneeds hgroups hotherGroups
    intro record hrecord otherRecord _ hrearranges group otherGroup
    apply reorders_inlineGroup h hrearranges
    intro field hfield
    exact halike field
      (TypeCase.mem_fields.mpr (Or.inr ⟨record, List.mem_of_mem_filter hrecord, hfield⟩))

end

section

variable {options : Options} {document : Typed.Document} {set other : SelectionSet}

theorem exists_merged_rearranges (h : set.Rearranges other) {typeCase : TypeCase}
    (htypeCase : typeCaseOf options document set = .ok typeCase) :
    ∃ merged mergedOther : SelectionSet, merged.typeCase = typeCase ∧
      typeCaseOf options document other = .ok mergedOther.typeCase ∧
      merged.Rearranges mergedOther ∧ merged.possibleTypes = set.possibleTypes ∧
      ∀ type, document.Selects options.mergeSpreadFields type [] set.possibleTypes set.selections
        (merged.selectedFor type) := by
  rw [typeCaseOf] at htypeCase ⊢
  cases hmerge : options.mergeSpreadFields with
  | false =>
    rw [hmerge] at htypeCase
    simp only [Bool.false_eq_true, if_false, Outcome.pure_eq_ok] at htypeCase ⊢
    exact ⟨set, other, htypeCase, rfl, h, rfl,
      fun type => Typed.Document.Selects.of_passing document type [] _ _⟩
  | true =>
    rw [hmerge] at htypeCase
    simp only [if_true, Outcome.bind_eq_ok, Outcome.pure_eq_ok] at htypeCase ⊢
    obtain ⟨merged, hmerged, rfl⟩ := htypeCase
    obtain ⟨mergedOther, hmergedOther, hrearranges⟩ := h.exists_inlined hmerged
    exact ⟨merged, mergedOther, rfl, ⟨mergedOther, hmergedOther, rfl⟩, hrearranges,
      (Typed.Document.selects_of_inlined hmerged "").1,
      fun type => (Typed.Document.selects_of_inlined hmerged type).2⟩

variable {schema : Schema} (hsound : document.IsSound schema)
  (hset : document.Composes set.selections)
  (hagrees : document.Agrees options.mergeSpreadFields set)
include hsound hset hagrees

theorem exists_typeCaseOf_rearranges (h : set.Rearranges other) {typeCase : TypeCase}
    (htypeCase : typeCaseOf options document set = .ok typeCase) :
    ∃ otherCase, typeCaseOf options document other = .ok otherCase ∧
      typeCase.Rearranges otherCase := by
  obtain ⟨merged, mergedOther, rfl, hotherCase, hrearranges, htypes, hselects⟩ :=
    exists_merged_rearranges h htypeCase
  refine ⟨mergedOther.typeCase, hotherCase, ?_⟩
  apply hrearranges.typeCase
  · exact isRegular_of_selects hsound hset hselects
  · intro type htype key first hfirst second hsecond
    rw [htypes] at htype
    have hmember : ∀ field ∈ merged.fieldsUnder type key, ∃ member : Typed.Selected,
        document.SelectsField options.mergeSpreadFields set.selections ⟨type, key⟩ member ∧
          member.conditional = field := by
      intro field hfield
      rw [SelectionSet.fieldsUnder, Typed.Selected.filter_conditional] at hfield
      obtain ⟨member, hmember, rfl⟩ := List.mem_map.mp hfield
      obtain ⟨hmem, hkey⟩ := List.mem_filter.mp hmember
      refine ⟨member, ?_, rfl⟩
      exact (Typed.Document.selectsField_iff (hselects type) htype member).mpr
        ⟨hmem, of_decide_eq_true hkey⟩
    obtain ⟨origin, horigin, rfl⟩ := hmember first hfirst
    obtain ⟨otherOrigin, hotherOrigin, rfl⟩ := hmember second hsecond
    have hmerge : document.CanMerge options.mergeSpreadFields set origin.field otherOrigin.field :=
      .outside htype horigin hotherOrigin
    exact Typed.Selected.agrees_conditional (hmerge.agrees hsound hset hagrees)

theorem agrees_nested {typeCase : TypeCase}
    (htypeCase : typeCaseOf options document set = .ok typeCase) {field : Typed.Field}
    (hfield : field ∈ typeCase.fields) {nested : SelectionSet}
    (hnested : field.selectionSet = some nested) :
    document.Agrees options.mergeSpreadFields nested := by
  obtain ⟨merged, rfl, htypes, hselects⟩ := exists_merged_of_typeCaseOf htypeCase
  obtain ⟨type, htype, members, hmerge, hmembers⟩ := exists_members_of_mem_fields hfield
  rw [htypes] at htype
  have hselected : ∀ member ∈ members, document.SelectsField options.mergeSpreadFields
      set.selections ⟨type, field.responseKey⟩ member := fun member hmember =>
    (Typed.Document.selectsField_iff (hselects type) htype member).mpr (hmembers member hmember)
  have hjoined : Typed.Field.joined? (members.map Typed.Selected.conditional) = some nested := by
    rw [← Typed.Field.selectionSet_mergeAll, hmerge]
    exact hnested
  exact fun first second hinside =>
    hagrees first second (hinside.of_joined hsound hset hagrees htype hselected hjoined)

theorem reorders_flatten (h : set.Rearranges other) {node otherNode : Selection}
    (hnode : flatten options document set = .ok node)
    (hother : flatten options document other = .ok otherNode) : node.Reorders otherNode := by
  have hacyclic : options.mergeSpreadFields = true → document.IsAcyclic := fun _ => hsound.acyclic
  induction hdepth : Typed.Selection.allDepthThrough (spreadDepth options document) set.selections
    using Nat.strong_induction_on generalizing set other node otherNode with
  | h depth ih =>
    have hdefines := hset.defines hsound.closed
    have hdefinesOther : document.Defines other.selections :=
      fun name hname => hdefines name ((h.selections.mem_allSpreads name).mp hname)
    rw [flatten_eq hsound.closed hacyclic hdefines] at hnode
    rw [flatten_eq hsound.closed hacyclic hdefinesOther] at hother
    obtain ⟨typeCase, htypeCase⟩ := exists_typeCaseOf hsound.closed hacyclic hdefines
    obtain ⟨otherCase, hotherCase, hcases⟩ :=
      exists_typeCaseOf_rearranges hsound hset hagrees h htypeCase
    apply reorders_flattenStep h htypeCase hotherCase hcases _ hnode hother
    intro field hfield nested hnested otherNested hrearranges inner otherInner hinner hotherInner
    exact ih _ (hdepth ▸ depth_nested_lt htypeCase hacyclic hfield hnested)
      (composes_nested hset htypeCase hfield hnested)
      (agrees_nested hsound hset hagrees htypeCase hfield hnested) hrearranges hinner hotherInner
      rfl

end

section

variable {schema : Schema} {options compileOptions : Options} {filePath : Option String}
  {source : Source.Document} {document : Typed.Document}

/-- Whatever selections of a compiled document make up a set: if its fields that can be merged are
the same apart from conditions and nested selections, then the set has a flat form, and so it has
with its selections in any other order, at every depth. Both are the same up to the order of fields,
conditions and names of fragments. With fragments kept apart it is enough to ask this of the fields
that can be merged with spreads passed over. -/
theorem reorders_of_rearranges
    (hcompile : Typed.Document.compile schema compileOptions filePath source = .ok document)
    {set : SelectionSet} (hset : document.Composes set.selections) {follow : Bool}
    (hfollow : options.mergeSpreadFields = true → follow = true)
    (hagrees : document.Agrees follow set) {selections : List Typed.Selection}
    (h : Typed.Selection.Rearranges set.selections selections) :
    ∃ node other, flatten options document set = .ok node ∧
      flatten options document { set with selections } = .ok other ∧ node.Reorders other := by
  have hsound := Typed.Document.isSound_of_compile hcompile
  have hdefines := hset.defines hsound.closed
  have hdefinesOther : document.Defines selections :=
    fun name hname => hdefines name ((h.mem_allSpreads name).mp hname)
  have hmerged : document.Agrees options.mergeSpreadFields set := by
    cases follow with
    | false =>
      rw [Bool.eq_false_iff.mpr fun hmerge => Bool.false_ne_true (hfollow hmerge)]
      exact hagrees
    | true => exact hagrees.of_following hsound hset options.mergeSpreadFields
  obtain ⟨node, hnode⟩ : ∃ node, flatten options document set = .ok node :=
    exists_flatten hsound.closed (fun _ => hsound.acyclic) hdefines
  obtain ⟨other, hother⟩ : ∃ other, flatten options document { set with selections } = .ok other :=
    exists_flatten hsound.closed (fun _ => hsound.acyclic) hdefinesOther
  have hrearranges : set.Rearranges { set with selections } := ⟨rfl, h⟩
  exact ⟨node, other, hnode, hother, reorders_flatten hsound hset hmerged hrearranges hnode hother⟩

end

/-- The friend of dogs is selected twice, in front of the name of all animals and behind it, with
the prey of cats in one of the two places. -/
def friendOfDogsTwice : Source.Document where
  definitions :=
    [.operation
       { description := none
         kind := .query
         name := some "Q"
         variableDefinitions := []
         directives := []
         selections := [.field none "animal" [] [] [.fragmentSpread "OfAnimals" []]] },
     .fragment ⟨none, "OfAnimals", "Animal", [],
       [.inlineFragment (some "Dog") []
          [.field none "friend" [] [] [.field none "name" [] [] []], .field none "name" [] [] []],
        .field none "name" [] [] [],
        .inlineFragment (some "Dog") []
          [.field none "friend" [] []
             [.inlineFragment (some "Cat") []
                [.field none "prey" [] [] [.field none "name" [] [] []]]]]]⟩]

theorem reorders_of_rearranges_friendOfDogsTwice :
    ∃ document fragment node other,
      Typed.Document.compile Schema.animals {} none friendOfDogsTwice = .ok document ∧
      document.fragment? "OfAnimals" = some fragment ∧
      fragment.selectionSet.selections.length = 3 ∧
      flatten {} document fragment.selectionSet = .ok node ∧
      flatten {} document { fragment.selectionSet with
        selections := fragment.selectionSet.selections.reverse } = .ok other ∧
      node.Reorders other := by
  obtain ⟨document, hcompile⟩ : ∃ document,
      Typed.Document.compile Schema.animals {} none friendOfDogsTwice = .ok document :=
    Outcome.exists_eq_ok (by decide +kernel)
  have hlength : ((Typed.Document.compile Schema.animals {} none friendOfDogsTwice).toOption.bind
      fun document => (document.fragment? "OfAnimals").map (·.selectionSet.selections.length)) =
        some 3 := by decide +kernel
  rw [hcompile] at hlength
  obtain ⟨fragment, hfragment, hlength⟩ := Option.map_eq_some_iff.mp hlength
  have hset : document.Composes fragment.selectionSet.selections :=
    (Typed.Document.hasSet_of_fragment? hfragment).composes
  have hsame : (Typed.Document.compile Schema.animals {} none friendOfDogsTwice).toOption.map
      (fun document => document.heads.all fun head => head.args.isEmpty &&
        document.heads.all fun other => decide (head.responseKey = other.responseKey →
          (head.name, head.aliasName, head.type, head.description, head.isDeprecated,
              head.deprecationReason) =
            (other.name, other.aliasName, other.type, other.description, other.isDeprecated,
              other.deprecationReason))) = some true := by decide +kernel
  rw [hcompile] at hsame
  have hagrees : document.Agrees true fragment.selectionSet := by
    apply Typed.Document.agrees_of_heads (Typed.Document.isSound_of_compile hcompile) hset
    intro head hhead other hother hkey
    simp only [Except.toOption, Option.map_some, Option.some.injEq, List.all_eq_true,
      Bool.and_eq_true, List.isEmpty_iff, decide_eq_true_eq, Prod.mk.injEq] at hsame
    obtain ⟨hargs, hrest⟩ := hsame head hhead
    obtain ⟨hotherArgs, _⟩ := hsame other hother
    obtain ⟨hname, halias, htype, hdescription, hdeprecated, hreason⟩ := hrest other hother hkey
    simp only [Typed.FieldHead.unconditional, hkey, hname, halias, htype, hargs, hotherArgs,
      hdescription, hdeprecated, hreason]
  obtain ⟨node, other, hnode, hother, hreorders⟩ :=
    reorders_of_rearranges hcompile hset (fun _ => rfl) hagrees
      (Typed.Selection.Rearranges.of_perm (List.reverse_perm _).symm)
  exact ⟨document, fragment, node, other, hcompile, hfragment, hlength, hnode, hother, hreorders⟩

end QueryShape.Flat
