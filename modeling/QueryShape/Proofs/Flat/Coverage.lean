import QueryShape.Proofs.Flat.Shown
import QueryShape.Proofs.Flat.Flattened

/-!
# Flattening keeps every field and adds none

For each of its possible types a flattened selection set shows the fields that the set selects for
the type, and no others. A field that is shown has the flat form of the selections of all fields
that were selected under its key.
-/

set_option autoImplicit false

namespace QueryShape.Typed

def selectedUnder (key : String) (selected : List Selected) : List Field :=
  (selected.filter (·.field.responseKey = key)).map (·.field)

theorem selectedUnder_eq_nil {key : String} {selected : List Selected} :
    selectedUnder key selected = [] ↔ ∀ member ∈ selected, member.field.responseKey ≠ key := by
  simp [selectedUnder, List.filter_eq_nil_iff]

namespace SelectionSet

variable (set : SelectionSet) (type key : String)

theorem fieldsUnder_eq :
    set.fieldsUnder type key =
      ((set.selectedFor type).filter (·.field.responseKey = key)).map Selected.conditional :=
  Selected.filter_conditional key (set.selectedFor type)

theorem fieldsUnder_eq_nil :
    set.fieldsUnder type key = [] ↔ selectedUnder key (set.selectedFor type) = [] := by
  rw [fieldsUnder_eq, selectedUnder, List.map_eq_nil_iff, List.map_eq_nil_iff]

theorem joined?_fieldsUnder :
    Field.joined? (set.fieldsUnder type key) =
      Field.joined? (selectedUnder key (set.selectedFor type)) := by
  rw [fieldsUnder_eq, selectedUnder]
  cases (set.selectedFor type).filter (·.field.responseKey = key) with
  | nil => rfl
  | cons first rest => simp [Field.joined?, Field.nested, List.flatMap_map]

end SelectionSet

end QueryShape.Typed

namespace QueryShape.Flat

open Typed (FragmentError SelectionSet Record TypeCase)

section

variable {options : Options} {document : Typed.Document} {set : SelectionSet} {typeCase : TypeCase}

theorem isFlattened_of_held (hset : IsFlattened options document set)
    (htypeCase : typeCaseOf options document set = .ok typeCase) {record : Record}
    (hrecord : record ∈ typeCase.records) {key : String} {field : Typed.Field}
    (hheld : (record.field? key).or (typeCase.defaultRecord.field? key) = some field)
    {nested : SelectionSet} (hnested : field.selectionSet = some nested) :
    IsFlattened options document nested := by
  rcases Option.or_eq_some_iff.mp hheld with hown | ⟨_, hdefault⟩
  · have hfield : field ∈ record.fields := List.mem_of_find?_eq_some hown
    have hneeds : needsInlineFragments options set record = true := by
      by_contra hneeds
      rw [fields_eq_nil_of_not_needs htypeCase hrecord (by simpa using hneeds)] at hfield
      cases hfield
    exact .nested hset htypeCase (Or.inr ⟨hrecord, hneeds⟩) hfield hnested
  · exact .nested hset htypeCase (Or.inl rfl) (List.mem_of_find?_eq_some hdefault) hnested

end

variable {options : Options} {document : Typed.Document} {set : SelectionSet}

/-- The node shows for each possible type of the set fields under exactly those response keys under
which the set selects fields for the type, with spreads followed if the options say so. The field
shown under a key has the flat form of the selections of all fields selected under it, in order,
over the possible types of the first. -/
def Selection.ShowsSelected (options : Options) (document : Typed.Document) (set : SelectionSet)
    (node : Selection) : Prop :=
  ∀ type ∈ set.possibleTypes, ∃ selected,
    document.Selects options.mergeSpreadFields type [] set.possibleTypes set.selections selected ∧
    ∀ key,
      (((Node.selection node).shown? type key).isSome ↔
        ∃ member ∈ selected, member.field.responseKey = key) ∧
      ∀ shown, (Node.selection node).shown? type key = some shown →
        match Typed.Field.joined? (Typed.selectedUnder key selected) with
        | none => shown = .leaf
        | some joined =>
          IsFlattened options document joined ∧
            ∃ inner, flatten options document joined = .ok inner ∧ shown = .selection inner

theorem IsFlattened.exists_showsSelected (hset : IsFlattened options document set)
    (hclosed : document.IsClosed) (hacyclic : document.IsAcyclic) (hnames : document.HasNames) :
    ∃ node, flatten options document set = .ok node ∧
      node.ShowsSelected options document set := by
  have hdefines := hset.defines hclosed
  obtain ⟨node, hnode⟩ := exists_flatten hclosed (fun _ => hacyclic) hdefines
  refine ⟨node, hnode, fun type htype => ?_⟩
  rw [flatten_eq hclosed (fun _ => hacyclic) hdefines] at hnode
  obtain ⟨typeCase, htypeCase, _⟩ := flattenStep_eq_ok.mp hnode
  have hnamed := isNamed_of_mem_fields htypeCase hnames (hset.hasNames hnames)
  obtain ⟨merged, hmerged, htypes, hselects⟩ := exists_merged_of_typeCaseOf htypeCase
  rw [← htypes] at htype
  obtain ⟨record, hrecord, hin⟩ := merged.sorts_typeCase.partition.covered type htype
  refine ⟨merged.selectedFor type, hselects type, fun key => ?_⟩
  have hheld := merged.field_typeCase hrecord hin key
  rw [hmerged] at hrecord hheld
  have hrel := rel_shown? hnode htypeCase hnamed hrecord hin key
  rw [hheld] at hrel
  constructor
  · have hsome : (∃ member ∈ merged.selectedFor type, member.field.responseKey = key) ↔
        (Typed.Field.mergeAll (merged.fieldsUnder type key)).isSome := by
      rw [← Option.ne_none_iff_isSome, Ne, Typed.Field.mergeAll_eq_none,
        SelectionSet.fieldsUnder_eq_nil, Typed.selectedUnder_eq_nil]
      simp
    rw [hsome]
    generalize Typed.Field.mergeAll _ = held, Node.shown? _ _ _ = shown at hrel ⊢
    cases hrel <;> simp
  · intro shown hshown
    rw [hshown] at hrel
    rw [← SelectionSet.joined?_fieldsUnder, ← Typed.Field.selectionSet_mergeAll]
    cases hmerge : Typed.Field.mergeAll (merged.fieldsUnder type key) with
    | none =>
      rw [hmerge] at hrel
      cases hrel
    | some field =>
      rw [hmerge] at hrel hheld
      cases hrel with
      | some hof =>
        obtain ⟨flat, hflat, rfl⟩ := hof
        rcases ofTyped_field_eq_ok.mp hflat with ⟨hleaf, rfl⟩ |
          ⟨nested, inner, hnested, hinner, rfl⟩
        · rw [Option.bind_some, hleaf]
          rfl
        · rw [Option.bind_some, hnested]
          exact ⟨isFlattened_of_held hset htypeCase hrecord hheld hnested, inner, hinner, rfl⟩

/-- Whatever selection set of a compiled document is flattened, its node shows what it selects. -/
theorem shown_iff_selected {schema : Schema} {compileOptions : Options} {filePath : Option String}
    {source : Source.Document}
    (hcompile : Typed.Document.compile schema compileOptions filePath source = .ok document)
    (haliases : "" ∉ source.aliases) (hset : IsFlattened options document set) :
    ∃ node, flatten options document set = .ok node ∧ node.ShowsSelected options document set :=
  hset.exists_showsSelected (Typed.Document.isClosed_of_compile hcompile)
    (Typed.Document.isAcyclic_of_compile hcompile)
    (Typed.Document.hasNames_of_compile hcompile haliases)

def friends : Source.Document where
  definitions :=
    [.operation
       { description := none
         kind := .query
         name := some "Q"
         variableDefinitions := []
         directives := []
         selections := [.field none "animal" [] [] [.fragmentSpread "Friends" []]] },
     .fragment ⟨none, "Friends", "Animal", [],
       [.inlineFragment (some "Dog") [] [.field none "friend" [] [] [.field none "name" [] [] []]],
        .field none "name" [] [] [],
        .fragmentSpread "OfCats" []]⟩,
     .fragment ⟨none, "OfCats", "Cat", [],
       [.field none "prey" [] [] [.field none "name" [] [] []]]⟩]

theorem shown_iff_selected_friends :
    ∃ document fragment, Typed.Document.compile Schema.animals {} none friends = .ok document ∧
      "" ∉ friends.aliases ∧ document.fragment? "Friends" = some fragment ∧
      IsFlattened {} document fragment.selectionSet ∧
      ∃ node, flatten {} document fragment.selectionSet = .ok node ∧
        ∀ type ∈ fragment.selectionSet.possibleTypes, ∃ selected,
          document.Selects true type [] fragment.selectionSet.possibleTypes
            fragment.selectionSet.selections selected ∧
          ∀ key, ((Node.selection node).shown? type key).isSome ↔
            ∃ member ∈ selected, member.field.responseKey = key := by
  obtain ⟨document, hcompile⟩ : ∃ document,
      Typed.Document.compile Schema.animals {} none friends = .ok document :=
    Outcome.exists_eq_ok (by decide +kernel)
  have hfragment : ((Typed.Document.compile Schema.animals {} none friends).toOption.bind
      (·.fragment? "Friends")).isSome = true := by decide +kernel
  rw [hcompile] at hfragment
  obtain ⟨fragment, hfragment⟩ := Option.isSome_iff_exists.mp hfragment
  have hset : IsFlattened {} document fragment.selectionSet :=
    .fragment (Typed.Document.mem_of_fragment? hfragment).1
  have haliases : "" ∉ friends.aliases := by decide
  obtain ⟨node, hnode, hshown⟩ := shown_iff_selected hcompile haliases hset
  refine ⟨document, fragment, hcompile, haliases, hfragment, hset, node, hnode, ?_⟩
  intro type htype
  obtain ⟨selected, hselects, hkeys⟩ := hshown type htype
  exact ⟨selected, hselects, fun key => (hkeys key).1⟩

end QueryShape.Flat
